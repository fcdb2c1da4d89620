import Gts3.Lib.Fips180
import Gts3.Lib.HttpMessage
import Gts3.Lib.Rfc4648
import Gts3.Lib.Trim

/-!
# RFC 6455, section 4: the opening handshake

What a client asks for, and which answer completes the handshake.  A message is read as a head in one way only
(`IsHead.unique`), so its fields decide (`Offer.accepts_iff`).
-/

namespace Lib.WebSocketHandshake

open Search Cxx HttpMessage

/-! ## Heads -/

/-- A head with this code and these fields, and then a body. -/
def IsHead (message : Bytes) (code : ℕ) (fields : List (Bytes × Bytes)) : Prop :=
  ∃ version reason body, 32 ∉ version ∧ NoLineEnd (statusLine version code reason) ∧
    (∀ f ∈ fields, FieldOk f ∧ 58 ∉ f.1) ∧ message = block (statusLine version code reason) fields ++ body

theorem space_not_mem_formatNat (n : ℕ) : 32 ∉ formatNat 10 n := by
  intro h
  have hlt : digitVal 32 < 10 := digitVal_lt_of_mem_formatNat (by omega) (by omega) n 32 h
  exact absurd hlt (by decide)

theorem statusLine_inj {version version' reason reason' : Bytes} {code code' : ℕ} (hv : 32 ∉ version)
    (hv' : 32 ∉ version') (h : statusLine version code reason = statusLine version' code' reason') : code = code' := by
  have hspace : ∀ {s : Bytes}, 32 ∉ s → find [32] s = none := find_singleton_eq_none.mpr
  simp only [statusLine, List.append_assoc] at h
  have hbehind := List.append_cancel_left h
  rw [← List.append_assoc, ← List.append_assoc version'] at hbehind
  obtain ⟨-, htail⟩ := append_pat_inj (borderless_singleton 32) (hspace hv) (hspace hv') hbehind
  rw [← List.append_assoc, ← List.append_assoc (formatNat 10 code')] at htail
  obtain ⟨hcode, -⟩ := append_pat_inj (borderless_singleton 32) (hspace (space_not_mem_formatNat code))
    (hspace (space_not_mem_formatNat code')) htail
  exact formatNat_injective (by omega) (by omega) hcode

theorem fieldText_inj {f f' : Bytes × Bytes} (hf : 58 ∉ f.1) (hf' : 58 ∉ f'.1)
    (h : f.1 ++ lit ": " ++ f.2 = f'.1 ++ lit ": " ++ f'.2) : f = f' := by
  have hnone : ∀ {s : Bytes}, 58 ∉ s → find (lit ": ") s = none := fun hs =>
    find_eq_none_iff.mpr fun hin => hs (hin.subset (by decide))
  obtain ⟨hname, hvalue⟩ := append_pat_inj (borderless_pair (by decide)) (hnone hf) (hnone hf') h
  exact Prod.ext hname hvalue

theorem noLineEnd_fieldText {f : Bytes × Bytes} (h : FieldOk f) : NoLineEnd (f.1 ++ lit ": " ++ f.2) :=
  (h.1.append (by decide)).append h.2

theorem fieldLines_cons (f : Bytes × Bytes) (fields : List (Bytes × Bytes)) (rest : Bytes) :
    (f :: fields).flatMap fieldLine ++ rest = f.1 ++ lit ": " ++ f.2 ++ crlf ++ (fields.flatMap fieldLine ++ rest) := by
  rw [List.flatMap_cons, fieldLine, List.append_assoc]

theorem fieldLines_inj {fields fields' : List (Bytes × Bytes)} {body body' : Bytes}
    (hok : ∀ f ∈ fields, FieldOk f ∧ 58 ∉ f.1) (hok' : ∀ f ∈ fields', FieldOk f ∧ 58 ∉ f.1)
    (h : fields.flatMap fieldLine ++ (crlf ++ body) = fields'.flatMap fieldLine ++ (crlf ++ body')) :
    fields = fields' := by
  have hnotNil : ∀ f : Bytes × Bytes, f.1 ++ lit ": " ++ f.2 ≠ [] := by
    intro f hnil
    exact absurd (List.append_eq_nil_iff.mp (List.append_eq_nil_iff.mp hnil).1).2 (by decide)
  induction fields generalizing fields' with
  | nil =>
    cases fields' with
    | nil => rfl
    | cons f' fields' =>
      rw [List.flatMap_nil, List.nil_append, fieldLines_cons] at h
      have hf' := (hok' f' List.mem_cons_self).1
      have hcut := append_pat_inj (c := []) borderless_crlf rfl (noLineEnd_fieldText hf').find_crlf h
      exact absurd hcut.1.symm (hnotNil f')
  | cons f fields ih =>
    have hf := hok f List.mem_cons_self
    cases fields' with
    | nil =>
      rw [List.flatMap_nil, List.nil_append, fieldLines_cons] at h
      obtain ⟨hnil, -⟩ := append_pat_inj borderless_crlf (noLineEnd_fieldText hf.1).find_crlf
        (rfl : find crlf [] = none) h
      exact absurd hnil (hnotNil f)
    | cons f' fields' =>
      have hf' := hok' f' List.mem_cons_self
      rw [fieldLines_cons, fieldLines_cons] at h
      obtain ⟨hline, hrest⟩ := append_pat_inj borderless_crlf (noLineEnd_fieldText hf.1).find_crlf
        (noLineEnd_fieldText hf'.1).find_crlf h
      rw [fieldText_inj hf.2 hf'.2 hline, ih (fun g hg => hok g (List.mem_cons_of_mem f hg))
        (fun g hg => hok' g (List.mem_cons_of_mem f' hg)) hrest]

/-- **A head is read in one way.** -/
theorem IsHead.unique {message : Bytes} {code code' : ℕ} {fields fields' : List (Bytes × Bytes)}
    (h : IsHead message code fields) (h' : IsHead message code' fields') : code = code' ∧ fields = fields' := by
  obtain ⟨version, reason, body, hv, hstatus, hok, rfl⟩ := h
  obtain ⟨version', reason', body', hv', hstatus', hok', heq⟩ := h'
  simp only [block, List.append_assoc] at heq
  rw [← List.append_assoc, ← List.append_assoc (statusLine version' code' reason')] at heq
  obtain ⟨hline, hrest⟩ := append_pat_inj borderless_crlf hstatus.find_crlf hstatus'.find_crlf heq
  exact ⟨statusLine_inj hv hv' hline, fieldLines_inj hok hok' hrest⟩

/-! ## Fields -/

/-- There is such a field, and `P` holds of every value that it has. -/
def HasField (fields : List (Bytes × Bytes)) (name : Bytes) (P : Bytes → Prop) : Prop :=
  (∃ f ∈ fields, SameName f.1 name) ∧ ∀ f ∈ fields, SameName f.1 name → P f.2

/-- The token is an item of a list, with blanks around it or not. -/
def HasToken (token value : Bytes) : Prop := ∃ item ∈ value.splitOn 44, SameName (Trim.trim Trim.isBlank item) token

/-- The separators of the grammar of tokens. -/
def separators : Bytes := lit "()<>@,;:\\\"/[]?=\x7b\x7d"

/-- A token of the grammar, without the percent sign. -/
def IsToken (s : Bytes) : Prop := s ≠ [] ∧ ∀ c ∈ s, 33 ≤ c ∧ c ≤ 126 ∧ c ≠ 37 ∧ c ∉ separators

instance (s : Bytes) : Decidable (IsToken s) := inferInstanceAs (Decidable (_ ∧ _))

/-! ## Client and answer -/

/-- The text behind the key. -/
def guid : Bytes := lit "258EAFA5-E914-47DA-95CA-C5AB0DC85B11"

/-- The twenty bytes of a hash value. -/
def digestBytes (v : Fips180.Words) : Bytes :=
  [v.a, v.b, v.c, v.d, v.e].flatMap fun w : UInt32 =>
    [(w >>> 24).toUInt8, (w >>> 16).toUInt8, (w >>> 8).toUInt8, w.toUInt8]

/-- The value with which a server shows that it has read the key. -/
def acceptValue (key : Bytes) : Bytes := Rfc4648.encode64 (digestBytes (Fips180.sha1 (key ++ guid)))

/-- What a client asks for, with the values of `Connection` and `Upgrade` as it writes them. -/
structure Offer where
  nonce : Bytes
  nonce_length : nonce.length = 16
  connection : Bytes
  upgrade : Bytes
  protocols : List Bytes
  protocol_token : ∀ p ∈ protocols, IsToken p

theorem noLineEnd_encode64 (l : List UInt8) : NoLineEnd (Rfc4648.encode64 l) :=
  Rfc4648.forall_mem_encode64 (by decide) (by decide) l

namespace Offer

/-- The value of `Sec-WebSocket-Key`. -/
def key (o : Offer) : Bytes := Rfc4648.encode64 o.nonce

/-- The fields of the client. -/
def fields (o : Offer) : List (Bytes × Bytes) :=
  [(lit "Upgrade", o.upgrade), (lit "Connection", o.connection), (lit "Sec-WebSocket-Key", o.key),
      (lit "Sec-WebSocket-Version", lit "13")] ++
    if o.protocols = [] then [] else [(lit "Sec-WebSocket-Protocol", (lit ", ").intercalate o.protocols)]

/-- The names of the fields that a client may send. -/
def names : List Bytes :=
  [lit "Upgrade", lit "Connection", lit "Sec-WebSocket-Key", lit "Sec-WebSocket-Version", lit "Sec-WebSocket-Protocol"]

/-- What the client looks at in an answer. -/
structure AcceptsFields (o : Offer) (code : ℕ) (fields : List (Bytes × Bytes)) : Prop where
  code : code = 101
  upgrade : HasField fields (lit "Upgrade") (SameName · (lit "websocket"))
  connection : HasField fields (lit "Connection") (HasToken (lit "upgrade"))
  accept : HasField fields (lit "Sec-WebSocket-Accept") (· = acceptValue o.key)
  /-- No extension was asked for. -/
  extension : ∀ f ∈ fields, ¬ SameName f.1 (lit "Sec-WebSocket-Extensions")
  protocol : ∀ f ∈ fields, SameName f.1 (lit "Sec-WebSocket-Protocol") → f.2 ∈ o.protocols

/-- The answer completes the handshake. -/
def Accepts (o : Offer) (message : Bytes) : Prop :=
  ∃ code fields, IsHead message code fields ∧ o.AcceptsFields code fields

/-- **The fields decide** whether an answer completes the handshake. -/
theorem accepts_iff {o : Offer} {message : Bytes} {code : ℕ} {fields : List (Bytes × Bytes)}
    (h : IsHead message code fields) : o.Accepts message ↔ o.AcceptsFields code fields := by
  refine ⟨fun ⟨code', fields', h', haccepts⟩ => ?_, fun haccepts => ⟨code, fields, h, haccepts⟩⟩
  obtain ⟨rfl, rfl⟩ := h.unique h'
  exact haccepts

theorem not_accepts_nil (o : Offer) : ¬ o.Accepts [] := by
  rintro ⟨code, fields, ⟨version, reason, body, -, -, -, h⟩, -⟩
  have hhead : (block (statusLine version code reason) fields ++ body).head? = some 72 := rfl
  rw [← h] at hhead
  cases hhead

end Offer

end Lib.WebSocketHandshake
