import Gts3.Lib.Cxx
import Gts3.Lib.OrderedInsert

/-!
# `gts/utls/json.cpp`: structs to JSON and back

The types of the values are data here, a struct with the list of its registered properties, and `Val t` are the values
of the type `t`.  Containers are the ones with an order: sequences, and the sets and maps with their multi variants.
The writers (`toJsonRecursively` and what it calls) and the readers (`fromJsonRecursively` and what it calls) go down
the type as the source asks `rttr` for it.  What comes back is in `Gts3.Utls.JsonRoundTrip`.
-/

namespace Gts3.Utls

open Lib Lib.Cxx

/-! ## Types and values -/

/-- The integer types; `int8_t` is `signed char`, `int64_t` is `long`, and so on. -/
inductive IntType
  | bool
  | char
  | signedChar
  | unsignedChar
  | short
  | unsignedShort
  | int
  | unsignedInt
  | long
  | unsignedLong
  | longLong
  | unsignedLongLong
  | wchar
  | char16
  | char32
  deriving DecidableEq, Repr

namespace IntType

/-- The bits of a value. -/
def bits : IntType → ℕ
  | bool => 1
  | char | signedChar | unsignedChar => 8
  | short | unsignedShort | char16 => 16
  | int | unsignedInt | wchar | char32 => 32
  | long | unsignedLong | longLong | unsignedLongLong => 64

/-- `std::is_signed`. -/
def signed : IntType → Bool
  | char | signedChar | short | int | long | longLong | wchar => true
  | bool | unsignedChar | unsignedShort | unsignedInt | unsignedLong | unsignedLongLong | char16 | char32 => false

/-- The number is a value of the type. -/
def Holds (k : IntType) (n : ℤ) : Prop :=
  if k.signed then -2 ^ (k.bits - 1) ≤ n ∧ n < 2 ^ (k.bits - 1) else 0 ≤ n ∧ n < 2 ^ k.bits

instance (k : IntType) (n : ℤ) : Decidable (k.Holds n) := inferInstanceAs (Decidable (ite _ _ _))

/-- The values. -/
def Value (k : IntType) : Type := {n : ℤ // k.Holds n}

instance (k : IntType) : DecidableEq k.Value := inferInstanceAs (DecidableEq (Subtype _))

theorem holds_wrap (k : IntType) (n : ℤ) :
    k.Holds (if k.signed then Int.bmod n (2 ^ k.bits) else n % 2 ^ k.bits) := by
  cases k <;> simp only [Holds, signed, bits, if_true, Bool.false_eq_true, if_false, Int.bmod_def] <;> omega

/-- `static_cast` of a number. -/
def cast (k : IntType) (n : ℤ) : k.Value := ⟨_, k.holds_wrap n⟩

/-- A value is cast to itself. -/
theorem cast_val {k : IntType} (v : k.Value) : k.cast v.1 = v := by
  obtain ⟨n, hn⟩ := v
  refine Subtype.ext ?_
  show (if k.signed then Int.bmod n (2 ^ k.bits) else n % 2 ^ k.bits) = n
  cases k <;>
    simp only [Holds, signed, bits, if_true, Bool.false_eq_true, if_false, Int.bmod_def] at hn ⊢ <;> omega

end IntType

/-- The sequences: `std::vector`; `std::list` and `std::deque`; `std::array` and arrays. -/
inductive SeqKind
  | vector
  | list
  | array (size : ℕ)
  deriving DecidableEq, Repr

mutual

/-- A type: an enumeration with the names of its values, a container, or a struct with its properties. -/
inductive CxxType
  | int (k : IntType)
  | string
  | enumeration (name : Bytes) (underlying : IntType) (values : List (Bytes × ℤ))
  | sequence (kind : SeqKind) (element : CxxType)
  | set (multi : Bool) (key : CxxType)
  | map (multi : Bool) (key value : CxxType)
  | struct (name : Bytes) (properties : Properties)

/-- The properties of a struct, in the order of their registration. -/
inductive Properties
  | nil
  | cons (name : Bytes) (type : CxxType) (rest : Properties)

end

mutual

/-- The values of a type; containers as the list of what they hold. -/
def Val : CxxType → Type
  | .int k => k.Value
  | .string => Bytes
  | .enumeration _ underlying _ => underlying.Value
  | .sequence _ t => List (Val t)
  | .set _ t => List (Val t)
  | .map _ k t => List (Val k × Val t)
  | .struct _ ps => Vals ps

/-- The values of the properties. -/
def Vals : Properties → Type
  | .nil => Unit
  | .cons _ t rest => Val t × Vals rest

end

/-- The names of the properties. -/
def Properties.names : Properties → List Bytes
  | .nil => []
  | .cons name _ rest => name :: rest.names

mutual

/-- Properties are named by identifiers, each by its own. -/
def CxxType.Registered : CxxType → Prop
  | .int _ | .string | .enumeration _ _ _ => True
  | .sequence _ t => t.Registered
  | .set _ t => t.Registered
  | .map _ k t => k.Registered ∧ t.Registered
  | .struct _ ps => ps.Registered

/-- Every name is another one, and none is empty. -/
def Properties.Registered : Properties → Prop
  | .nil => True
  | .cons name t rest => name ≠ [] ∧ name ∉ rest.names ∧ t.Registered ∧ rest.Registered

end

/-- Every element has the property. -/
def Each {α : Type} (p : α → Prop) (l : List α) : Prop := ∀ x ∈ l, p x

/-- A sequence of this kind can have so many elements. -/
def SeqKind.Admits {α : Type} : SeqKind → List α → Prop
  | array n, l => l.length = n
  | _, _ => True

mutual

/-- The containers have the elements that a C++ container can have: so many, and in this order. -/
def Sound (less : (t : CxxType) → Val t → Val t → Bool) : (t : CxxType) → Val t → Prop
  | .int _, _ | .string, _ | .enumeration _ _ _, _ => True
  | .sequence kind t, items => kind.Admits items ∧ Each (Sound less t) items
  | .set multi t, keys => Ordered.Sorted multi (less t) keys ∧ Each (Sound less t) keys
  | .map multi k t, entries =>
    Ordered.Sorted multi (fun a b : Val k × Val t => less k a.1 b.1) entries ∧
      Each (fun e : Val k × Val t => Sound less k e.1 ∧ Sound less t e.2) entries
  | .struct _ ps, v => SoundAll less ps v

/-- The same for the properties. -/
def SoundAll (less : (t : CxxType) → Val t → Val t → Bool) : (ps : Properties) → Vals ps → Prop
  | .nil, _ => True
  | .cons _ t rest, v => Sound less t v.1 ∧ SoundAll less rest v.2

end

/-! ## JSON values -/

/-- Why a call does not return normally. -/
inductive JsonError
  /-- The readers throw: the JSON value is of this kind and the field of another type; no type at all when the view
  that is read into is empty. -/
  | mismatch (json : String) (type : Option CxxType)
  /-- `write_variant` throws: the type cannot be written. -/
  | invalidType (type : CxxType)
  /-- `operator[]` with a string on what is no object, `type_error` 305. -/
  | operatorIndex
  /-- `emplace_back` on what is no array, `type_error` 311. -/
  | emplaceBack
  /-- `operator[]` of a constant object fails the assertion that the key is there. -/
  | assertion
  /-- An element behind the end of a fixed array is used. -/
  | badIndex

/-- The result of a call, or why there is none. -/
abbrev Result := Except JsonError

section Result

variable {α β : Type}

@[simp] theorem result_ok_bind (a : α) (f : α → Result β) : (Except.ok a >>= f) = f a := rfl

@[simp] theorem result_error_bind (e : JsonError) (f : α → Result β) : ((.error e : Result α) >>= f) = .error e := rfl

@[simp] theorem result_pure (a : α) : (pure a : Result α) = .ok a := rfl

/-- A call that returns is one that returned in its first part. -/
theorem bind_eq_ok {x : Result α} {f : α → Result β} {b : β} : (x >>= f) = .ok b ↔ ∃ a, x = .ok a ∧ f a = .ok b := by
  cases x with
  | error e => simp
  | ok a => simp

end Result

/-- `njson`.  Numbers are integers, signed and unsigned ones alike; the members of an object are kept as a list. -/
inductive Njson
  | null
  | boolean (b : Bool)
  | number (n : ℤ)
  | string (s : Bytes)
  | array (items : List Njson)
  | object (members : List (Bytes × Njson))

namespace Njson

/-- The members behind an assignment. -/
def setMember (name : Bytes) (value : Njson) : List (Bytes × Njson) → List (Bytes × Njson)
  | [] => [(name, value)]
  | e :: m => if e.1 = name then (name, value) :: m else e :: setMember name value m

/-- `json[name] = value`; null becomes an object. -/
def assign (json : Njson) (name : Bytes) (value : Njson) : Result Njson :=
  match json with
  | null => .ok (object [(name, value)])
  | object m => .ok (object (setMember name value m))
  | _ => .error .operatorIndex

/-- `json.emplace_back(value)`; null becomes an array. -/
def emplaceBack (json : Njson) (value : Njson) : Result Njson :=
  match json with
  | null => .ok (array [value])
  | array items => .ok (array (items ++ [value]))
  | _ => .error .emplaceBack

/-- `json[name]` of a constant object. -/
def member (json : Njson) (name : Bytes) : Result Njson :=
  match json with
  | object m =>
    match m.lookup name with
    | some value => .ok value
    | none => .error .assertion
  | _ => .error .operatorIndex

/-- What the writers of atomic values do: `emplace_back` without a name, an assignment with one. -/
def put (json : Njson) (name : Bytes) (value : Njson) : Result Njson :=
  if name = [] then json.emplaceBack value else json.assign name value

end Njson

/-! ## Writers -/

/-- The types that `write_atomic_types_to_json` has a branch for. -/
def IntType.written : IntType → Bool
  | bool | signedChar | short | int | long | unsignedChar | unsignedShort | unsignedInt | unsignedLong => true
  | char | longLong | unsignedLongLong | wchar | char16 | char32 => false

/-- The JSON value of a number. -/
def IntType.toJson (k : IntType) (v : k.Value) : Njson :=
  match k with
  | bool => .boolean (decide (v.1 ≠ 0))
  | _ => .number v.1

/-- `write_atomic_types_to_json` for an arithmetic type. -/
def writeArithmetic (k : IntType) (v : k.Value) (name : Bytes) (json : Njson) : Result Njson :=
  if k.written then json.put name (k.toJson v) else .ok json

/-- `to_string` of a value of an enumeration: its first name, unless that is empty. -/
def enumerationName (values : List (Bytes × ℤ)) (n : ℤ) : Option Bytes :=
  ((values.find? fun e => e.2 = n).map Prod.fst).filter (· ≠ [])

/-- `to_uint64` of a value of an enumeration: `rttr` converts the types that are written, and `char`. -/
def enumerationNumber (underlying : IntType) (n : ℤ) : Option ℤ :=
  if (underlying.written ∨ underlying = .char) ∧ 0 ≤ n then some n else none

/-- `write_atomic_types_to_json` for an enumeration; the name of a value is assigned, whatever `name` is. -/
def writeEnumeration (underlying : IntType) (values : List (Bytes × ℤ)) (v : underlying.Value) (name : Bytes)
    (json : Njson) : Result Njson :=
  match enumerationName values v.1 with
  | some text => json.assign name (.string text)
  | none =>
    match enumerationNumber underlying v.1 with
    | some n => json.put name (.number n)
    | none => json.put name (.string [])

/-- `write_array`, with its loop body. -/
def writeArray {α : Type} (body : Njson → α → Result Njson) (items : List α) (name : Bytes) (json : Njson) :
    Result Njson := do
  let array ← items.foldlM body (.array [])
  json.assign name array

mutual

/-- The body of the loop of `write_array`.  The items of a `std::vector<bool>` have no wrapped value, sets and maps
have no properties: nothing is written for them. -/
def writeItem : (t : CxxType) → SeqKind → Bytes → Njson → Val t → Result Njson
  | .int k, kind, _, array, v =>
    if kind = .vector ∧ k = .bool then .ok array else writeArithmetic k v [] array
  | .string, _, _, array, s => array.put [] (.string s)
  | .enumeration _ underlying values, _, _, array, v => writeEnumeration underlying values v [] array
  | .sequence kind t, _, name, array, items => writeArray (writeItem t kind name) items name array
  | .set _ _, _, _, array, _ => .ok array
  | .map _ _ _, _, _, array, _ => .ok array
  | .struct _ ps, _, _, array, v => toJsonRecursively ps v array

/-- `write_variant`. -/
def writeVariant : (t : CxxType) → Bytes → Njson → Val t → Result Njson
  | .int k, name, json, v => writeArithmetic k v name json
  | .string, name, json, s => json.put name (.string s)
  | .enumeration _ underlying values, name, json, v => writeEnumeration underlying values v name json
  | .sequence kind t, name, json, items => writeArray (writeItem t kind name) items name json
  | .set _ t, name, json, keys => writeArray (writeVariant t []) keys name json
  | .map _ k t, name, json, entries =>
    writeArray (fun array (e : Val k × Val t) => do
      let sub ← writeVariant k (lit "key") (.object []) e.1
      let sub ← writeVariant t (lit "value") sub e.2
      array.emplaceBack sub) entries name json
  | .struct className .nil, _, _, _ => .error (.invalidType (.struct className .nil))
  | .struct _ (.cons property t rest), name, json, v => do
    let sub ← toJsonRecursively (.cons property t rest) v (.object [])
    json.put name sub

/-- `to_json_recursively`. -/
def toJsonRecursively : (ps : Properties) → Vals ps → Njson → Result Njson
  | .nil, _, json => .ok json
  | .cons name t rest, v, json => do
    let json ← writeVariant t name json v.1
    toJsonRecursively rest v.2 json

end

/-! ## Readers -/

/-- The types of numbers that `extract_basic_types` has a branch for. -/
def IntType.read : IntType → Bool
  | signedChar | unsignedChar | short | unsignedShort | int | unsignedInt | long | unsignedLong | longLong
  | unsignedLongLong => true
  | bool | char | wchar | char16 | char32 => false

/-- A boolean as a value of `bool`. -/
def IntType.ofBool (b : Bool) : IntType.bool.Value := IntType.cast .bool (if b then 1 else 0)

/-- `extract_basic_types`; nothing is the invalid variant. -/
def extractBasicTypes (t : CxxType) (json : Njson) : Result (Option (Val t)) :=
  match json with
  | .string s =>
    match t with
    | .string => .ok (some s)
    | t => .error (.mismatch "string" t)
  | .boolean b =>
    match t with
    | .int .bool => .ok (some (IntType.ofBool b))
    | t => .error (.mismatch "bool" t)
  | .number n =>
    match t with
    | .int k => if k.read then .ok (some (k.cast n)) else .error (.mismatch "arithmetic" (some (.int k)))
    | t => .error (.mismatch "arithmetic" t)
  | _ => .ok none

/-- `set_value` with what is extracted; an invalid variant is not taken. -/
def setBasic (t : CxxType) (old : Val t) (json : Njson) : Result (Val t) := do
  let extracted ← extractBasicTypes t json
  return extracted.getD old

mutual

/-- The body of the loop of `write_array_recursively` for an empty view: there is nothing to set, but the values are
still compared with the type. -/
def emptyItem : Njson → Result Unit
  | .array js => emptyView js
  | .string _ => .error (.mismatch "string" none)
  | .boolean _ => .error (.mismatch "bool" none)
  | .number _ => .error (.mismatch "arithmetic" none)
  | .null | .object _ => .ok ()

/-- `write_array_recursively` for an empty view. -/
def emptyView : List Njson → Result Unit
  | [] => .ok ()
  | j :: js => do
    emptyItem j
    emptyView js

end

/-- `set_size`: a fixed array keeps its size. -/
def SeqKind.setSize {α : Type} (kind : SeqKind) (fill : α) (n : ℕ) (items : List α) : List α :=
  match kind with
  | array _ => items
  | _ => items.take n ++ List.replicate (n - items.length) fill

/-- The loop of `write_array_recursively`, behind `set_size`. -/
def readItems {α : Type} (body : α → Njson → Result α) : List α → List Njson → Result (List α)
  | items, [] => .ok items
  | [], _ :: _ => .error .badIndex
  | item :: items, j :: js => do
    let item ← body item j
    let items ← readItems body items js
    return item :: items

/-- The loop body of `write_associative_view_recursively` for keys only. -/
def readKey {κ : Type} (extract : Njson → Result (Option κ)) (insert : κ → List κ → List κ) (keys : List κ)
    (j : Njson) : Result (List κ) := do
  let key ← extract j
  match key with
  | some key => return insert key keys
  | none => return keys

/-- The loop body of `write_associative_view_recursively` for keys with values. -/
def readEntry {κ ν : Type} (extractKey : Njson → Result (Option κ)) (extractValue : Njson → Result (Option ν))
    (insert : κ × ν → List (κ × ν) → List (κ × ν)) (entries : List (κ × ν)) (j : Njson) :
    Result (List (κ × ν)) := do
  let keyJson ← j.member (lit "key")
  let valueJson ← j.member (lit "value")
  let key ← extractKey keyJson
  let value ← extractValue valueJson
  match key, value with
  | some key, some value => return insert (key, value) entries
  | _, _ => return entries

/-- What the readers use of the classes: the values that default construction gives, and `operator<`. -/
structure Classes where
  create : (t : CxxType) → Val t
  less : (t : CxxType) → Val t → Val t → Bool
  strictWeak : ∀ t, StrictWeak (less t)
  sound : ∀ t, Sound less t (create t)

/-- The body of the loop of `write_array_recursively` for an element that has no view and no properties. -/
def readPlain (t : CxxType) (old : Val t) (json : Njson) : Result (Val t) :=
  match json with
  | .array js => do
    emptyView js
    return old
  | .object _ => return old
  | _ => setBasic t old json

mutual

/-- The body of the loop of `write_array_recursively`. -/
def readItem (C : Classes) : (t : CxxType) → Val t → Njson → Result (Val t)
  | .int k, old, json => readPlain (.int k) old json
  | .string, old, json => readPlain .string old json
  | .enumeration name underlying values, old, json => readPlain (.enumeration name underlying values) old json
  | .sequence kind t, old, json =>
    match json with
    | .array js => readItems (readItem C t) (kind.setSize (C.create t) js.length old) js
    | .object _ => return old
    | _ => setBasic (.sequence kind t) old json
  | .set multi t, old, json => readPlain (.set multi t) old json
  | .map multi k t, old, json => readPlain (.map multi k t) old json
  | .struct name ps, old, json =>
    match json with
    | .object _ => fromJsonRecursively C ps old json
    | _ => readPlain (.struct name ps) old json

/-- The body of the loop of `from_json_recursively`.  An invalid variant is not taken by `set_value`. -/
def readProperty (C : Classes) : (t : CxxType) → Val t → Njson → Result (Val t)
  | .int k, old, json =>
    match json with
    | .array _ | .object _ => return old
    | _ => setBasic (.int k) old json
  | .string, old, json =>
    match json with
    | .array _ | .object _ => return old
    | _ => setBasic .string old json
  | .enumeration name underlying values, old, json =>
    match json with
    | .array _ | .object _ => return old
    | _ => setBasic (.enumeration name underlying values) old json
  | .sequence kind t, old, json =>
    match json with
    | .array js => readItems (readItem C t) (kind.setSize (C.create t) js.length old) js
    | .object _ => return old
    | _ => setBasic (.sequence kind t) old json
  | .set multi t, old, json =>
    match json with
    | .array js => js.foldlM (readKey (extractValue C t) (Ordered.emplace multi (C.less t))) old
    | .object _ => return old
    | _ => setBasic (.set multi t) old json
  | .map multi k t, old, json =>
    match json with
    | .array js =>
      js.foldlM
        (readEntry (extractValue C k) (extractValue C t) (Ordered.emplace multi fun a b => C.less k a.1 b.1)) old
    | .object _ => return old
    | _ => setBasic (.map multi k t) old json
  | .struct name ps, old, json =>
    match json with
    | .array _ => return old
    | .object _ => fromJsonRecursively C ps old json
    | _ => setBasic (.struct name ps) old json

/-- `extract_value`; nothing is the invalid variant.  `create` of a type that is no struct gives no value of it. -/
def extractValue (C : Classes) : (t : CxxType) → Njson → Result (Option (Val t))
  | .int k, json => extractBasicTypes (.int k) json
  | .string, json => extractBasicTypes .string json
  | .enumeration name underlying values, json => extractBasicTypes (.enumeration name underlying values) json
  | .sequence kind t, json => extractBasicTypes (.sequence kind t) json
  | .set multi t, json => extractBasicTypes (.set multi t) json
  | .map multi k t, json => extractBasicTypes (.map multi k t) json
  | .struct name ps, json => do
    let extracted ← extractBasicTypes (.struct name ps) json
    match extracted, json with
    | none, .object m => do
      let value ← fromJsonRecursively C ps (C.create (.struct name ps)) (.object m)
      return some value
    | extracted, _ => return extracted

/-- `from_json_recursively`. -/
def fromJsonRecursively (C : Classes) : (ps : Properties) → Vals ps → Njson → Result (Vals ps)
  | .nil, _, _ => return ()
  | .cons name t rest, old, json => do
    let sub ← json.member name
    let v ← readProperty C t old.1 sub
    let vs ← fromJsonRecursively C rest old.2 json
    return (v, vs)

end

/-! ## `from_struct` and `to_struct` -/

/-- `from_struct`; only a struct has properties. -/
def fromStruct : (t : CxxType) → Val t → Result Njson
  | .struct _ ps, v => toJsonRecursively ps v (.object [])
  | _, _ => .ok (.object [])

/-- `to_struct` into an object that is there. -/
def toStruct (C : Classes) : (t : CxxType) → Val t → Njson → Result (Val t)
  | .struct _ ps, obj, json => fromJsonRecursively C ps obj json
  | _, obj, _ => .ok obj

/-- The value comes back, when its JSON value is read into a default-constructed object. -/
def RoundTrips (C : Classes) (t : CxxType) (v : Val t) : Prop :=
  ∃ json, fromStruct t v = .ok json ∧ toStruct C t (C.create t) json = .ok v

end Gts3.Utls
