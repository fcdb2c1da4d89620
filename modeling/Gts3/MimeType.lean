import Gts3.Algorithm
import Gts3.Lib.BinarySearch
import Gts3.Lib.FileStream

/-!
# `gts/mime_type.cpp`: the type that the beginning of a file shows

`s_mime_search` is a binary search on `std::size_t` bounds; it comes to an end on every table, also where `top` wraps
around (`mimeSearch_eq`).  It is right about what it finds, but `g_signatures_list` is not in order: eleven signatures
lie where the search never looks for them, and `<Maker` is found only when what follows is not below `Dictionary`.  And
`mime_from_magic` asks whether the type is empty, which it never is, so `g_signatures_list4` is not searched at all.
`magicSearch_agrees_iff` says for which buffers this makes no difference. -/

namespace Gts3.MimeType

open Lib Lib.Cxx Lib.BinarySearch Lib.FileStream

/-! ## The tables -/

/-- A literal behind `APPLICATION`, `AUDIO` and so on. -/
def mediaType (top sub : String) : Bytes := lit top ++ lit sub

def application : String → Bytes := mediaType "application/"

def audio : String → Bytes := mediaType "audio/"

def chemical : String → Bytes := mediaType "chemical/"

def image : String → Bytes := mediaType "image/"

def message : String → Bytes := mediaType "message/"

def model : String → Bytes := mediaType "model/"

def text : String → Bytes := mediaType "text/"

def video : String → Bytes := mediaType "video/"

/-- `g_signatures_list`: the signatures, each with its length in front, and the types. -/
def gSignaturesList : List (Bytes × Bytes) := [
  (lit "\x05\x00\x01\x00\x00\x00", application "x-font-ttf"),
  (lit "\x0C\x04%!PS-Adobe-", application "postscript"),
  (lit "\r\x1B%-12345X%!PS", application "postscript"),
  (lit "\x02\x1F\x8B", application "gzip"),
  (lit "\x02\x1F\x9D", application "x-compress"),
  (lit "\x0E!<arch>\ndebian", application "x-debian-package"),
  (lit "\x08#! rnews", message "rfc822"),
  (lit "\n#!/bin/ash", application "x-shellscript"),
  (lit "\x0B#!/bin/bash", application "x-shellscript"),
  (lit "\x0B#!/bin/perl", text "x-perl"),
  (lit "\x09#!/bin/sh", application "x-shellscript"),
  (lit "\x12#!/usr/bin/env lua", text "x-lua"),
  (lit "\x0F#!/usr/bin/perl", text "x-perl"),
  (lit "\x15#!/usr/bin/env python", text "x-python"),
  (lit "\x13#!/usr/bin/env ruby", text "x-ruby"),
  (lit "\x12#!/usr/bin/env tcl", text "x-tcl"),
  (lit "\x13#!/usr/bin/env wish", text "x-tcl"),
  (lit "\x0E#!/usr/bin/lua", text "x-lua"),
  (lit "\x11#!/usr/bin/python", text "x-python"),
  (lit "\x0F#!/usr/bin/ruby", text "x-ruby"),
  (lit "\x0E#!/usr/bin/tcl", text "x-tcl"),
  (lit "\x0F#!/usr/bin/wish", text "x-tcl"),
  (lit "\x14#!/usr/local/bin/lua", text "x-lua"),
  (lit "\x15#!/usr/local/bin/perl", text "x-perl"),
  (lit "\x17#!/usr/local/bin/python", text "x-python"),
  (lit "\x15#!/usr/local/bin/ruby", text "x-ruby"),
  (lit "\x14#!/usr/local/bin/tcl", text "x-tcl"),
  (lit "\x15#!/usr/local/bin/wish", text "x-tcl"),
  (lit "\x11# KDE Config File", application "x-kdelnk"),
  (lit "\x14# PaCkAgE DaTaStReAm", application "x-svr4-package"),
  (lit "\x06# xmcd", text "x-xmcd"),
  (lit "\x0B#?RADIANCE\n", image "vnd.radiance"),
  (lit "\x0B%!PS-Adobe-", application "postscript"),
  (lit "\x05%PDF-", application "pdf"),
  (lit "\x05*mbx*", application "mbox"),
  (lit "\x1C-----BEGIN PGP MESSAGE-\x00\x1E---", application "pgp"),
  (lit "\x1E-----BEGIN PGP SIGNATURE-\x00\x03.\"", application "pgp-signature"),
  (lit "\x03.\"", text "troff"),
  (lit "\x04.sd\x00", audio "x-dec-basic"),
  (lit "\x04.snd", audio "basic"),
  (lit "\x09/* XPM */", image "x-xpmi"),
  (lit "\x0507070", application "x-cpio"),
  (lit "\x041\xBE\x00\x00", application "msword"),
  (lit "\x067z\xBC\xAF'\x1C", application "x-7z-compressed"),
  (lit "\x1A8BPS Adobe Photoshop Image", image "vnd.adobe.photoshop"),
  (lit "\x04;ELC", application "x-elc"),
  (lit "\x0E<!DOCTYPE HTML", text "html"),
  (lit "\x0E<?xml version=", application "xml"),
  (lit "\x06<Book ", application "x-mif"),
  (lit "\x09<BookFile", application "x-mif"),
  (lit "\x04<MML", application "x-mif"),
  (lit "\x08<MIFFile", application "x-mif"),
  (lit "\x10<MakerDictionary", application "x-mif"),
  (lit "\x06<Maker", application "x-mif"),
  (lit "\x0C<SCRIBUSUTF8", application "x-scribus"),
  (lit "\x0C<map version", application "x-freemind"),
  (lit "\n@ echo off", text "x-msdos-batch"),
  (lit "\x09@echo off", text "x-msdos-batch"),
  (lit "\x04@rem", text "x-msdos-batch"),
  (lit "\x04@set", text "x-msdos-batch"),
  (lit "\x04ADIF", audio "x-hx-aac-adif"),
  (lit "\x08AT&TFORM", image "vnd.djvu"),
  (lit "\x07Article", message "news"),
  (lit "\x0FBEGIN:VCALENDAR", text "calendar"),
  (lit "\x0BBEGIN:VCARD", text "x-vcard"),
  (lit "\x04BM\x00\x03", image "x-ms-bmp"),
  (lit "\x03BZh", application "x-bzip2"),
  (lit "\x04CPC\xB2", image "x-cpi"),
  (lit "\x03CWS", application "x-shockwave-flash"),
  (lit "\x04DICM", application "dicom"),
  (lit "\x04EIM ", image "x-eim"),
  (lit "\x06FGF95a", image "x-unknown"),
  (lit "\x03FLV", video "x-flv"),
  (lit "\x04FOVb", image "x-x3f"),
  (lit "\x03FWS", application "x-shockwave-flash"),
  (lit "\nForward to", message "rfc822"),
  (lit "\x05From:", message "rfc822"),
  (lit "\x04GIF8", image "gif"),
  (lit "\x06GIF94z", image "x-unknown"),
  (lit "\nHEADER    ", chemical "x-pdb"),
  (lit "\x11HWP Document File", application "x-hwp"),
  (lit "\x0EII\x1A\x00\x00\x00HEAPCCDR", image "x-canon-crw"),
  (lit "\x04II*\x00", image "tiff"),
  (lit "\nII*\x00\x10\x00\x00\x0CR", image "x-canon-cr2"),
  (lit "\x04IIN1", image "x-niff"),
  (lit "\x04IIRO", image "x-olympus-orf"),
  (lit "\x04IIRS", image "x-olympus-orf"),
  (lit "\x04LRZI", application "x-lrzip"),
  (lit "\x04LZIP", application "x-lzip"),
  (lit "\x0EMAS_UTrack_V00", audio "x-mod"),
  (lit "\x04MM\x00*", image "tiff"),
  (lit "\x04MMOR", image "x-olympus-orf"),
  (lit "\x04MOVI", video "x-sgi-movie"),
  (lit "\x04MThd", audio "midi"),
  (lit "\x02MZ", application "x-dosexec"),
  (lit "\x09N#! rnews", message "rfc822"),
  (lit "\x04OTTO", application "vnd.ms-opentype"),
  (lit "\x04OggS", application "ogg"),
  (lit "\x03P4\x00", image "x-portable-bitmap"),
  (lit "\x03P5\x00", image "x-portable-greymap"),
  (lit "\x03P6\x00", image "x-portable-pixmap"),
  (lit "\x03P7\x00", image "x-portable-pixmap"),
  (lit "\x0CP7\n#MTPAINT#", image "x-portable-multimap"),
  (lit "\x03PBF", image "x-unknown"),
  (lit "\x04PDN3", image "x-paintnet"),
  (lit "\x05PFS1\n", image "x-pfs"),
  (lit "\x04PK\x03\x04", application "zip"),
  (lit "\x08PK\x07\x08PK\x03\x04", application "zip"),
  (lit "\x08PK00PK\x03\x04", application "zip"),
  (lit "\x05PO^Q`", application "msword"),
  (lit "\x05Path:", message "news"),
  (lit "\x07Pipe to", message "rfc822"),
  (lit "\x10RF64\xFF\xFF\xFF\xFFWAVEds64", audio "x-wav"),
  (lit "\x04Rar!", application "x-rar"),
  (lit "\x09Received:", message "rfc822"),
  (lit "\x0ERelay-Version:", message "rfc822"),
  (lit "\x0CReturn-Path:", message "rfc822"),
  (lit "\x04SIT!", application "x-stuffit"),
  (lit "\rSplineFontDB:", application "vnd.font-fontforge-sfd"),
  (lit "\x08StuffIt\x00", application "x-stuffit"),
  (lit "\x04WARC", application "warc"),
  (lit "\x04Xcur", image "x-xcursor"),
  (lit "\x05Xref:", message "news"),
  (lit "\x13[KDE Desktop Entry]", application "x-kdelnk"),
  (lit "\x0Bd8:announce", application "x-bittorrent"),
  (lit "\x04drpm", application "x-rpm"),
  (lit "\x04fLaC", audio "x-flac"),
  (lit "\x0Bfiledesc://", application "x-ia-arc"),
  (lit "\x10riff.\x91\xCF\x11\xA5\xD6(\xDB\x04\xC1\x00\x00", audio "x-w64"),
  (lit "\x05\rtf\x00", text "rtf"),
  (lit "\x09\x89LZO\x00\r\n\x1A\n", application "x-lzop"),
  (lit "\x08\x89PNG\r\n\x1A\n", image "png"),
  (lit "\x04\x8AJNG", video "x-jng"),
  (lit "\x04\x8AMNG", video "x-mng"),
  (lit "\x08\x89HDF\r\n\x1A\n", application "x-hdf"),
  (lit "\x04\xCE\xCE\xCE\xCE", application "x-java-jce-keystore"),
  (lit "\x06\xFD7zXZ\x00", application "x-xz"),
  (lit "\x04\xFE7\x00#", application "msword"),
  (lit "\x02\xFF\xD8", image "jpeg"),
  (lit "\x04\xFF\xD8\xFF\xE0", image "jpeg"),
  (lit "\x04\xFF\xD8\xFF\xEE", image "jpeg")]

/-- `g_signatures_list4`. -/
def gSignaturesList4 : List (Bytes × Bytes) := [
  (lit "\r\nVersion:Vivo", video "vivo"),
  (lit "\x07#VRML V", model "vrml"),
  (lit "\x1C-BEGIN PGP PUBLIC KEY BLOCK-", application "pgp-keys"),
  (lit "\x04XPR3", application "x-quark-xpress-3"),
  (lit "\x04XPRa", application "x-quark-xpress-3"),
  (lit "\x04free", video "quicktime"),
  (lit "\x07ftyp3g2", video "3gpp2"),
  (lit "\x07ftyp3ge", video "3gpp"),
  (lit "\x07ftyp3gg", video "3gpp"),
  (lit "\x07ftyp3gp", video "3gpp"),
  (lit "\x07ftyp3gs", video "3gpp"),
  (lit "\x07ftypM4A", audio "mp4"),
  (lit "\x07ftypM4B", video "quicktime"),
  (lit "\x07ftypM4P", video "quicktime"),
  (lit "\x07ftypM4V", video "mp4"),
  (lit "\x08ftypavc1", video "3gpp"),
  (lit "\x08ftypiso2", video "mp4"),
  (lit "\x08ftypisom", video "mp4"),
  (lit "\x07ftypjp2", image "jp2"),
  (lit "\x08ftypmmp4", video "mp4"),
  (lit "\x08ftypmp41", video "mp4"),
  (lit "\x08ftypmp42", video "mp4"),
  (lit "\x08ftypmp7b", video "mp4"),
  (lit "\x08ftypmp7t", video "mp4"),
  (lit "\x06ftypqt", video "quicktime"),
  (lit "\x04idat", video "quicktime"),
  (lit "\x04idsc", video "quicktime"),
  (lit "\x02jP", image "jp2"),
  (lit "\x04mdat", video "quicktime"),
  (lit "\x04pckg", application "x-quicktime-player"),
  (lit "\x04skip", video "quicktime"),
  (lit "\x04wide", video "quicktime")]

/-- The array of pointers, in which signatures and types take turns. -/
def pointers (table : List (Bytes × Bytes)) : List Bytes := table.flatMap fun e => [e.1, e.2]

/-- `LIST_LEN(x)`. -/
def listLen (x : List Bytes) : UInt64 := .ofNat x.length - 2

/-! ## The functions -/

/-- What stands for "no type". -/
def unknown : Bytes := lit "unknown"

/-- `memcmp(s, t, n)`, which reads `n` bytes of each. -/
def memcmp (s t : Bytes) (n : ℕ) : Run Ordering :=
  if n ≤ s.length ∧ n ≤ t.length then .ok (comparePrefix s (t.take n)) else .error .badIndex

/-- `((bot+top)>>1)&~1`. -/
def middle (bot top : UInt64) : UInt64 := ((bot + top) >>> 1) &&& ~~~1

/-- The loop of `s_mime_search`.  Behind the bytes of a literal stands a zero. -/
def mimeSearchLoop (mimes : List Bytes) (len : UInt64) (buf : Bytes) : ℕ → UInt64 → UInt64 → Run Bytes
  | 0, _, _ => .error .diverge
  | fuel + 1, bot, top =>
    let i := middle bot top
    if bot ≤ top ∧ i ≤ len then do
      let mime ← index mimes i.toNat
      let cmp ← memcmp buf ((mime ++ [0]).drop 1) (mime.headD 0).toNat
      match cmp with
      | .eq => do
        let type ← index mimes (i + 1).toNat
        .ok (cStr type)
      | .gt => mimeSearchLoop mimes len buf fuel (i + 2) top
      | .lt => mimeSearchLoop mimes len buf fuel bot (i - 2)
    else .ok unknown

/-- `s_mime_search(mimes, len, buf)`. -/
def mimeSearch (mimes : List Bytes) (len : UInt64) (buf : Bytes) : Run Bytes :=
  mimeSearchLoop mimes len buf (len.toNat + 2) 0 len

/-- What `mime_from_magic` does with its buffer. -/
def magicSearch (buf : Bytes) : Run Bytes := do
  let mimeType ← mimeSearch (pointers gSignaturesList) (listLen (pointers gSignaturesList)) buf
  if mimeType.isEmpty then
    mimeSearch (pointers gSignaturesList4) (listLen (pointers gSignaturesList4)) (buf.drop 4)
  else .ok mimeType

/-- `s_is_text_file`. -/
def isTextFile (file : InFile) : Bool :=
  let (data, _) := file.read 0x4000
  strStartsWith data [0xFE, 0xFF] || strStartsWith data [0xFF, 0xFE] ||
    (data.take 128).all fun c => !(c < 32 && c ≠ 9 && c ≠ 10 && c ≠ 13)

/-- `mime_from_magic`, where the file holds these bytes, if there is one. -/
def mimeFromMagic (content : Option Bytes) : Run Bytes :=
  match content with
  | none => .ok unknown
  | some content =>
    let (data, file) := (InFile.opened content).read 256
    if data.length < 256 ∧ isTextFile (file.seekg 0) then .ok (lit "text/plain")
    else magicSearch (data ++ List.replicate (256 - data.length) 0)

/-- A file that is shorter than the buffer: the stream has failed, so nothing more is read of it, and nothing that is
read speaks against a text. -/
theorem mimeFromMagic_of_short {content : Bytes} (h : content.length < 256) :
    mimeFromMagic (some content) = .ok (lit "text/plain") := by
  have hread : (InFile.opened content).read 256 = (content, ⟨content, content.length, true, true⟩) := by
    have htake : content.take 256 = content := List.take_of_length_le h.le
    simp [InFile.read, InFile.opened, htake, h]
  rw [mimeFromMagic, hread]
  exact if_pos ⟨h, rfl⟩

theorem mimeFromMagic_of_long {content : Bytes} (h : 256 ≤ content.length) :
    mimeFromMagic (some content) = magicSearch (content.take 256) := by
  have hlen : (content.take 256).length = 256 := List.length_take_of_le h
  simp [mimeFromMagic, InFile.read, InFile.opened, hlen]

/-! ## The search -/

/-- The bytes that have to stand at the beginning. -/
def signature (e : Bytes × Bytes) : Bytes := ((e.1 ++ [0]).drop 1).take (e.1.headD 0).toNat

/-- The length is one that a `char` holds, signed or not, and does not go beyond the literal; the type is a C string
with a slash in it. -/
structure WellFormed (e : Bytes × Bytes) : Prop where
  len_le : (e.1.headD 0).toNat ≤ e.1.length
  len_lt : (e.1.headD 0).toNat < 128
  zero : 0 ∉ e.2
  slash : 47 ∈ e.2

theorem gSignaturesList_wellFormed : ∀ e ∈ gSignaturesList, WellFormed e := by
  have hlen : ∀ e ∈ gSignaturesList, (e.1.headD 0).toNat ≤ e.1.length ∧ (e.1.headD 0).toNat < 128 := by decide +kernel
  have htype : ∀ e ∈ gSignaturesList, 0 ∉ e.2 ∧ 47 ∈ e.2 := by decide +kernel
  exact fun e he => ⟨(hlen e he).1, (hlen e he).2, (htype e he).1, (htype e he).2⟩

theorem gSignaturesList4_wellFormed : ∀ e ∈ gSignaturesList4, WellFormed e := by
  have hlen : ∀ e ∈ gSignaturesList4, (e.1.headD 0).toNat ≤ e.1.length ∧ (e.1.headD 0).toNat < 128 := by decide
  have htype : ∀ e ∈ gSignaturesList4, 0 ∉ e.2 ∧ 47 ∈ e.2 := by decide
  exact fun e he => ⟨(hlen e he).1, (hlen e he).2, (htype e he).1, (htype e he).2⟩

theorem WellFormed.ne_unknown {e : Bytes × Bytes} (he : WellFormed e) : e.2 ≠ unknown := by
  have hunknown : 47 ∉ unknown := by decide
  exact fun h => hunknown (h ▸ he.slash)

theorem WellFormed.ne_nil {e : Bytes × Bytes} (he : WellFormed e) : e.2 ≠ [] := List.ne_nil_of_mem he.slash

theorem length_pointers (table : List (Bytes × Bytes)) : (pointers table).length = 2 * table.length := by
  induction table with
  | nil => rfl
  | cons e table ih =>
    rw [pointers, List.flatMap_cons, List.length_append, ← pointers, ih, List.length_cons, List.length_cons,
      List.length_cons, List.length_nil]
    omega

theorem pointers_get {table : List (Bytes × Bytes)} {k : ℕ} {e : Bytes × Bytes} (h : table[k]? = some e) :
    (pointers table)[2 * k]? = some e.1 ∧ (pointers table)[2 * k + 1]? = some e.2 := by
  induction table generalizing k with
  | nil => cases h
  | cons a table ih =>
    cases k with
    | zero =>
      obtain rfl : a = e := by simpa using h
      exact ⟨rfl, rfl⟩
    | succ k => exact ih (by simpa using h)

/-- How the buffer compares with the signature of the entry `k`. -/
def compareAt (table : List (Bytes × Bytes)) (buf : Bytes) (k : ℕ) : Ordering :=
  comparePrefix buf (signature (table.getD k ([], [])))

/-- The type that goes with what the search finds. -/
def typeAt (table : List (Bytes × Bytes)) : Option ℕ → Bytes
  | none => unknown
  | some k => (table.getD k ([], [])).2

/-- `top`, which lies before the end of what is left, and wraps around where nothing is left of the front. -/
def topOf (hi : ℕ) : UInt64 := .ofNat (2 * hi) - 2

/-- `bot`. -/
def botOf (lo : ℕ) : UInt64 := .ofNat (2 * lo)

theorem toNat_botOf {lo : ℕ} (h : lo < 2 ^ 61) : (botOf lo).toNat = 2 * lo := by
  rw [botOf, UInt64.toNat_ofNat']
  omega

theorem toNat_topOf {hi : ℕ} (h : hi < 2 ^ 61) :
    (topOf hi).toNat = if hi = 0 then 2 ^ 64 - 2 else 2 * hi - 2 := by
  rw [topOf, UInt64.toNat_sub, UInt64.toNat_ofNat', UInt64.toNat_ofNat]
  split_ifs with hzero
  · simp [hzero]
  · omega

/-- `& ~1`. -/
theorem toNat_and_not_one (x : UInt64) : (x &&& ~~~1).toNat = 2 * (x.toNat / 2) := by
  have hshift : x.toBitVec &&& ~~~1#64 = (x.toBitVec >>> 1) <<< 1 := by
    ext i hi
    simp only [BitVec.getElem_and, BitVec.getElem_not, BitVec.getElem_shiftLeft, BitVec.getElem_ushiftRight,
      BitVec.getElem_one]
    cases i with
    | zero => simp
    | succ i => simp [BitVec.getLsbD_eq_getElem hi, Nat.add_comm 1 i]
  have hnat := congrArg BitVec.toNat hshift
  rw [BitVec.toNat_shiftLeft, BitVec.toNat_ushiftRight, Nat.shiftLeft_eq, Nat.shiftRight_eq_div_pow] at hnat
  have hlt : x.toBitVec.toNat < 2 ^ 64 := x.toNat_lt
  rw [Nat.mod_eq_of_lt (by omega)] at hnat
  calc (x &&& ~~~1).toNat = x.toBitVec.toNat / 2 ^ 1 * 2 ^ 1 := hnat
    _ = 2 * (x.toNat / 2) := Nat.mul_comm _ _

/-- The middle of what is left; with nothing left in front of the first entry it is far behind every table. -/
theorem toNat_middle {lo hi : ℕ} (hlo : lo < 2 ^ 61) (hhi : hi < 2 ^ 61) :
    (middle (botOf lo) (topOf hi)).toNat = if lo + hi = 0 then 2 ^ 63 - 2 else 2 * ((lo + hi - 1) / 2) := by
  rw [middle, toNat_and_not_one, UInt64.toNat_shiftRight, UInt64.toNat_add, toNat_botOf hlo, toNat_topOf hhi,
    show (1 : UInt64).toNat % 64 = 1 from rfl, Nat.shiftRight_eq_div_pow]
  split_ifs <;> omega

/-- The test of the loop, with the bounds as the loop has them: something is left. -/
theorem loop_test {lo hi n : ℕ} (hle : lo ≤ hi) (hhi : hi ≤ n) (hpos : 0 < n) (hn : n < 2 ^ 61) :
    (botOf lo ≤ topOf hi ∧ middle (botOf lo) (topOf hi) ≤ topOf n) ↔ lo < hi := by
  rw [UInt64.le_iff_toNat_le, UInt64.le_iff_toNat_le, toNat_middle (by omega) (by omega), toNat_botOf (by omega),
    toNat_topOf (by omega), toNat_topOf hn]
  split_ifs <;> omega

theorem bounds_next {lo hi : ℕ} (hlt : lo < hi) (hhi : hi < 2 ^ 61) :
    middle (botOf lo) (topOf hi) + 2 = botOf ((lo + hi - 1) / 2 + 1) ∧
      middle (botOf lo) (topOf hi) - 2 = topOf ((lo + hi - 1) / 2) := by
  have hmiddle : middle (botOf lo) (topOf hi) = botOf ((lo + hi - 1) / 2) := by
    rw [← UInt64.toNat_inj, toNat_middle (by omega) hhi, toNat_botOf (by omega), if_neg (by omega)]
  rw [hmiddle]
  refine ⟨?_, rfl⟩
  rw [← UInt64.toNat_inj, UInt64.toNat_add, toNat_botOf (by omega), toNat_botOf (by omega),
    show (2 : UInt64).toNat = 2 from rfl]
  omega

/-- `memcmp` on an entry: nothing behind the literal or the buffer is read. -/
theorem memcmp_eq {e : Bytes × Bytes} (he : WellFormed e) {buf : Bytes} (hbuf : 128 ≤ buf.length) :
    memcmp buf ((e.1 ++ [0]).drop 1) (e.1.headD 0).toNat = .ok (comparePrefix buf (signature e)) := by
  have hlt := he.len_lt
  refine if_pos ⟨by omega, ?_⟩
  simpa using he.len_le

/-- **The loop is the search**, and comes to its end. -/
theorem mimeSearchLoop_eq {table : List (Bytes × Bytes)} (hgood : ∀ e ∈ table, WellFormed e) {buf : Bytes}
    (hbuf : 128 ≤ buf.length) (hn : table.length < 2 ^ 61) {fuel lo hi : ℕ} (hle : lo ≤ hi) (hhi : hi ≤ table.length)
    (hpos : 0 < table.length) (hfuel : hi - lo ≤ fuel) :
    mimeSearchLoop (pointers table) (topOf table.length) buf (fuel + 1) (botOf lo) (topOf hi) =
      .ok (typeAt table (search (compareAt table buf) fuel lo hi)) := by
  induction fuel generalizing lo hi with
  | zero =>
    rw [mimeSearchLoop, if_neg]
    · rfl
    · rw [loop_test hle hhi hpos hn]
      omega
  | succ fuel ih =>
    rw [mimeSearchLoop, search]
    by_cases hlt : lo < hi
    · rw [if_pos ((loop_test hle hhi hpos hn).mpr hlt), if_pos hlt]
      have hk : (lo + hi - 1) / 2 < table.length := by omega
      obtain ⟨e, he⟩ : ∃ e, table[(lo + hi - 1) / 2]? = some e := ⟨_, List.getElem?_eq_getElem hk⟩
      have hmem : e ∈ table := List.mem_of_getElem? he
      obtain ⟨hsig, htype⟩ := pointers_get he
      obtain ⟨hnext, hprev⟩ := bounds_next hlt (by omega)
      have hi' : (middle (botOf lo) (topOf hi)).toNat = 2 * ((lo + hi - 1) / 2) := by
        rw [toNat_middle (by omega) (by omega), if_neg (by omega)]
      have hi1 : (middle (botOf lo) (topOf hi) + 1).toNat = 2 * ((lo + hi - 1) / 2) + 1 := by
        rw [UInt64.toNat_add, hi', show (1 : UInt64).toNat = 1 from rfl]
        omega
      have hget : table.getD ((lo + hi - 1) / 2) ([], []) = e := by rw [List.getD_eq_getElem?_getD, he]; rfl
      rw [hi', hi1, index_of_get hsig, ok_bind, memcmp_eq (hgood e hmem) hbuf, ok_bind, hnext, hprev, compareAt, hget]
      cases comparePrefix buf (signature e) with
      | eq =>
        simp only [index_of_get htype, ok_bind, typeAt, hget]
        rw [cStr_of_not_mem (hgood e hmem).zero]
      | gt => exact ih (by omega) hhi (by omega)
      | lt => exact ih (by omega) (by omega) (by omega)
    · rw [if_neg (fun h => hlt ((loop_test hle hhi hpos hn).mp h)), if_neg hlt]
      rfl

/-- **`s_mime_search` on a table**: it comes to an end, with the type of what the search finds. -/
theorem mimeSearch_eq {table : List (Bytes × Bytes)} (hgood : ∀ e ∈ table, WellFormed e) {buf : Bytes}
    (hbuf : 128 ≤ buf.length) (hn : table.length < 2 ^ 61) (hpos : 0 < table.length) :
    mimeSearch (pointers table) (listLen (pointers table)) buf =
      .ok (typeAt table (search (compareAt table buf) (2 * table.length - 1) 0 table.length)) := by
  have hlen : listLen (pointers table) = topOf table.length := by rw [listLen, length_pointers, topOf]
  have hfuel : (topOf table.length).toNat + 2 = 2 * table.length - 1 + 1 := by
    rw [toNat_topOf hn, if_neg (by omega)]
    omega
  rw [mimeSearch, hlen, hfuel]
  exact mimeSearchLoop_eq hgood hbuf hn (Nat.zero_le _) le_rfl hpos (by omega)

/-! ## Which signatures are found -/

/-- The signatures of `g_signatures_list` that lie where the search does not come to. -/
def misplaced : List Bytes := [
  lit "#!/usr/bin/perl",
  lit "#!/usr/local/bin/tcl",
  lit "#!/usr/local/bin/wish",
  lit "# KDE Config File",
  lit "# PaCkAgE DaTaStReAm",
  lit "# xmcd",
  lit "<MIFFile",
  lit "riff.\x91\xCF\x11\xA5\xD6(\xDB\x04\xC1\x00\x00",
  lit "\rtf\x00\x00",
  lit "\x8AMNG",
  lit "\x89HDF\r\n\x1A\n"]

/-- The search comes to the entry: it is in its place, and where it is `<Maker`, the buffer is not below the longer
signature in front of it. -/
def InPlace (buf : Bytes) (e : Bytes × Bytes) : Prop :=
  signature e ∉ misplaced ∧ (signature e = lit "<Maker" → comparePrefix buf (lit "<MakerDictionary") ≠ .lt)

/-- What the bytes of a signature say of the comparison with the entry `k`. -/
def knownAt (p : Bytes) (k : ℕ) : Option Ordering := knownPrefix p (signature (gSignaturesList.getD k ([], [])))

/-- The same where in addition the comparison with `<MakerDictionary` is known. -/
def knownBeside (o : Ordering) (p : Bytes) (k : ℕ) : Option Ordering := if k = 52 then some o else knownAt p k

/-- The result of the search in `g_signatures_list`. -/
def found (buf : Bytes) : Option ℕ := search (compareAt gSignaturesList buf) (2 * 141 - 1) 0 141

theorem length_gSignaturesList : gSignaturesList.length = 141 := by decide +kernel

/-- The entry `52`. -/
theorem signature_makerDictionary :
    signature (gSignaturesList.getD 52 ([], [])) = lit "<MakerDictionary" := by decide

/-- Every entry but `<Maker` is found, or the search ends without a result, whatever comes behind it in the buffer. -/
theorem always_entries : ∀ e ∈ gSignaturesList, signature e ≠ lit "<Maker" →
    if signature e ∈ misplaced then always Option.isNone (knownAt (signature e)) (2 * 141 - 1) 0 141 = true
    else always Option.isSome (knownAt (signature e)) (2 * 141 - 1) 0 141 = true := by
  decide +kernel

/-- `<Maker` is found unless the longer signature sends the search away. -/
theorem always_maker : ∀ o, always (fun r => r.isSome = (o != .lt)) (knownBeside o (lit "<Maker")) (2 * 141 - 1) 0 141 =
    true := by
  intro o
  cases o <;> decide

/-- The search asks for the comparisons that are known. -/
theorem compareAt_of_known {buf p : Bytes} (hp : p <+: buf) (k : ℕ) (o : Ordering) (h : knownAt p k = some o) :
    compareAt gSignaturesList buf k = o :=
  comparePrefix_of_known hp h

/-- **An entry whose signature the buffer begins with** makes the search find something exactly if it is in its
place. -/
theorem found_isSome_iff {buf : Bytes} {e : Bytes × Bytes} (he : e ∈ gSignaturesList) (hbuf : signature e <+: buf) :
    (found buf).isSome ↔ InPlace buf e := by
  by_cases hmaker : signature e = lit "<Maker"
  · have hcmp : ∀ k o, knownBeside (comparePrefix buf (lit "<MakerDictionary")) (lit "<Maker") k = some o →
        compareAt gSignaturesList buf k = o := by
      intro k o h
      rw [knownBeside] at h
      split_ifs at h with hk
      · rw [hk, compareAt, signature_makerDictionary]
        exact Option.some.inj h
      · exact compareAt_of_known (hmaker ▸ hbuf) k o h
    have hsome : (found buf).isSome = (comparePrefix buf (lit "<MakerDictionary") != .lt) :=
      of_decide_eq_true (always_sound hcmp (always_maker _))
    have hplace : lit "<Maker" ∉ misplaced := by decide
    rw [hsome, InPlace, hmaker, and_iff_right hplace, imp_iff_right rfl, bne_iff_ne]
  · have hcmp := compareAt_of_known hbuf
    have halways := always_entries e he hmaker
    rw [InPlace, and_iff_left (fun h => absurd h hmaker)]
    split_ifs at halways with hmem
    · have hnone : (found buf).isNone = true := always_sound hcmp halways
      have hnot : (found buf).isSome = false := by rw [← Option.not_isNone, hnone]; rfl
      simp [hmem, hnot]
    · have hsome : (found buf).isSome = true := always_sound hcmp halways
      simp [hmem, hsome]

/-- What is found is an entry whose signature the buffer begins with. -/
theorem found_eq_some {buf : Bytes} {k : ℕ} (h : found buf = some k) :
    ∃ e ∈ gSignaturesList, signature e <+: buf ∧ typeAt gSignaturesList (some k) = e.2 := by
  obtain ⟨heq, -, hk⟩ := search_eq_some h
  obtain ⟨e, he⟩ : ∃ e, gSignaturesList[k]? = some e :=
    ⟨_, List.getElem?_eq_getElem (by rw [length_gSignaturesList]; exact hk)⟩
  have hget : gSignaturesList.getD k ([], []) = e := by rw [List.getD_eq_getElem?_getD, he]; rfl
  rw [compareAt, hget, comparePrefix_eq_iff] at heq
  exact ⟨e, List.mem_of_getElem? he, heq, by rw [typeAt, hget]⟩

/-! ## The search of `mime_from_magic` -/

/-- The signature of the entry matches: one of `g_signatures_list` at the beginning, or one of `g_signatures_list4`
behind four bytes. -/
def Matches (buf : Bytes) (e : Bytes × Bytes) : Prop :=
  (e ∈ gSignaturesList ∧ signature e <+: buf) ∨ (e ∈ gSignaturesList4 ∧ signature e <+: buf.drop 4)

/-- The type is one that a look at every entry of both tables gives. -/
structure Agrees (buf type : Bytes) : Prop where
  of_match : (∃ e, Matches buf e) → ∃ e, Matches buf e ∧ type = e.2
  of_none : (∀ e, ¬ Matches buf e) → type = unknown
  unknown : type = unknown → ∀ e, ¬ Matches buf e

theorem Matches.wellFormed {buf : Bytes} {e : Bytes × Bytes} (h : Matches buf e) : WellFormed e := by
  obtain ⟨he, -⟩ | ⟨he, -⟩ := h
  · exact gSignaturesList_wellFormed e he
  · exact gSignaturesList4_wellFormed e he

/-- The second table is never searched. -/
theorem magicSearch_eq {buf : Bytes} (hbuf : 128 ≤ buf.length) :
    magicSearch buf = .ok (typeAt gSignaturesList (found buf)) := by
  have hsearch := mimeSearch_eq gSignaturesList_wellFormed hbuf (by rw [length_gSignaturesList]; decide)
    (by rw [length_gSignaturesList]; decide)
  rw [length_gSignaturesList, ← found] at hsearch
  have hne : (typeAt gSignaturesList (found buf)).isEmpty = false := by
    cases hfound : found buf with
    | none => decide
    | some k =>
      obtain ⟨e, he, -, htype⟩ := found_eq_some hfound
      rw [htype, List.isEmpty_eq_false_iff]
      exact (gSignaturesList_wellFormed e he).ne_nil
  rw [magicSearch, hsearch, ok_bind, hne]
  rfl

/-- **The search comes to an end for every buffer**, and with the type that a look at every entry gives if and only if
some matching entry of the first table is in its place or no entry of either table matches. -/
theorem magicSearch_agrees_iff (buf : Vector UInt8 256) :
    ∃ type, magicSearch buf.toList = .ok type ∧
      (Agrees buf.toList type ↔
        (∃ e ∈ gSignaturesList, signature e <+: buf.toList ∧ InPlace buf.toList e) ∨ ∀ e, ¬ Matches buf.toList e) := by
  have hlen : 128 ≤ buf.toList.length := by simp
  refine ⟨_, magicSearch_eq hlen, ?_⟩
  cases hfound : found buf.toList with
  | none =>
    have hout : ¬ ∃ e ∈ gSignaturesList, signature e <+: buf.toList ∧ InPlace buf.toList e := by
      rintro ⟨e, he, hbuf, hplace⟩
      have hsome := (found_isSome_iff he hbuf).mpr hplace
      rw [hfound] at hsome
      cases hsome
    rw [or_iff_right hout]
    exact ⟨fun h => h.unknown rfl, fun h => ⟨fun ⟨e, he⟩ => absurd he (h e), fun _ => rfl, fun _ => h⟩⟩
  | some k =>
    obtain ⟨e, he, hbuf, htype⟩ := found_eq_some hfound
    have hplace : InPlace buf.toList e := (found_isSome_iff he hbuf).mp (by rw [hfound]; rfl)
    have hmatch : Matches buf.toList e := .inl ⟨he, hbuf⟩
    refine iff_of_true ⟨fun _ => ⟨e, hmatch, htype⟩, fun h => absurd hmatch (h e), fun h => ?_⟩
      (.inl ⟨e, he, hbuf, hplace⟩)
    exact absurd (htype ▸ h) hmatch.wellFormed.ne_unknown

/-- A buffer that begins like this. -/
def bufferOf (text : Bytes) : Vector UInt8 256 := Vector.ofFn fun i => text.getD i 0

/-- The beginning of a film, which `g_signatures_list4` knows, and a signature that is not in its place: both searches
end with nothing. -/
theorem not_agrees_isom :
    (magicSearch (bufferOf (lit "\x00\x00\x00\x18ftypisom")).toList = .ok unknown ∧
      ¬ Agrees (bufferOf (lit "\x00\x00\x00\x18ftypisom")).toList unknown) ∧
    (magicSearch (bufferOf (lit "# xmcd")).toList = .ok unknown ∧
      ¬ Agrees (bufferOf (lit "# xmcd")).toList unknown) := by
  refine ⟨⟨by decide +kernel, fun h => ?_⟩, by decide +kernel, fun h => ?_⟩
  · exact h.unknown rfl (lit "\x08ftypisom", video "mp4") (.inr ⟨by decide +kernel, by decide +kernel⟩)
  · exact h.unknown rfl (lit "\x06# xmcd", text "x-xmcd") (.inl ⟨by decide +kernel, by decide +kernel⟩)

end Gts3.MimeType
