import ContentVault.Bytes.Hex
import Mathlib.Data.Char
import Mathlib.Data.List.Basic
set_option autoImplicit false

/-!
# Hexadecimal texts

What is written for bytes reads back as the bytes.  Conversely exactly the texts of digit pairs are
read, and what is read is written as the text in lower case.  A text that is not read has an odd
number of bytes, or a first byte that is no digit.
-/

namespace ContentVault

/-- A text of characters is stored as their encodings, one after the other. -/
theorem Bytes.ofText_ofList (cs : List Char) :
    ofText (String.ofList cs) = cs.flatMap String.utf8EncodeChar := by
  rw [ofText, String.toUTF8_eq_toByteArray, String.toByteArray_ofList, List.utf8Encode,
    List.data_toByteArray]

namespace Hex

/-! ## Digits that are written -/

/-- Every digit is one byte, which reads back as its value. -/
theorem value?_digit :
    ∀ n < 16, ∃ b, String.utf8EncodeChar (digit n) = [b] ∧ value? b = some n := by
  intro n hn
  have hall : ∀ n : Fin 16, (String.utf8EncodeChar (digit n)).map value? = [some n.val] := by
    decide
  have hdigit := hall ⟨n, hn⟩
  obtain ⟨b, hb, hvalue⟩ := List.map_eq_singleton_iff.mp hdigit
  exact ⟨b, hb, hvalue⟩

/-- The two digits of a byte are two bytes, which read back as its halves. -/
theorem byteDigits_bytes (b : UInt8) :
    ∃ high low, (byteDigits b).flatMap String.utf8EncodeChar = [high, low] ∧
      value? high = some (b.toNat / 16) ∧ value? low = some (b.toNat % 16) := by
  have hb : b.toNat < 256 := b.toNat_lt
  obtain ⟨high, hhigh, hhighValue⟩ := value?_digit (b.toNat / 16) (by omega)
  obtain ⟨low, hlow, hlowValue⟩ := value?_digit (b.toNat % 16) (by omega)
  refine ⟨high, low, ?_, hhighValue, hlowValue⟩
  simp [byteDigits, hhigh, hlow]

/-- The digits of bytes read back as the bytes. -/
theorem decodePairs_digits (bs : Bytes) (position : Nat) :
    decodePairs position ((bs.flatMap byteDigits).flatMap String.utf8EncodeChar) = .ok bs := by
  induction bs generalizing position with
  | nil => rfl
  | cons b bs ih =>
    obtain ⟨high, low, hdigits, hhigh, hlow⟩ := byteDigits_bytes b
    have hhalves : UInt8.ofNat (16 * (b.toNat / 16) + b.toNat % 16) = b := by
      rw [Nat.div_add_mod, UInt8.ofNat_toNat]
    rw [List.flatMap_cons, List.flatMap_append, hdigits, List.cons_append, List.singleton_append,
      decodePairs, hhigh, hlow, ih]
    simp only [hhalves]

theorem length_digits (bs : Bytes) :
    ((bs.flatMap byteDigits).flatMap String.utf8EncodeChar).length = 2 * bs.length := by
  induction bs with
  | nil => rfl
  | cons b bs ih =>
    obtain ⟨high, low, hdigits, _, _⟩ := byteDigits_bytes b
    rw [List.flatMap_cons, List.flatMap_append, hdigits, List.length_append, ih]
    simp only [List.length_cons, List.length_nil]
    omega

/-- A token reads back as the bytes that it was written from. -/
theorem decode_encode (bs : Bytes) : decode (encode bs) = .ok bs := by
  have heven : ¬ (2 * bs.length) % 2 = 1 := by omega
  rw [decode, encode, Bytes.ofText_ofList, decodeBytes, length_digits, if_neg heven]
  exact decodePairs_digits bs 0

/-! ## Digits of either case -/

/-- A hexadecimal digit of either case. -/
def IsDigit (c : Char) : Prop :=
  ('0' ≤ c ∧ c ≤ '9') ∨ ('a' ≤ c ∧ c ≤ 'f') ∨ ('A' ≤ c ∧ c ≤ 'F')
deriving Decidable

/-- The character that a byte is the code of. -/
def charOf (b : UInt8) : Char := Char.ofNat b.toNat

/-- A byte has a value if it is the code of a digit, and the value is written as that digit, in
lower case. -/
theorem map_digit_value? (b : UInt8) :
    (value? b).map digit = if IsDigit (charOf b) then some (charOf b).toLower else none := by
  have hall : ∀ n : Fin 256, (value? (UInt8.ofFin n)).map digit
      = if IsDigit (charOf (UInt8.ofFin n)) then some (charOf (UInt8.ofFin n)).toLower
        else none := by
    decide +kernel
  exact hall b.toFin

theorem value?_eq_none_iff (b : UInt8) : value? b = none ↔ ¬IsDigit (charOf b) := by
  have hvalue := map_digit_value? b
  split at hvalue
  next hdigit =>
    obtain ⟨v, hv, _⟩ := Option.map_eq_some_iff.mp hvalue
    simp [hv, hdigit]
  next hdigit => simp [Option.map_eq_none_iff.mp hvalue, hdigit]

theorem lt_of_value? {b : UInt8} {v : Nat} (h : value? b = some v) : v < 16 := by
  simp only [value?] at h
  split at h
  · cases h
    omega
  · split at h
    · cases h
      omega
    · split at h
      · cases h
        omega
      · cases h

/-- A digit that is read is written again, in lower case. -/
theorem digit_of_value? {b : UInt8} {v : Nat} (h : value? b = some v) :
    IsDigit (charOf b) ∧ digit v = (charOf b).toLower := by
  have hvalue := map_digit_value? b
  rw [h, Option.map_some] at hvalue
  split at hvalue
  next hdigit => exact ⟨hdigit, Option.some.inj hvalue⟩
  next => cases hvalue

theorem length_flatMap_byteDigits (bs : Bytes) :
    (bs.flatMap byteDigits).length = 2 * bs.length := by
  induction bs with
  | nil => rfl
  | cons b bs ih =>
    rw [List.flatMap_cons, List.length_append, ih, List.length_cons, Nat.mul_succ, Nat.add_comm]
    rfl

/-- Two digits are written for the byte of which they are the halves. -/
theorem byteDigits_ofNat {h l : Nat} (hh : h < 16) (hl : l < 16) :
    byteDigits (UInt8.ofNat (16 * h + l)) = [digit h, digit l] := by
  have hbyte : (UInt8.ofNat (16 * h + l)).toNat = 16 * h + l := by
    rw [UInt8.toNat_ofNat', Nat.mod_eq_of_lt]
    omega
  have hhigh : (16 * h + l) / 16 = h := by omega
  have hlow : (16 * h + l) % 16 = l := by omega
  rw [byteDigits, hbyte, hhigh, hlow]

/-! ## Bytes that are read -/

/-- Pairs that are read consist of digits, and are what is written for the bytes read, but for
their case. -/
theorem digits_of_decodePairs {position : Nat} {bs out : Bytes}
    (h : decodePairs position bs = .ok out) :
    (∀ b ∈ bs, IsDigit (charOf b)) ∧
      bs.map (fun b => (charOf b).toLower) = out.flatMap byteDigits := by
  fun_induction decodePairs position bs generalizing out with
  | case1 =>
    cases h
    exact ⟨fun _ hb => absurd hb List.not_mem_nil, rfl⟩
  | case2 | case3 | case4 | case5 => cases h
  | case6 position high low rest hi hhigh lo hlow bytes _ ih =>
    cases h
    obtain ⟨hdigits, hrest⟩ := ih ‹_›
    obtain ⟨hhighDigit, hhighLower⟩ := digit_of_value? hhigh
    obtain ⟨hlowDigit, hlowLower⟩ := digit_of_value? hlow
    constructor
    · intro b hb
      rcases List.mem_cons.mp hb with rfl | hb
      · exact hhighDigit
      · rcases List.mem_cons.mp hb with rfl | hb
        · exact hlowDigit
        · exact hdigits b hb
    · rw [List.map_cons, List.map_cons, hrest, List.flatMap_cons,
        byteDigits_ofNat (lt_of_value? hhigh) (lt_of_value? hlow), hhighLower, hlowLower]
      rfl

/-- The first byte that is not the code of a digit is `b`, at the place `i`. -/
structure FirstBad (bs : Bytes) (i : Nat) (b : UInt8) : Prop where
  here : bs[i]? = some b
  bad : ¬IsDigit (charOf b)
  before : ∀ d ∈ bs.take i, IsDigit (charOf d)

namespace FirstBad

variable {bs : Bytes} {i j : Nat} {b d : UInt8}

theorem not_all (h : FirstBad bs i b) : ¬∀ d ∈ bs, IsDigit (charOf d) :=
  fun hall => h.bad (hall b (List.mem_of_getElem? h.here))

theorem mem_take (h : FirstBad bs i b) (hlt : i < j) : b ∈ bs.take j :=
  List.mem_of_getElem? ((List.getElem?_take_of_lt hlt).trans h.here)

theorem unique (h : FirstBad bs i b) (h' : FirstBad bs j d) : i = j ∧ b = d := by
  have hplace : i = j := by
    rcases Nat.lt_trichotomy i j with hlt | heq | hgt
    · exact absurd (h'.before b (h.mem_take hlt)) h.bad
    · exact heq
    · exact absurd (h.before d (h'.mem_take hgt)) h'.bad
  subst hplace
  exact ⟨rfl, Option.some.inj (h.here.symm.trans h'.here)⟩

theorem head (h : ¬IsDigit (charOf b)) (bs : Bytes) : FirstBad (b :: bs) 0 b :=
  ⟨rfl, h, fun _ hd => absurd hd List.not_mem_nil⟩

theorem cons (hd : IsDigit (charOf d)) (h : FirstBad bs i b) : FirstBad (d :: bs) (i + 1) b := by
  refine ⟨h.here, h.bad, fun c hc => ?_⟩
  rcases List.mem_cons.mp hc with rfl | hc
  · exact hd
  · exact h.before c hc

end FirstBad

/-- Of an even number of bytes the first that is no digit is reported. -/
theorem firstBad_of_decodePairs {position : Nat} {bs : Bytes} {fault : Fault}
    (heven : bs.length % 2 = 0) (h : decodePairs position bs = .error fault) :
    ∃ i b, FirstBad bs i b ∧ fault = .badDigit b (position + i) := by
  fun_induction decodePairs position bs with
  | case1 => cases h
  | case2 => cases heven
  | case3 position high low rest hhigh =>
    cases h
    exact ⟨0, high, .head ((value?_eq_none_iff high).mp hhigh) _, rfl⟩
  | case4 position high low rest hi hhigh hlow =>
    cases h
    have hdigit := (digit_of_value? hhigh).1
    exact ⟨1, low, .cons hdigit (.head ((value?_eq_none_iff low).mp hlow) _), rfl⟩
  | case5 position high low rest hi hhigh lo hlow fault' hrest ih =>
    cases h
    obtain ⟨i, b, hbad, rfl⟩ := ih (by simp only [List.length_cons] at heven; omega) hrest
    have hbad' := (hbad.cons (digit_of_value? hlow).1).cons (digit_of_value? hhigh).1
    exact ⟨i + 2, b, hbad', by rw [Nat.add_assoc, Nat.add_comm 2 i]⟩
  | case6 => cases h

/-! ## Texts that are read -/

theorem utf8EncodeChar_of_lt {c : Char} (h : c.toNat < 128) :
    String.utf8EncodeChar c = [UInt8.ofNat c.toNat] :=
  if_pos (Nat.le_of_lt_succ h)

/-- A character that is not a single byte ends with a byte of 128 at least. -/
theorem exists_high_of_le {c : Char} (h : 128 ≤ c.toNat) :
    ∃ b ∈ String.utf8EncodeChar c, 128 ≤ b.toNat := by
  have hgt : ¬c.val.toNat ≤ 127 := Nat.not_le.mpr h
  have hlast : 128 ≤ (UInt8.ofNat (c.val.toNat % 64 + 128)).toNat := by
    rw [UInt8.toNat_ofNat']
    omega
  refine ⟨UInt8.ofNat (c.val.toNat % 64 + 128), ?_, hlast⟩
  simp only [String.utf8EncodeChar, hgt, if_false]
  split
  · simp
  · split
    · simp
    · simp

theorem toNat_lt_of_isDigit {c : Char} (h : IsDigit c) : c.toNat < 128 := by
  have hval : c.toNat = c.val.toNat := rfl
  simp only [IsDigit, Char.le_def, UInt32.le_iff_toNat_le] at h
  have hmax : ('9' : Char).val.toNat < 128 ∧ ('f' : Char).val.toNat < 128 ∧
      ('F' : Char).val.toNat < 128 := by decide
  omega

theorem charOf_ofNat {c : Char} (h : c.toNat < 128) : charOf (UInt8.ofNat c.toNat) = c := by
  rw [charOf, UInt8.toNat_ofNat', Nat.mod_eq_of_lt (by omega), Char.ofNat_toNat]

theorem not_isDigit_of_le {b : UInt8} (h : 128 ≤ b.toNat) : ¬IsDigit (charOf b) := by
  intro hdigit
  have hcode : (charOf b).toNat = b.toNat := by
    have hb : b.toNat < 256 := b.toNat_lt
    rw [charOf, Char.ofNat, dif_pos (Or.inl (by omega))]
    rfl
  have hlt := toNat_lt_of_isDigit hdigit
  omega

/-- A text is made of digits if its bytes are the codes of digits. -/
theorem isDigit_of_bytes {t : String} (h : ∀ b ∈ Bytes.ofText t, IsDigit (charOf b)) :
    ∀ c ∈ t.toList, IsDigit c := by
  intro c hc
  have hbytes : ∀ b ∈ String.utf8EncodeChar c, IsDigit (charOf b) := by
    intro b hb
    refine h b ?_
    rw [← String.ofList_toList (s := t), Bytes.ofText_ofList]
    exact List.mem_flatMap.mpr ⟨c, hc, hb⟩
  rcases Nat.lt_or_ge c.toNat 128 with hlow | hhigh
  · have hc' := hbytes (UInt8.ofNat c.toNat) (by rw [utf8EncodeChar_of_lt hlow]; simp)
    rwa [charOf_ofNat hlow] at hc'
  · obtain ⟨b, hb, hhigh⟩ := exists_high_of_le hhigh
    exact absurd (hbytes b hb) (not_isDigit_of_le hhigh)

/-- The bytes of a text of digits are the codes of its characters. -/
theorem map_charOf_ofText {t : String} (h : ∀ c ∈ t.toList, IsDigit c) :
    (Bytes.ofText t).map charOf = t.toList := by
  rw [← String.ofList_toList (s := t), Bytes.ofText_ofList, String.toList_ofList,
    List.map_flatMap]
  calc t.toList.flatMap (fun c => (String.utf8EncodeChar c).map charOf)
      = t.toList.flatMap fun c => [c] := List.flatMap_congr fun c hc => by
        have hlow := toNat_lt_of_isDigit (h c hc)
        rw [utf8EncodeChar_of_lt hlow, List.map_singleton, charOf_ofNat hlow]
    _ = t.toList := by simp

theorem length_ofText {t : String} (h : ∀ c ∈ t.toList, IsDigit c) :
    (Bytes.ofText t).length = t.length := by
  rw [← String.length_toList, ← map_charOf_ofText h, List.length_map]

theorem toList_toLower (t : String) : t.toLower.toList = t.toList.map Char.toLower :=
  String.toList_map

/-- A text that is read consists of digits, two for each byte, and is the token of what is read,
but for its case. -/
theorem digits_of_decode {t : String} {bs : Bytes} (h : decode t = .ok bs) :
    (∀ c ∈ t.toList, IsDigit c) ∧ t.length = 2 * bs.length ∧ encode bs = t.toLower := by
  rw [decode, decodeBytes] at h
  split at h
  · cases h
  · obtain ⟨hdigits, hlower⟩ := digits_of_decodePairs h
    have hchars := isDigit_of_bytes hdigits
    have htext : t.toLower.toList = bs.flatMap byteDigits := by
      rw [toList_toLower, ← map_charOf_ofText hchars, List.map_map, ← hlower]
      rfl
    refine ⟨hchars, ?_, ?_⟩
    · rw [← length_ofText hchars, ← List.length_map fun b => (charOf b).toLower, hlower,
        length_flatMap_byteDigits]
    · rw [encode, ← htext, String.ofList_toList]

/-- A text of an even number of digits. -/
def IsNumeral (t : String) : Prop := (∀ c ∈ t.toList, IsDigit c) ∧ t.length % 2 = 0

/-- How it is said that a text is not the hexadecimal form of bytes: it has an odd number of bytes
or, if not, there is a first byte that is no digit. -/
inductive Spoils (t : String) : String → Prop
  | oddLength : (Bytes.ofText t).length % 2 = 1 → Spoils t "Odd number of digits"
  | badDigit {i : Nat} {b : UInt8} : (Bytes.ofText t).length % 2 = 0 →
      FirstBad (Bytes.ofText t) i b →
      Spoils t s!"Invalid character {Text.quoteChar (charOf b)} at position {i}"

namespace Spoils

variable {t reason : String}

theorem of_decode {fault : Fault} (h : decode t = .error fault) : Spoils t fault.message := by
  rw [decode, decodeBytes] at h
  split at h
  next hodd =>
    cases h
    exact .oddLength hodd
  next hodd =>
    have heven : (Bytes.ofText t).length % 2 = 0 := by omega
    obtain ⟨i, b, hbad, rfl⟩ := firstBad_of_decodePairs heven h
    rw [Nat.zero_add]
    exact .badDigit heven hbad

theorem not_isNumeral (h : Spoils t reason) : ¬IsNumeral t := by
  rintro ⟨hdigits, heven⟩
  rw [← length_ofText hdigits] at heven
  cases h with
  | oddLength hodd => omega
  | badDigit _ hbad =>
    refine hbad.not_all fun b hb => hdigits _ ?_
    rw [← map_charOf_ofText hdigits]
    exact List.mem_map_of_mem hb

/-- One thing is said at most. -/
theorem unique {reason' : String} (h : Spoils t reason) (h' : Spoils t reason') :
    reason = reason' := by
  cases h with
  | oddLength hodd =>
    cases h' with
    | oddLength => rfl
    | badDigit heven => omega
  | badDigit heven hbad =>
    cases h' with
    | oddLength hodd => omega
    | badDigit _ hbad' =>
      obtain ⟨rfl, rfl⟩ := hbad.unique hbad'
      rfl

end Spoils

/-- Exactly the texts of an even number of digits are read. -/
theorem exists_decode_iff {t : String} : (∃ bs, decode t = .ok bs) ↔ IsNumeral t := by
  constructor
  · rintro ⟨bs, h⟩
    obtain ⟨hdigits, hlength, _⟩ := digits_of_decode h
    exact ⟨hdigits, by omega⟩
  · intro h
    cases hdecode : decode t with
    | ok bs => exact ⟨bs, rfl⟩
    | error fault => exact absurd h (Spoils.of_decode hdecode).not_isNumeral

/-- A text that is not read is refused for the one thing that spoils it. -/
theorem spoils_iff_of_fault {t : String} {fault : Fault} (h : decode t = .error fault)
    {reason : String} : Spoils t reason ↔ reason = fault.message := by
  have hspoils := Spoils.of_decode h
  constructor
  · exact fun hreason => hreason.unique hspoils
  · rintro rfl
    exact hspoils

end Hex

end ContentVault
