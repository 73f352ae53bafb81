import ContentVault.Ident.FileId
import ContentVault.Proofs.Ident.Digits
import Mathlib.Data.Bool.AllAny
set_option autoImplicit false

/-!
# Tokens

A token names its identifier: reading what was written gives the same identifier, provided that the
stamp of a file has a byte at all.  Conversely only texts of digit pairs are read, twelve digits for
a blob and more for a file.  The two cases of a letter apart, an identifier has one token.
-/

namespace ContentVault

/-! ## Texts that are refused -/

namespace Hex

/-- An error is the one that names the fault of the text. -/
theorem error_iff_of_fault {t : String} {fault : Fault} (h : decode t = .error fault)
    {e : IdentError} {other : Prop} :
    IdentError.invalidHex fault.message = e ↔
      (∃ reason, Spoils t reason ∧ e = .invalidHex reason) ∨ IsNumeral t ∧ other := by
  have hno : ¬IsNumeral t := (Spoils.of_decode h).not_isNumeral
  simp only [spoils_iff_of_fault h, exists_eq_left, hno, false_and, or_false, eq_comm]

/-- Nothing spoils a text that is read, and the error is another. -/
theorem error_iff_of_decode {t : String} {bs : Bytes} (h : decode t = .ok bs)
    {e : IdentError} {other : Prop} :
    ((∃ reason, Spoils t reason ∧ e = .invalidHex reason) ∨ IsNumeral t ∧ other) ↔ other := by
  have hnumeral := exists_decode_iff.mp ⟨bs, h⟩
  have hno : ∀ reason, ¬Spoils t reason := fun _ hspoils => hspoils.not_isNumeral hnumeral
  simp only [hno, false_and, exists_false, false_or, hnumeral, true_and]

end Hex

/-! ## Tokens of blobs -/

namespace StoreId

/-- Bytes start with those of the identifier that is read from them. -/
theorem toBytes_ofWords {bs : Bytes} (h : byteLength ≤ bs.length) :
    (ofWords bs).toBytes = bs.take byteLength := by
  -- A word of as many bytes as it has is written as it was read.
  have hword : ∀ part : Bytes, ∀ width, part.length = width →
      Bytes.littleEndian width (Bytes.ofLittleEndian part % (1 <<< (8 * width))) = part := by
    rintro part _ rfl
    rw [Nat.mod_eq_of_lt (Bytes.ofLittleEndian_lt part), Bytes.littleEndian_ofLittleEndian]
  have hhash : (bs.take 4).length = 4 := List.length_take_of_le (Nat.le_trans (by decide) h)
  have hstamp : ((bs.drop 4).take 2).length = 2 := by
    rw [List.length_take, List.length_drop]
    unfold byteLength at h
    omega
  rw [toBytes, ofWords, UInt32.toNat_ofNat', UInt16.toNat_ofNat']
  exact (congrArg₂ _ (hword _ 4 hhash) (hword _ 2 hstamp)).trans List.take_add.symm

theorem ofToken_of_fault {t : String} {fault : Hex.Fault} (h : Hex.decode t = .error fault) :
    ofToken t = .error (.invalidHex fault.message) := by
  rw [ofToken, h]

/-- The bytes of a token must be as many as those of an identifier. -/
theorem ofToken_of_decode {t : String} {bs : Bytes} (h : Hex.decode t = .ok bs) :
    ofToken t = if bs.length = byteLength then .ok (ofWords bs)
      else .error (.invalidLength byteLength bs.length) := by
  rw [ofToken, h]
  by_cases hlength : bs.length = byteLength
  · simp only [ofBytes, hlength, ne_eq, not_true_eq_false, Nat.lt_irrefl, if_false, if_true]
  · simp only [hlength, ne_eq, not_false_eq_true, if_true, if_false]

/-- A token is read if it is read as the bytes of the identifier. -/
theorem ofToken_eq_ok_iff {t : String} {id : StoreId} :
    ofToken t = .ok id ↔ Hex.decode t = .ok id.toBytes := by
  constructor
  · intro h
    cases hdecode : Hex.decode t with
    | error fault =>
      rw [ofToken_of_fault hdecode] at h
      cases h
    | ok bs =>
      rw [ofToken_of_decode hdecode] at h
      split at h
      next hsix =>
        cases h
        rw [toBytes_ofWords (Nat.le_of_eq hsix.symm), ← hsix, List.take_length]
      · cases h
  · intro h
    have hwords := ofWords_toBytes_append id []
    rw [List.append_nil] at hwords
    rw [ofToken_of_decode h, if_pos id.length_toBytes, hwords]

theorem exists_ofToken_iff {t : String} :
    (∃ id, ofToken t = .ok id) ↔ t.length = 12 ∧ ∀ c ∈ t.toList, Hex.IsDigit c := by
  constructor
  · rintro ⟨id, h⟩
    obtain ⟨hdigits, hlength, _⟩ := Hex.digits_of_decode (ofToken_eq_ok_iff.mp h)
    rw [length_toBytes] at hlength
    exact ⟨hlength, hdigits⟩
  · rintro ⟨htwelve, hdigits⟩
    obtain ⟨bs, hdecode⟩ := Hex.exists_decode_iff.mpr ⟨hdigits, by omega⟩
    have hlength := (Hex.digits_of_decode hdecode).2.1
    have hsix : bs.length = byteLength := by
      unfold byteLength
      omega
    exact ⟨ofWords bs, (ofToken_of_decode hdecode).trans (if_pos hsix)⟩

theorem token_eq_of_ofToken {t : String} {id : StoreId} (h : ofToken t = .ok id) :
    id.token = t.toLower :=
  (Hex.digits_of_decode (ofToken_eq_ok_iff.mp h)).2.2

/-- A text of digits is refused for their number. -/
theorem ofToken_eq_error_iff {t : String} {e : IdentError} :
    ofToken t = .error e ↔
      (∃ reason, Hex.Spoils t reason ∧ e = .invalidHex reason) ∨
        Hex.IsNumeral t ∧ t.length ≠ 12 ∧ e = .invalidLength 6 (t.length / 2) := by
  cases hdecode : Hex.decode t with
  | error fault =>
    rw [ofToken_of_fault hdecode, Except.error.injEq, Hex.error_iff_of_fault hdecode]
  | ok bs =>
    have hlength := (Hex.digits_of_decode hdecode).2.1
    have hhalf : t.length / 2 = bs.length := by omega
    rw [ofToken_of_decode hdecode, Hex.error_iff_of_decode hdecode, hhalf]
    unfold byteLength
    by_cases hsix : bs.length = 6
    · rw [if_pos hsix]
      exact ⟨nofun, fun h => absurd (by omega) h.1⟩
    · rw [if_neg hsix, Except.error.injEq]
      exact ⟨fun h => ⟨by omega, h.symm⟩, fun h => h.2.symm⟩

theorem ofToken_token (id : StoreId) : ofToken id.token = .ok id :=
  ofToken_eq_ok_iff.mpr (Hex.decode_encode id.toBytes)

end StoreId

/-! ## Tokens of files -/

namespace FileId

theorem length_toBytes (id : FileId) :
    id.toBytes.length = StoreId.byteLength + id.stamp.length := by
  rw [toBytes, List.length_append, StoreId.length_toBytes]

/-- More bytes than a blob's are those of a file over it. -/
theorem toBytes_of_le {bs : Bytes} (h : StoreId.byteLength ≤ bs.length) :
    toBytes ⟨.ofWords bs, bs.drop StoreId.byteLength⟩ = bs := by
  rw [toBytes, StoreId.toBytes_ofWords h, List.take_append_drop]

theorem ofToken_of_fault {t : String} {fault : Hex.Fault} (h : Hex.decode t = .error fault) :
    ofToken t = .error (.invalidHex fault.message) := by
  rw [ofToken, h]

/-- The bytes of a token must be more than those of a blob. -/
theorem ofToken_of_decode {t : String} {bs : Bytes} (h : Hex.decode t = .ok bs) :
    ofToken t = if bs.length < StoreId.byteLength
        then .error (.invalidLength StoreId.byteLength bs.length)
      else if bs.length = StoreId.byteLength then .error .emptyStamp
      else .ok ⟨.ofWords bs, bs.drop StoreId.byteLength⟩ := by
  rw [ofToken, h]
  by_cases hshort : bs.length < StoreId.byteLength
  · simp only [StoreId.ofBytes, hshort, if_true]
  · simp only [StoreId.ofBytes, hshort, if_false]

/-- A token is read if it is read as the bytes of the identifier, and the stamp is not empty. -/
theorem ofToken_eq_ok_iff {t : String} {id : FileId} :
    ofToken t = .ok id ↔ Hex.decode t = .ok id.toBytes ∧ id.stamp ≠ [] := by
  constructor
  · intro h
    cases hdecode : Hex.decode t with
    | error fault =>
      rw [ofToken_of_fault hdecode] at h
      cases h
    | ok bs =>
      rw [ofToken_of_decode hdecode] at h
      split at h
      · cases h
      next hlong =>
        split at h
        · cases h
        next hmore =>
          cases h
          refine ⟨by rw [toBytes_of_le (Nat.not_lt.mp hlong)], ?_⟩
          rw [← List.length_pos_iff, List.length_drop]
          omega
  · rintro ⟨h, hstamp⟩
    have hpositive : 0 < id.stamp.length := List.length_pos_iff.mpr hstamp
    have hlength := id.length_toBytes
    have hwords : StoreId.ofWords id.toBytes = id.store :=
      id.store.ofWords_toBytes_append id.stamp
    have hdrop : id.toBytes.drop StoreId.byteLength = id.stamp := by
      rw [toBytes, List.drop_left' id.store.length_toBytes]
    rw [ofToken_of_decode h, if_neg (by omega), if_neg (by omega), hwords, hdrop]

theorem exists_ofToken_iff {t : String} :
    (∃ id, ofToken t = .ok id) ↔
      14 ≤ t.length ∧ t.length % 2 = 0 ∧ ∀ c ∈ t.toList, Hex.IsDigit c := by
  constructor
  · rintro ⟨id, h⟩
    obtain ⟨hdecode, hstamp⟩ := ofToken_eq_ok_iff.mp h
    obtain ⟨hdigits, hlength, _⟩ := Hex.digits_of_decode hdecode
    have hpositive : 0 < id.stamp.length := List.length_pos_iff.mpr hstamp
    rw [length_toBytes, StoreId.byteLength] at hlength
    exact ⟨by omega, by omega, hdigits⟩
  · rintro ⟨hlong, heven, hdigits⟩
    obtain ⟨bs, hdecode⟩ := Hex.exists_decode_iff.mpr ⟨hdigits, heven⟩
    have hlength := (Hex.digits_of_decode hdecode).2.1
    have hmore : StoreId.byteLength < bs.length := by
      unfold StoreId.byteLength
      omega
    refine ⟨⟨.ofWords bs, bs.drop StoreId.byteLength⟩, ?_⟩
    rw [ofToken_of_decode hdecode, if_neg (by omega), if_neg (by omega)]

theorem token_eq_of_ofToken {t : String} {id : FileId} (h : ofToken t = .ok id) :
    id.token = t.toLower :=
  (Hex.digits_of_decode (ofToken_eq_ok_iff.mp h).1).2.2

/-- The token of a file starts with that of its blob. -/
theorem token_eq_append (id : FileId) : id.token = id.store.token ++ Hex.encode id.stamp := by
  rw [token, toBytes, StoreId.token, Hex.encode, Hex.encode, Hex.encode, List.flatMap_append,
    String.ofList_append]

/-- A text of digits is refused for their number. -/
theorem ofToken_eq_error_iff {t : String} {e : IdentError} :
    ofToken t = .error e ↔
      (∃ reason, Hex.Spoils t reason ∧ e = .invalidHex reason) ∨
        Hex.IsNumeral t ∧ (t.length < 12 ∧ e = .invalidLength 6 (t.length / 2) ∨
          t.length = 12 ∧ e = .emptyStamp) := by
  cases hdecode : Hex.decode t with
  | error fault =>
    rw [ofToken_of_fault hdecode, Except.error.injEq, Hex.error_iff_of_fault hdecode]
  | ok bs =>
    have hlength := (Hex.digits_of_decode hdecode).2.1
    have hhalf : t.length / 2 = bs.length := by omega
    rw [ofToken_of_decode hdecode, Hex.error_iff_of_decode hdecode, hhalf]
    unfold StoreId.byteLength
    rcases Nat.lt_trichotomy bs.length 6 with hshort | hsix | hmore
    · have htwelve : t.length < 12 ∧ t.length ≠ 12 := by omega
      rw [if_pos hshort, Except.error.injEq]
      simp only [htwelve, true_and, false_and, or_false, eq_comm]
    · have htwelve : ¬t.length < 12 ∧ t.length = 12 := by omega
      rw [if_neg (by omega), if_pos hsix, Except.error.injEq]
      simp only [htwelve, Nat.lt_irrefl, false_and, false_or, true_and, eq_comm]
    · have htwelve : ¬t.length < 12 ∧ t.length ≠ 12 := by omega
      rw [if_neg (by omega), if_neg (by omega)]
      exact ⟨nofun, fun h => by omega⟩

/-- The token of a file with a stamp reads back as its identifier. -/
theorem ofToken_token {id : FileId} (hstamp : id.stamp ≠ []) : ofToken id.token = .ok id :=
  ofToken_eq_ok_iff.mpr ⟨Hex.decode_encode id.toBytes, hstamp⟩

end FileId

/-! ## All tokens -/

/-- A blob's tokens are the texts of twelve digits, a file's those of fourteen or more, an even
number.  The identifier that is read is written as the text in lower case, and a file's token goes
on where that of its blob ends.  A text that is not made of digit pairs is refused for its odd
number of bytes or for the first byte that is no digit, and one that is, for its length.  What was
written is read, unless it is a file's without a stamp. -/
theorem tokens_exact :
    (∀ t : String,
      ((∃ id, StoreId.ofToken t = .ok id) ↔
        t.length = 12 ∧ ∀ c ∈ t.toList, Hex.IsDigit c) ∧
      (∀ id, StoreId.ofToken t = .ok id → id.token = t.toLower) ∧
      ∀ e, StoreId.ofToken t = .error e ↔
        (∃ reason, Hex.Spoils t reason ∧ e = .invalidHex reason) ∨
          Hex.IsNumeral t ∧ t.length ≠ 12 ∧ e = .invalidLength 6 (t.length / 2)) ∧
    (∀ t : String,
      ((∃ id, FileId.ofToken t = .ok id) ↔
        14 ≤ t.length ∧ t.length % 2 = 0 ∧ ∀ c ∈ t.toList, Hex.IsDigit c) ∧
      (∀ id, FileId.ofToken t = .ok id → id.token = t.toLower) ∧
      ∀ e, FileId.ofToken t = .error e ↔
        (∃ reason, Hex.Spoils t reason ∧ e = .invalidHex reason) ∨
          Hex.IsNumeral t ∧ (t.length < 12 ∧ e = .invalidLength 6 (t.length / 2) ∨
            t.length = 12 ∧ e = .emptyStamp)) ∧
    (∀ id : StoreId, StoreId.ofToken id.token = .ok id) ∧
    ∀ id : FileId, id.token = id.store.token ++ Hex.encode id.stamp ∧
      (id.stamp ≠ [] → FileId.ofToken id.token = .ok id) :=
  ⟨fun _ => ⟨StoreId.exists_ofToken_iff, fun _ => StoreId.token_eq_of_ofToken,
      fun _ => StoreId.ofToken_eq_error_iff⟩,
    fun _ => ⟨FileId.exists_ofToken_iff, fun _ => FileId.token_eq_of_ofToken,
      fun _ => FileId.ofToken_eq_error_iff⟩,
    StoreId.ofToken_token,
    fun id => ⟨id.token_eq_append, FileId.ofToken_token⟩⟩

/-- A token in both cases is read and written in lower case; with a letter that takes two bytes,
which are counted, it is refused for the first of them. -/
theorem tokens_exact_of_both_cases :
    let id : FileId := ⟨⟨0xABCD, 1⟩, [0xEF]⟩
    let first := 'Ã'
    id.stamp ≠ [] ∧ FileId.ofToken id.token = .ok id ∧
      (∃ read, FileId.ofToken "CdaB00000100eF" = .ok read) ∧
      (∀ read, FileId.ofToken "CdaB00000100eF" = .ok read → read.token = "cdab00000100ef") ∧
      FileId.ofToken "CdaB00000100" = .error .emptyStamp ∧
      StoreId.ofToken "CdaB00000é0" = .error
        (.invalidHex s!"Invalid character {Text.quoteChar first} at position {9}") := by
  intro id first
  obtain ⟨hstores, hfiles, _, hwritten⟩ := tokens_exact
  have hstamp : id.stamp ≠ [] := by decide
  have hlower : "CdaB00000100eF".toLower = "cdab00000100ef" := by
    rw [← String.toList_inj, Hex.toList_toLower]
    decide
  have hdigits : ∀ c ∈ "CdaB00000100eF".toList, Hex.IsDigit c :=
    List.all_iff_forall_prop.mp (by decide)
  have hblob : Hex.IsNumeral "CdaB00000100" := ⟨List.all_iff_forall_prop.mp (by decide), by decide⟩
  have hfirst : Hex.FirstBad (Bytes.ofText "CdaB00000é0") 9 0xC3 :=
    ⟨by decide, by decide, List.all_iff_forall_prop.mp (by decide)⟩
  have hchar : Hex.charOf 0xC3 = first := by decide
  have hspoils := Hex.Spoils.badDigit (by decide) hfirst
  rw [hchar] at hspoils
  exact ⟨hstamp, (hwritten id).2 hstamp, (hfiles _).1.mpr ⟨by decide, by decide, hdigits⟩,
    fun read h => ((hfiles _).2.1 read h).trans hlower,
    ((hfiles _).2.2 _).mpr (Or.inr ⟨hblob, Or.inr ⟨by decide, rfl⟩⟩),
    ((hstores _).2.2 _).mpr (Or.inl ⟨_, hspoils, rfl⟩)⟩

end ContentVault
