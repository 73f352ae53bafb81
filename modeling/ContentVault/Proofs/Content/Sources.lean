import ContentVault.Content.Hasher
import ContentVault.Proofs.Content.Remainder
import ContentVault.Proofs.Content.RoundTrip
set_option autoImplicit false

/-!
# Content that is hashed as it is read

A source is read until it ends or fails.  However its bytes are cut into pieces, and wherever reads
are interrupted, the checksum is that of the bytes as a whole, and so are the length and what was
compressed; a source that fails is told as that failure, whatever was to be made of it.  All this
holds as long as the bytes can be counted in 64 bits.
-/

namespace ContentVault

/-! ## Reading -/

namespace ReadResult

/-- The source has ended or failed, and is not asked again. -/
def isFinal : ReadResult → Bool
  | .bytes data => data.isEmpty
  | .interrupted => false
  | .endOfFile => true
  | .failed _ => true

/-- What an answer delivers. -/
def piece? : ReadResult → Option Bytes
  | .bytes data => some data
  | _ => none

/-- The pieces that a source delivers before it ends or fails. -/
def pieces (source : List ReadResult) : List Bytes :=
  (source.takeWhile fun answer => !answer.isFinal).filterMap piece?

/-- The bytes that a source delivers before it ends or fails. -/
def delivered (source : List ReadResult) : Bytes := (pieces source).flatten

/-- Why a source fails, if that is how it ends. -/
def failure? (source : List ReadResult) : Option String :=
  match source.find? isFinal with
  | some (.failed reason) => some reason
  | _ => none

theorem pieces_replicate (count : Nat) {data : Bytes} (hne : data ≠ []) :
    pieces (List.replicate count (.bytes data)) = List.replicate count data := by
  have hgoes : (!isFinal (.bytes data)) = true := by
    rw [isFinal, List.isEmpty_eq_false_iff.mpr hne]
    rfl
  rw [pieces, List.takeWhile_replicate, if_pos hgoes]
  exact List.filterMap_replicate_of_some rfl

/-- A source is drained piece by piece, until one of them is not taken or the source has ended. -/
theorem drain_eq {ε α : Type} (failed : CodecError → ε) (eat : α → Bytes → Except ε α)
    (source : List ReadResult) (a : α) :
    drain failed eat source a = match (pieces source).foldlM eat a with
      | .error e => .error e
      | .ok b => match failure? source with
        | some reason => .error (failed (.io reason))
        | none => .ok b := by
  have hcons : ∀ {data : Bytes}, data ≠ [] → ∀ rest : List ReadResult,
      failure? (.bytes data :: rest) = failure? rest ∧
        pieces (.bytes data :: rest) = data :: pieces rest := by
    intro data hne rest
    have hgoes : isFinal (.bytes data) = false := List.isEmpty_eq_false_iff.mpr hne
    refine ⟨?_, ?_⟩
    · rw [failure?, List.find?_cons_of_neg (by simp [hgoes]), failure?]
    · rw [pieces, List.takeWhile_cons_of_pos (by simp [hgoes])]
      rfl
  fun_induction drain failed eat source a with
  | case1 a => rfl
  | case2 rest a => rfl
  | case3 data rest a hne e heat =>
    rw [(hcons hne rest).2, List.foldlM_cons, heat]
    rfl
  | case4 data rest a hne b heat ih =>
    rw [ih, (hcons hne rest).1, (hcons hne rest).2, List.foldlM_cons, heat]
    rfl
  | case5 rest a ih => exact ih
  | case6 rest a => rfl
  | case7 reason rest a => rfl

section

variable {ε α : Type} {failed : CodecError → ε} {eat : α → Bytes → Except ε α}
  {source : List ReadResult} {a b : α}

theorem drain_of_failure {reason : String} (h : failure? source = some reason)
    (heat : (pieces source).foldlM eat a = .ok b) :
    drain failed eat source a = .error (failed (.io reason)) := by
  rw [drain_eq, heat, h]

theorem drain_of_end (h : failure? source = none)
    (heat : (pieces source).foldlM eat a = .ok b) : drain failed eat source a = .ok b := by
  rw [drain_eq, heat, h]

theorem drain_of_error {e : ε} (heat : (pieces source).foldlM eat a = .error e) :
    drain failed eat source a = .error e := by
  rw [drain_eq, heat]

end

end ReadResult

/-! ## Hashing -/

namespace Hasher

/-- The hasher was fed `data` in all. -/
structure HasRead (hasher : Hasher) (data : Bytes) : Prop where
  register_eq : hasher.register = Crc.update Crc.initial data
  length_eq : hasher.length.toNat = data.length

theorem hasRead_empty : empty.HasRead [] := ⟨rfl, rfl⟩

/-- What a hasher tells that was fed `data` in all. -/
structure Tells (hasher : Hasher) (data : Bytes) : Prop where
  finish_eq : hasher.finish = Crc.checksum data
  length_eq : hasher.length.toNat = data.length
  isEmpty_iff : hasher.isEmpty = true ↔ data = []

namespace HasRead

variable {hasher : Hasher} {data : Bytes}

theorem tells (h : hasher.HasRead data) : hasher.Tells data := by
  refine ⟨congrArg Crc.finish h.register_eq, h.length_eq, ?_⟩
  rw [isEmpty, beq_iff_eq, ← UInt64.toNat_inj, h.length_eq]
  exact List.length_eq_zero_iff

/-- More is hashed as long as all of it can be counted. -/
theorem update (h : hasher.HasRead data) {more : Bytes}
    (hlt : (data ++ more).length < UInt64.size) :
    ∃ fed, hasher.update more = .ok fed ∧ fed.HasRead (data ++ more) := by
  rw [List.length_append] at hlt
  have hmore : (UInt64.ofNat more.length).toNat = more.length :=
    UInt64.toNat_ofNat_of_lt (by omega)
  have hexact : hasher.length.toNat + (UInt64.ofNat more.length).toNat < UInt64.size := by
    rw [h.length_eq, hmore]
    exact hlt
  refine ⟨⟨Crc.update hasher.register more, hasher.length + UInt64.ofNat more.length⟩, ?_, ?_, ?_⟩
  · rw [Hasher.update, checkedAdd_of_lt hexact]
  · rw [h.register_eq, Crc.update_append]
  · change (hasher.length + UInt64.ofNat more.length).toNat = _
    rw [UInt64.toNat_add, Nat.mod_eq_of_lt hexact, h.length_eq, hmore, List.length_append]

/-- More than can be counted is not hashed. -/
theorem update_panics (h : hasher.HasRead data) {more : Bytes} (hmore : more.length < UInt64.size)
    (hle : UInt64.size ≤ (data ++ more).length) : hasher.update more = .error .panicked := by
  have hcount : (UInt64.ofNat more.length).toNat = more.length := UInt64.toNat_ofNat_of_lt hmore
  have hlarge : UInt64.size ≤ hasher.length.toNat + (UInt64.ofNat more.length).toNat := by
    rw [h.length_eq, hcount, ← List.length_append]
    exact hle
  rw [Hasher.update, checkedAdd_of_le hlarge]

theorem foldlM_update (h : hasher.HasRead data) {pieces : List Bytes}
    (hlt : (data ++ pieces.flatten).length < UInt64.size) :
    ∃ fed, pieces.foldlM Hasher.update hasher = .ok fed ∧ fed.HasRead (data ++ pieces.flatten) := by
  induction pieces generalizing hasher data with
  | nil =>
    rw [List.flatten_nil, List.append_nil]
    exact ⟨hasher, rfl, h⟩
  | cons piece pieces ih =>
    rw [List.flatten_cons, ← List.append_assoc] at hlt ⊢
    have hpiece : (data ++ piece).length < UInt64.size := by
      rw [List.length_append] at hlt
      omega
    obtain ⟨next, hnext, hread⟩ := h.update hpiece
    rw [List.foldlM_cons, hnext]
    exact ih hread hlt

theorem foldlM_update_panics (h : hasher.HasRead data) {pieces : List Bytes}
    (hpieces : ∀ piece ∈ pieces, piece.length ≤ ReadResult.maxRead)
    (hle : UInt64.size ≤ (data ++ pieces.flatten).length) :
    pieces.foldlM Hasher.update hasher = .error .panicked := by
  induction pieces generalizing hasher data with
  | nil =>
    have hlt := hasher.length.toNat_lt
    rw [h.length_eq] at hlt
    rw [List.flatten_nil, List.append_nil] at hle
    exact absurd hlt (Nat.not_lt.mpr hle)
  | cons piece pieces ih =>
    obtain ⟨hpiece, hrest⟩ := List.forall_mem_cons.mp hpieces
    rw [List.flatten_cons, ← List.append_assoc] at hle
    rw [List.foldlM_cons]
    by_cases hlt : (data ++ piece).length < UInt64.size
    · obtain ⟨next, hnext, hread⟩ := h.update hlt
      rw [hnext]
      exact ih hread hrest hle
    · have hsmall : piece.length < UInt64.size := hpiece.trans_lt (by decide)
      rw [h.update_panics hsmall (Nat.not_lt.mp hlt)]
      rfl

end HasRead

end Hasher

/-- Hashing and collecting at once is hashing, and collecting. -/
theorem Digest.foldlM_absorb (pieces : List Bytes) (h : Hasher) (collected : List Bytes) :
    pieces.foldlM absorb (h, collected) = match pieces.foldlM Hasher.update h with
      | .error failure => .error failure
      | .ok fed => .ok (fed, pieces.reverse ++ collected) := by
  induction pieces generalizing h collected with
  | nil => rfl
  | cons piece pieces ih =>
    rw [List.foldlM_cons, List.foldlM_cons, absorb]
    cases hfed : h.update piece with
    | error failure => rfl
    | ok fed =>
      change pieces.foldlM absorb (fed, piece :: collected) = _
      rw [ih, List.reverse_cons, List.append_assoc]
      rfl

section

variable {source : List ReadResult}

open ReadResult (delivered failure? pieces maxRead)

/-- What is delivered can be counted, and was fed to a hasher. -/
theorem ReadResult.exists_hasRead (hlt : (delivered source).length < UInt64.size) :
    ∃ hasher, (pieces source).foldlM Hasher.update .empty = .ok hasher ∧
      hasher.HasRead (delivered source) := Hasher.hasRead_empty.foldlM_update hlt

theorem Hasher.ofSource_of_end (hlt : (delivered source).length < UInt64.size)
    (h : failure? source = none) :
    ∃ length : UInt64, ofSource source = .ok (Crc.checksum (delivered source), length) ∧
      length.toNat = (delivered source).length := by
  obtain ⟨hasher, heat, hread⟩ := ReadResult.exists_hasRead hlt
  refine ⟨hasher.length, ?_, hread.length_eq⟩
  rw [ofSource, ReadResult.drain_of_end h heat]
  exact congrArg (fun word => Except.ok (word, hasher.length)) hread.tells.finish_eq

theorem Hasher.ofSource_of_failure (hlt : (delivered source).length < UInt64.size)
    {reason : String} (h : failure? source = some reason) :
    ofSource source = .error (.answered (.io reason)) := by
  obtain ⟨hasher, heat, _⟩ := ReadResult.exists_hasRead hlt
  rw [ofSource, ReadResult.drain_of_failure h heat]

theorem Hasher.ofSource_panics (hpieces : ∀ piece ∈ pieces source, piece.length ≤ maxRead)
    (hle : UInt64.size ≤ (delivered source).length) : ofSource source = .error .panicked := by
  rw [ofSource, ReadResult.drain_of_error (hasRead_empty.foldlM_update_panics hpieces hle)]

theorem Digest.ofSource_of_end (level : Int) (hlt : (delivered source).length < UInt64.size)
    (h : failure? source = none) :
    ∃ digest, ofSource source level = .ok digest ∧
      digest.hash = Crc.checksum (delivered source) ∧
      digest.size.toNat = (delivered source).length ∧
      digest.compressed = Compression.compress (delivered source) level := by
  obtain ⟨hasher, heat, hread⟩ := ReadResult.exists_hasRead hlt
  have habsorb : (pieces source).foldlM absorb (.empty, [])
      = .ok (hasher, (pieces source).reverse ++ []) := by
    rw [foldlM_absorb, heat]
  refine ⟨⟨hasher.finish, hasher.length, Compression.compress (delivered source) level⟩, ?_,
    hread.tells.finish_eq, hread.length_eq, rfl⟩
  rw [ofSource, ReadResult.drain_of_end h habsorb, List.append_nil]
  simp only [List.reverse_reverse]
  rfl

theorem Digest.ofSource_of_failure (level : Int) (hlt : (delivered source).length < UInt64.size)
    {reason : String} (h : failure? source = some reason) :
    ofSource source level = .error (.answered (.io reason)) := by
  obtain ⟨hasher, heat, _⟩ := ReadResult.exists_hasRead hlt
  have habsorb : (pieces source).foldlM absorb (.empty, [])
      = .ok (hasher, (pieces source).reverse ++ []) := by
    rw [foldlM_absorb, heat]
  rw [ofSource, ReadResult.drain_of_failure h habsorb]

theorem Digest.ofSource_panics (level : Int)
    (hpieces : ∀ piece ∈ pieces source, piece.length ≤ maxRead)
    (hle : UInt64.size ≤ (delivered source).length) :
    ofSource source level = .error .panicked := by
  have habsorb : (pieces source).foldlM absorb (.empty, []) = .error .panicked := by
    rw [foldlM_absorb, Hasher.hasRead_empty.foldlM_update_panics hpieces hle]
  rw [ofSource, ReadResult.drain_of_error habsorb]

end

/-! ## All ways to hash -/

open ReadResult (delivered failure? maxRead) in
/-- As long as the bytes that a source delivers can be counted, a failure before its end is told as
that failure by all that read it; and of a source that ends, all tell the checksum of the bytes that
it delivers, and their length, and what was compressed is decompressed to them.  Where it delivers
more in its reads, all panic.  A hasher that is fed pieces tells of them, after each, what they are
joined.  And the checksum is the remainder by the generator, with all bits of the register set at
the start and complemented at the end. -/
theorem hashing_agrees (source : List ReadResult) (stamp : UInt16) (level : Int) :
    ((delivered source).length < UInt64.size →
      (∀ reason, failure? source = some reason →
        Hasher.ofSource source = .error (.answered (.io reason)) ∧
        StoreId.ofSource source stamp = .error (.answered (.io reason)) ∧
        Digest.ofSource source level = .error (.answered (.io reason))) ∧
      (failure? source = none →
        (∃ length : UInt64, Hasher.ofSource source = .ok (Crc.checksum (delivered source), length) ∧
          length.toNat = (delivered source).length) ∧
        StoreId.ofSource source stamp = .ok ⟨Crc.checksum (delivered source), stamp⟩ ∧
        ∃ digest, Digest.ofSource source level = .ok digest ∧
          digest.hash = Crc.checksum (delivered source) ∧
          digest.size.toNat = (delivered source).length ∧
          Compression.decompress digest.compressed = .ok (delivered source))) ∧
    ((∀ piece ∈ ReadResult.pieces source, piece.length ≤ maxRead) →
      UInt64.size ≤ (delivered source).length →
      Hasher.ofSource source = .error .panicked ∧
        StoreId.ofSource source stamp = .error .panicked ∧
        Digest.ofSource source level = .error .panicked) ∧
    (∀ (pieces : List Bytes) (count : Nat),
      (pieces.take count).flatten.length < UInt64.size →
      ∃ hasher, (pieces.take count).foldlM Hasher.update .empty = .ok hasher ∧
        hasher.Tells (pieces.take count).flatten) ∧
    (∀ (data : Bytes) (word : UInt32), Crc.IsCrc32 data word ↔ word = Crc.checksum data) ∧
    Crc.generator = Polynomial.X ^ 32 + Crc.wordPoly 0xEDB88320 := by
  refine ⟨fun hlt => ⟨fun reason h => ?_, fun h => ?_⟩, fun hpieces hle => ?_,
    fun pieces count hlt => ?_, fun _ _ => Crc.isCrc32_iff, Crc.generator_eq⟩
  · have hhasher := Hasher.ofSource_of_failure hlt h
    refine ⟨hhasher, ?_, Digest.ofSource_of_failure level hlt h⟩
    rw [StoreId.ofSource, hhasher]
  · obtain ⟨length, hhasher, hlength⟩ := Hasher.ofSource_of_end hlt h
    obtain ⟨digest, hdigest, hhash, hsize, hcompressed⟩ := Digest.ofSource_of_end level hlt h
    refine ⟨⟨length, hhasher, hlength⟩, ?_, digest, hdigest, hhash, hsize, ?_⟩
    · rw [StoreId.ofSource, hhasher]
    · rw [hcompressed]
      exact Compression.decompress_compress _ level
  · have hhasher := Hasher.ofSource_panics hpieces hle
    refine ⟨hhasher, ?_, Digest.ofSource_panics level hpieces hle⟩
    rw [StoreId.ofSource, hhasher]
  · obtain ⟨hasher, hfed, hread⟩ := Hasher.hasRead_empty.foldlM_update hlt
    exact ⟨hasher, hfed, hread.tells⟩

/-- A source that is interrupted between its pieces, and what it would do after its end is not
asked; one that fails after a piece; and one of 2^64 bytes in full reads. -/
theorem hashing_agrees_past_interruption :
    let source : List ReadResult :=
      [.interrupted, .bytes [1, 2], .interrupted, .bytes [3], .endOfFile, .failed "late"]
    let broken : List ReadResult := [.bytes [1, 2], .failed "upload aborted", .endOfFile]
    let long : List ReadResult := .replicate (2 ^ 48) (.bytes (.replicate 65536 0))
    ReadResult.delivered source = [1, 2, 3] ∧ ReadResult.failure? source = none ∧
      Hasher.ofSource source = .ok (Crc.checksum [1, 2, 3], 3) ∧
      StoreId.ofSource source 7 = .ok ⟨Crc.checksum [1, 2, 3], 7⟩ ∧
      (∃ digest, Digest.ofSource source 3 = .ok digest ∧ digest.size = 3 ∧
        Compression.decompress digest.compressed = .ok [1, 2, 3]) ∧
      (∃ hasher, [[1], [], [2, 3]].foldlM Hasher.update .empty = .ok hasher ∧
        hasher.Tells [1, 2, 3]) ∧
      ReadResult.failure? broken = some "upload aborted" ∧
      Digest.ofSource broken 3 = .error (.answered (.io "upload aborted")) ∧
      Hasher.ofSource long = .error .panicked := by
  intro source broken long
  have hend : ReadResult.failure? source = none := by decide
  have hfailure : ReadResult.failure? broken = some "upload aborted" := by decide
  have hlt : (ReadResult.delivered source).length < UInt64.size := by decide
  have hlt' : (ReadResult.delivered broken).length < UInt64.size := by decide
  have hpieces : ReadResult.pieces long = .replicate (2 ^ 48) (.replicate 65536 0) :=
    ReadResult.pieces_replicate _ (List.cons_ne_nil _ _)
  have hread : ∀ piece ∈ ReadResult.pieces long, piece.length ≤ ReadResult.maxRead := by
    intro piece hpiece
    rw [hpieces] at hpiece
    rw [List.eq_of_mem_replicate hpiece, List.length_replicate]
    exact Nat.le_refl _
  have hle : UInt64.size ≤ (ReadResult.delivered long).length := by
    rw [ReadResult.delivered, hpieces, List.length_flatten, List.map_replicate,
      List.length_replicate, List.sum_replicate]
    decide
  obtain ⟨hcounted, _, hfed, _⟩ := hashing_agrees source 7 3
  obtain ⟨hfailed, _⟩ := (hashing_agrees broken 7 3).1 hlt'
  obtain ⟨⟨length, hhasher, hlength⟩, hid, digest, hdigest, _, hsize, hback⟩ :=
    (hcounted hlt).2 hend
  obtain rfl : length = 3 := UInt64.toNat_inj.mp hlength
  exact ⟨rfl, hend, hhasher, hid, ⟨digest, hdigest, UInt64.toNat_inj.mp hsize, hback⟩,
    hfed [[1], [], [2, 3]] 3 (by decide), hfailure, (hfailed _ hfailure).2.2,
    ((hashing_agrees long 7 3).2.1 hread hle).1⟩

end ContentVault
