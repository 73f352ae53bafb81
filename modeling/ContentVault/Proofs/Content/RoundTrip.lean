import ContentVault.Content.Compression
import Mathlib.Order.Basic
set_option autoImplicit false

/-!
# What is compressed is decompressed to itself

The encoder writes blocks that are stored or repeat one byte.  The decoder appends each to a window
that has room for it, since a new lap starts whenever there is none for another block.
-/

namespace ContentVault

namespace Zstandard

theorem toArray_take_append_drop (count : Nat) (bs : Bytes) :
    (bs.take count).toArray ++ (bs.drop count).toArray = bs.toArray := by
  rw [List.append_toArray, List.take_append_drop]

/-! ## Windows with room for a block -/

/-- There is room for a block of `margin` bytes. -/
def Window.HasRoom (w : Window) (margin : Nat) : Prop := w.lap.size + margin ≤ w.capacity

theorem Window.HasRoom.turn {w : Window} {margin : Nat} (h : margin ≤ w.capacity) :
    (w.turn margin).HasRoom margin := by
  unfold Window.turn
  split
  next hfull => exact (Nat.zero_add margin).trans_le h
  next hroom => exact Nat.not_lt.mp hroom

/-- The frame is decoded into a buffer that starts anew, block after block. -/
structure Frame.IsStreamed (f : Frame) : Prop where
  wraps : f.wraps = true
  isOnePiece : f.isOnePiece = false
  blockLimit : f.blockLimit = maxBlockSize

namespace Frame.IsStreamed

variable {f : Frame} (hf : f.IsStreamed) {w : Window}

include hf

/-- What is no larger than a block is appended, and there is room for another. -/
theorem append (hw : w.HasRoom maxBlockSize) {bs : Array UInt8} (hsize : bs.size ≤ maxBlockSize) :
    ∃ w', f.append bs w = .ok w' ∧ w'.output = w.output ++ bs ∧ w'.HasRoom maxBlockSize := by
  have hroom : ¬w.room < bs.size := by
    unfold Window.HasRoom at hw
    unfold Window.room
    omega
  refine ⟨(w.push bs).turn maxBlockSize, ?_, ?_, .turn (Nat.le_trans (Nat.le_add_left ..) hw)⟩
  · rw [Frame.append, if_neg hroom, Frame.handOn, if_pos hf.wraps, hf.blockLimit]
  · rw [Window.output_turn, Window.output_push]

/-- Stored bytes are appended, be it in two pieces. -/
theorem appendStored (hw : w.HasRoom maxBlockSize) (piece : Nat) {bs : Bytes}
    (hlength : bs.length ≤ maxBlockSize) :
    ∃ w', appendStored f piece bs w = .ok w' ∧ w'.output = w.output ++ bs.toArray ∧
      w'.HasRoom maxBlockSize := by
  unfold Zstandard.appendStored
  split
  · exact hf.append hw hlength
  · have hfront : (bs.take piece).toArray.size ≤ maxBlockSize :=
      Nat.le_trans (List.length_take_le' ..) hlength
    have hback : (bs.drop piece).toArray.size ≤ maxBlockSize :=
      Nat.le_trans (List.length_drop.trans_le (Nat.sub_le ..)) hlength
    obtain ⟨w', happend, houtput, hw'⟩ := hf.append hw hfront
    obtain ⟨w'', happend', houtput', hw''⟩ := hf.append hw' hback
    refine ⟨w'', ?_, ?_, hw''⟩
    · rw [happend]
      exact happend'
    · rw [houtput', houtput, Array.append_assoc, toArray_take_append_drop]

end Frame.IsStreamed

/-! ## Blocks -/

theorem Input.take_append (front rest : Bytes) (taken : Nat) :
    Input.take front.length ⟨front ++ rest, taken⟩
      = .ok (front, ⟨rest, taken + front.length⟩) := by
  rw [Input.take, takeBytes_append]

namespace BlockHeader

theorem length_toBytes (h : BlockHeader) : h.toBytes.length = 3 := Bytes.length_littleEndian ..

/-- A header whose parts fit into three bytes is read as it was written. -/
theorem read_toBytes (h : BlockHeader) (hkind : h.kind < 4) (hsize : h.size ≤ maxBlockSize)
    (rest : Bytes) (taken : Nat) :
    read ⟨h.toBytes ++ rest, taken⟩ = .ok (h, ⟨rest, taken + 3⟩) := by
  have htake := Input.take_append h.toBytes rest taken
  rw [length_toBytes] at htake
  have hofNat : ofNat (Bytes.ofLittleEndian h.toBytes) = h := by
    obtain ⟨isLast, kind, size⟩ := h
    have hkind : kind < 4 := hkind
    have hsize : size ≤ 131072 := hsize
    have hparts : ∀ bit < 2, ofNat ((bit + 2 * kind + 8 * size) % 16777216)
        = ⟨bit = 1, kind, size⟩ := by
      intro bit hbit
      simp only [ofNat, mk.injEq, decide_eq_decide]
      omega
    rw [toBytes, Bytes.ofLittleEndian_littleEndian]
    cases isLast with
    | false => exact hparts 0 (by decide)
    | true => exact hparts 1 (by decide)
  rw [read, Input.takeNumber, htake]
  exact congrArg (fun h => Except.ok (h, (⟨rest, taken + 3⟩ : Input))) hofNat

end BlockHeader

/-- What repeats one byte is that byte as often as it is long. -/
theorem eq_replicate_of_repeated? {data : Bytes} {b : UInt8} (h : repeated? data = some b) :
    data = List.replicate data.length b := by
  cases data with
  | nil => rfl
  | cons first rest =>
    obtain ⟨hall, hb⟩ := Option.ite_none_right_eq_some.mp h
    cases hb
    refine List.eq_replicate_iff.mpr ⟨rfl, fun b' hb' => ?_⟩
    rcases List.mem_cons.mp hb' with rfl | hrest
    · rfl
    · exact beq_iff_eq.mp (List.all_eq_true.mp hall b' hrest)

/-- A block is written as a header of one of two kinds, and its contents. -/
theorem encodeBlock_cases (level : Int) (isLast : Bool) (data : Bytes) :
    (∃ b, data = List.replicate data.length b ∧
      encodeBlock level isLast data = BlockHeader.toBytes ⟨isLast, 1, data.length⟩ ++ [b]) ∨
    encodeBlock level isLast data = BlockHeader.toBytes ⟨isLast, 0, data.length⟩ ++ data := by
  unfold encodeBlock
  cases hrepeated : if 1 ≤ level then repeated? data else none with
  | none => exact Or.inr rfl
  | some b =>
    exact Or.inl ⟨b, eq_replicate_of_repeated? (Option.ite_none_right_eq_some.mp hrepeated).2, rfl⟩

/-- The bytes are read as one block, and what it holds is appended. -/
def Frame.Appends (f : Frame) (isLast : Bool) (bs data : Bytes) : Prop :=
  ∀ (rest : Bytes) (taken : Nat) (s : FrameState), s.window.HasRoom maxBlockSize →
    ∃ h input s' taken', BlockHeader.read ⟨bs ++ rest, taken⟩ = .ok (h, input) ∧
      decodeBlock f h input s = .ok (s', ⟨rest, taken'⟩) ∧ h.isLast = isLast ∧
      s'.window.output = s.window.output ++ data.toArray ∧ s'.window.HasRoom maxBlockSize

namespace Frame.IsStreamed

variable {f : Frame} (hf : f.IsStreamed)

include hf

theorem fits {h : BlockHeader} (hkind : h.kind < 2) (hsize : h.size ≤ maxBlockSize) :
    (!h.fits f || decide (2 < h.kind)) = false := by
  have hlimit : h.size ≤ f.blockLimit := hf.blockLimit ▸ hsize
  have hnot : ¬2 < h.kind := by omega
  simp only [BlockHeader.fits, hlimit, hnot, decide_true, decide_false, Bool.true_or, Bool.not_true,
    Bool.or_self]

omit hf in
/-- A block that fits is taken, and what it holds is appended. -/
theorem decodeBlock_eq {h : BlockHeader} {input rest : Input} {front : Bytes} {s : FrameState}
    {w : Window} (hfits : (!h.fits f || decide (2 < h.kind)) = false)
    (hfull : (decide (h.contents = 0) && !f.isOnePiece) = false)
    (htake : input.take h.contents = .ok (front, rest)) (hkind : ¬h.kind = 2)
    (happend : (if h.kind = 0 then Zstandard.appendStored f input.piece front s.window
      else f.append (Array.replicate h.size (front.headD 0)) s.window) = .ok w) :
    decodeBlock f h input s = .ok ({ s with window := w }, rest) := by
  simp only [decodeBlock, hfits, hfull, htake, hkind, happend, Bool.false_eq_true, if_false]

theorem appends_repeated (isLast : Bool) (b : UInt8) {count : Nat} (hcount : count ≤ maxBlockSize) :
    f.Appends isLast (BlockHeader.toBytes ⟨isLast, 1, count⟩ ++ [b]) (.replicate count b) := by
  intro rest taken s hroom
  let h : BlockHeader := ⟨isLast, 1, count⟩
  have hread : BlockHeader.read ⟨h.toBytes ++ [b] ++ rest, taken⟩
      = .ok (h, ⟨[b] ++ rest, taken + 3⟩) := by
    rw [List.append_assoc]
    exact h.read_toBytes (show 1 < 4 by decide) hcount ([b] ++ rest) taken
  have htake : Input.take h.contents ⟨[b] ++ rest, taken + 3⟩
      = .ok ([b], ⟨rest, taken + 3 + 1⟩) := Input.take_append [b] rest (taken + 3)
  obtain ⟨w', happend, houtput, hroom'⟩ :=
    hf.append hroom (Array.size_replicate.trans_le hcount : (Array.replicate count b).size ≤ _)
  refine ⟨h, _, { s with window := w' }, taken + 3 + 1, hread, ?_, rfl, ?_, hroom'⟩
  · exact decodeBlock_eq (hf.fits (show 1 < 2 by decide) hcount) rfl htake
      (show ¬1 = 2 by decide) happend
  · rw [houtput, List.toArray_replicate]

theorem appends_stored (isLast : Bool) {data : Bytes} (hlength : data.length ≤ maxBlockSize) :
    f.Appends isLast (BlockHeader.toBytes ⟨isLast, 0, data.length⟩ ++ data) data := by
  intro rest taken s hroom
  let h : BlockHeader := ⟨isLast, 0, data.length⟩
  have hread : BlockHeader.read ⟨h.toBytes ++ data ++ rest, taken⟩
      = .ok (h, ⟨data ++ rest, taken + 3⟩) := by
    rw [List.append_assoc]
    exact h.read_toBytes (show 0 < 4 by decide) hlength (data ++ rest) taken
  by_cases hempty : data = []
  · subst hempty
    refine ⟨h, _, s, taken + 3, hread, ?_, rfl, Array.append_empty.symm, hroom⟩
    rw [decodeBlock, hf.fits (show 0 < 2 by decide) hlength, hf.isOnePiece]
    rfl
  · have htake : Input.take h.contents ⟨data ++ rest, taken + 3⟩
        = .ok (data, ⟨rest, taken + 3 + data.length⟩) := Input.take_append data rest (taken + 3)
    have hcontents : decide (h.contents = 0) = false :=
      decide_eq_false fun hzero => hempty (List.length_eq_zero_iff.mp hzero)
    obtain ⟨w', happend, houtput, hroom'⟩ :=
      hf.appendStored hroom (Input.piece ⟨data ++ rest, taken + 3⟩) hlength
    have hfull : (decide (h.contents = 0) && !f.isOnePiece) = false := by
      rw [hcontents, Bool.false_and]
    exact ⟨h, _, { s with window := w' }, taken + 3 + data.length, hread,
      decodeBlock_eq (hf.fits (show 0 < 2 by decide) hlength) hfull htake (show ¬0 = 2 by decide)
        happend, rfl, houtput, hroom'⟩

theorem appends_encodeBlock (level : Int) (isLast : Bool) {data : Bytes}
    (hlength : data.length ≤ maxBlockSize) :
    f.Appends isLast (encodeBlock level isLast data) data := by
  rcases encodeBlock_cases level isLast data with ⟨b, hdata, hencode⟩ | hencode
  · rw [hencode]
    have happends := hf.appends_repeated isLast b hlength
    rwa [← hdata] at happends
  · rw [hencode]
    exact hf.appends_stored isLast hlength

end Frame.IsStreamed

/-! ## Frames -/

theorem length_encodeBlock_le (level : Int) (isLast : Bool) (data : Bytes) :
    3 ≤ (encodeBlock level isLast data).length ∧
      (encodeBlock level isLast data).length ≤ 4 + data.length := by
  rcases encodeBlock_cases level isLast data with ⟨b, _, hencode⟩ | hencode
  · rw [hencode, List.length_append, BlockHeader.length_toBytes, List.length_singleton]
    omega
  · rw [hencode, List.length_append, BlockHeader.length_toBytes]
    omega

/-- Each block has a header, and is little longer than what it holds. -/
theorem length_encodeBlocks (level : Int) (count : Nat) (data : Bytes) :
    count < (encodeBlocks level count data).length ∧
      (encodeBlocks level count data).length ≤ 4 * (count + 1) + data.length := by
  induction count generalizing data with
  | zero =>
    obtain ⟨hlow, hhigh⟩ := length_encodeBlock_le level true data
    rw [encodeBlocks]
    omega
  | succ count ih =>
    obtain ⟨hlow, hhigh⟩ := length_encodeBlock_le level false (data.take maxBlockSize)
    obtain ⟨hlow', hhigh'⟩ := ih (data.drop maxBlockSize)
    rw [encodeBlocks, List.length_append]
    rw [List.length_drop] at hhigh'
    rw [List.length_take] at hhigh
    omega

/-- Blocks that were written are read up to the last, and their bytes are appended. -/
theorem Frame.IsStreamed.decodeBlocks_encodeBlocks {f : Frame} (hf : f.IsStreamed) (level : Int)
    {count fuel : Nat} (hfuel : count < fuel) {data : Bytes}
    (hlength : data.length ≤ (count + 1) * maxBlockSize) (rest : Bytes) (taken : Nat)
    {s : FrameState} (hroom : s.window.HasRoom maxBlockSize) :
    ∃ s' last taken',
      decodeBlocks f fuel ⟨encodeBlocks level count data ++ rest, taken⟩ s
        = .ok (s', last, ⟨rest, taken'⟩) ∧
      s'.window.output = s.window.output ++ data.toArray := by
  induction count generalizing fuel data taken s with
  | zero =>
    obtain ⟨fuel, rfl⟩ := Nat.exists_eq_add_of_lt hfuel
    have hblock : data.length ≤ maxBlockSize := by omega
    obtain ⟨h, input, s', taken', hread, hdecode, hlast, houtput, _⟩ :=
      hf.appends_encodeBlock level true hblock rest taken s hroom
    refine ⟨s', h, taken', ?_, houtput⟩
    rw [encodeBlocks, decodeBlocks, hread]
    simp only [hdecode, hlast, if_true]
  | succ count ih =>
    obtain ⟨fuel, rfl⟩ := Nat.exists_eq_add_of_lt hfuel
    have hblock : (data.take maxBlockSize).length ≤ maxBlockSize := List.length_take_le ..
    have hdropped : (data.drop maxBlockSize).length ≤ (count + 1) * maxBlockSize := by
      rw [List.length_drop]
      rw [Nat.succ_mul (count + 1)] at hlength
      omega
    obtain ⟨h, input, s', taken', hread, hdecode, hlast, houtput, hroom'⟩ :=
      hf.appends_encodeBlock level false hblock
        (encodeBlocks level count (data.drop maxBlockSize) ++ rest) taken s hroom
    have hleft : count < count + 1 + fuel := by omega
    obtain ⟨s'', last, taken'', hblocks, houtput'⟩ := ih hleft hdropped taken' hroom'
    refine ⟨s'', last, taken'', ?_, ?_⟩
    · rw [encodeBlocks, List.append_assoc, decodeBlocks, hread]
      simp only [hdecode, hlast, Bool.false_eq_true, if_false]
      exact hblocks
    · rw [houtput', houtput, Array.append_assoc, toArray_take_append_drop]

/-- The header of every frame that is written. -/
def writtenHeader : Header := ⟨maxBlockSize, none, false⟩

theorem read_writtenHeader (rest : Bytes) :
    Header.read ⟨[0, 56] ++ rest, 4⟩ = .ok (writtenHeader, ⟨rest, 6⟩) := by
  have hstart : Input.takeNumber 1 ⟨[0, 56] ++ rest, 4⟩ = .ok (0, ⟨[56] ++ rest, 5⟩) := rfl
  have hwindow : Input.take 1 ⟨[56] ++ rest, 5⟩ = .ok ([56], ⟨rest, 6⟩) := rfl
  have hnone : Input.takeNumber 0 ⟨rest, 6⟩ = .ok (0, ⟨rest, 6⟩) := rfl
  have hdictionary : (1 <<< (0 % 4)) / 2 = 0 := rfl
  unfold Header.read
  rw [hstart]
  simp only [bind, Except.bind, hdictionary, Nat.zero_div, Nat.zero_mod, Nat.zero_ne_one,
    if_false, hwindow, hnone, ne_eq, not_true_eq_false]
  rfl

/-- A buffer for output is as large as needed. -/
theorem Buffers.neededOutput_le_fit (b : Buffers) (h : Header) :
    neededOutput h ≤ (b.fit h).output := by
  unfold fit
  dsimp only
  generalize (if wasteFactor * _ ≤ b.input + b.output then b.oversized + 1 else 0) = oversized
  split
  · exact Nat.le_refl _
  next hfits =>
    simp only [Bool.or_eq_true, decide_eq_true_eq, not_or, Nat.not_lt] at hfits
    exact hfits.1.2

/-- There is neither a size nor a checksum to compare. -/
theorem checkFrame_written (wraps : Bool) (last : BlockHeader) (out : Bytes) (input : Input) :
    checkFrame ⟨writtenHeader, false, wraps⟩ last out input = .ok input := by
  simp [checkFrame, writtenHeader]

/-- A frame of blocks that append the data is decoded to the data. -/
theorem decodeFrame_written {blocks data : Bytes}
    (hblocks : ∀ (f : Frame) (s : FrameState), f.IsStreamed → s.window.HasRoom maxBlockSize →
      ∃ s' last taken', decodeBlocks f (blocks.length + 1) ⟨blocks, 6⟩ s
          = .ok (s', last, ⟨[], taken'⟩) ∧
        s'.window.output = s.window.output ++ data.toArray) (b : Buffers) (start : Input) :
    ∃ kept taken, decodeFrame b start ⟨[0, 56] ++ blocks, 4⟩ = .ok (data, kept, ⟨[], taken⟩) := by
  have honePiece : ∀ input, writtenHeader.isOnePiece start input = false := fun _ => rfl
  have hwindow : ¬maxWindow < writtenHeader.window := by decide
  have hneeded : 0 + maxBlockSize ≤ Buffers.neededOutput writtenHeader := by decide
  obtain ⟨s, last, taken, hdecode, houtput⟩ := hblocks
    ⟨writtenHeader, false,
      !false && writtenHeader.contentSize?.all ((b.fit writtenHeader).output < ·)⟩
    (.initial (b.fit writtenHeader).output (b.fit writtenHeader).aside) ⟨rfl, rfl, rfl⟩
    (Nat.le_trans hneeded (b.neededOutput_le_fit writtenHeader))
  have hdata : s.window.output.toList = data := by
    rw [houtput]
    simp [FrameState.initial, Window.output]
  refine ⟨{ b.fit writtenHeader with aside := s.aside }, taken, ?_⟩
  unfold decodeFrame
  rw [read_writtenHeader]
  simp only [bind, Except.bind, honePiece, Bool.false_eq_true, if_false, hwindow, hdecode,
    checkFrame_written, hdata]

/-! ## What is written as a whole -/

/-- A frame that is written starts with the number of such frames. -/
theorem takeNumber_encode (level : Int) (data : Bytes) :
    Input.takeNumber 4 ⟨encode level data, 0⟩
      = .ok (magic,
        ⟨[0, 56] ++ encodeBlocks level ((data.length - 1) / maxBlockSize) data, 4⟩) := by
  have htake := Input.take_append (Bytes.littleEndian 4 magic)
    ([0, 56] ++ encodeBlocks level ((data.length - 1) / maxBlockSize) data) 0
  rw [Bytes.length_littleEndian] at htake
  rw [Input.takeNumber, encode, frameStart, List.append_assoc, htake]
  dsimp only
  rw [Bytes.ofLittleEndian_littleEndian]
  rfl

/-- Data is decoded from what it was encoded to, at every level. -/
theorem decode_encode (level : Int) (data : Bytes) : decode (encode level data) = .ok data := by
  have hfuel := (length_encodeBlocks level ((data.length - 1) / maxBlockSize) data).1
  have hlength : data.length ≤ ((data.length - 1) / maxBlockSize + 1) * maxBlockSize := by
    unfold maxBlockSize
    omega
  obtain ⟨kept, taken, hframe⟩ := decodeFrame_written (fun f s hf hroom => by
    have hdecode := hf.decodeBlocks_encodeBlocks level (Nat.lt_succ_of_lt hfuel) hlength [] 6 hroom
    rw [List.append_nil] at hdecode
    exact hdecode) {} ⟨encode level data, 0⟩
  have hnext : decodeNext {} ⟨encode level data, 0⟩
      = .ok (data, { buffers := kept }, ⟨[], taken⟩) := by
    unfold decodeNext
    rw [takeNumber_encode]
    simp only [bind, Except.bind, if_true, hframe]
  unfold decode decodeFrames
  rw [hnext]
  rfl

/-- What is encoded is not much longer than the data. -/
theorem length_encode_le (level : Int) (data : Bytes) :
    (encode level data).length ≤ data.length + data.length / 16384 + 16 := by
  have hblocks := (length_encodeBlocks level ((data.length - 1) / maxBlockSize) data).2
  rw [encode, List.length_append]
  have hstart : frameStart.length = 6 := rfl
  unfold maxBlockSize at *
  omega

end Zstandard

/-! ## Compressed content -/

namespace Compression

/-- What is compressed at any level is decompressed to itself. -/
theorem decompress_compress (data : Bytes) (level : Int) :
    decompress (compress data level) = .ok data := by
  rw [decompress, compress, Zstandard.decode_encode]

/-- Bytes that cannot be decompressed are corrupt. -/
theorem decompress_error {bs : Bytes} {e : CodecError} (h : decompress bs = .error e) :
    ∃ reason, e = .corruptData reason := by
  rw [decompress] at h
  split at h
  · cases h
    exact ⟨_, rfl⟩
  · cases h

theorem decompressExact_error {bs : Bytes} {expected : Nat} {e : CodecError}
    (h : decompressExact bs expected = .error e) : ∃ reason, e = .corruptData reason := by
  cases hdecompress : decompress bs with
  | error e' =>
    rw [decompressExact, @Codec.decompressExact_of_error codec _ _ hdecompress] at h
    cases h
    exact decompress_error hdecompress
  | ok out =>
    rw [decompressExact, @Codec.decompressExact_of_ok codec _ _ hdecompress] at h
    split at h
    · cases h
    · cases h
      exact ⟨_, rfl⟩

/-- Content of any length that is compressed at any level is decompressed to itself, also if its
length is asked for; for any other length the error names both.  Of bytes of any origin, those that
are decompressed exactly are decompressed and have the length that is asked for, and all others
are corrupt. -/
theorem compression_exact :
    (∀ (data : Bytes) (level : Int), decompress (compress data level) = .ok data ∧
      ∀ expected, decompressExact (compress data level) expected
        = if expected = data.length then .ok data
          else .error (.corruptData
            s!"size mismatch: expected {expected}, got {data.length}")) ∧
    ∀ bs : Bytes, (∀ e, decompress bs = .error e → ∃ reason, e = .corruptData reason) ∧
      ∀ expected,
        (∀ out, decompressExact bs expected = .ok out ↔
          decompress bs = .ok out ∧ out.length = expected) ∧
        ∀ e, decompressExact bs expected = .error e → ∃ reason, e = .corruptData reason :=
  ⟨fun data level => ⟨decompress_compress data level,
      @Codec.decompressExact_of_ok codec _ _ (decompress_compress data level)⟩,
    fun _ => ⟨fun _ => decompress_error, fun _ =>
      ⟨fun _ => @Codec.decompressExact_eq_ok_iff codec _ _ _, fun _ => decompressExact_error⟩⟩⟩

/-- Three bytes are not four, and four that are no frame are corrupt. -/
theorem compression_exact_of_mismatch :
    decompressExact (compress [1, 2, 3] 19) 3 = .ok [1, 2, 3] ∧
      decompressExact (compress [1, 2, 3] 19) 4
        = .error (.corruptData "size mismatch: expected 4, got 3") ∧
      ∃ e, decompress [1, 2, 3, 4] = .error e ∧ ∃ reason, e = .corruptData reason := by
  obtain ⟨hround, hany⟩ := compression_exact
  have hthree := (hround [1, 2, 3] 19).2
  exact ⟨hthree 3, (hthree 4).trans (if_neg (by decide)), _, rfl, (hany [1, 2, 3, 4]).1 _ rfl⟩

/-- A byte string of less than half the address space is compressed faithfully at every level. -/
theorem faithful_of_length_lt {data : Bytes} (h : data.length < UInt64.size / 2) (level : Int) :
    @Faithful codec level data := by
  let _ := codec
  have hcompressed := Zstandard.length_encode_le level data
  refine ⟨decompress_compress data level, Nat.lt_of_lt_of_le h (by decide), ?_⟩
  unfold UInt64.size at *
  exact Nat.lt_of_le_of_lt hcompressed (by omega)

end Compression

end ContentVault
