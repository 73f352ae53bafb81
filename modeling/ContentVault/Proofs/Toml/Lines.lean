import ContentVault.Proofs.Text.Decimal
import ContentVault.Toml.Reader
set_option autoImplicit false

/-!
# Lines of integers

A document whose lines each give an integer of 64 bits to a key of its own is read as the table of
these integers.
-/

namespace ContentVault.Toml

/-! ## Digits before a line end -/

theorem moreDigits_append {ds : List Char} (hds : ∀ c ∈ ds, c.isDigit = true) (seen : List Char)
    (rest : List Char) :
    moreDigits Char.isDigit seen (ds ++ '\n' :: rest)
      = some (seen.reverse ++ ds, '\n' :: rest) := by
  induction ds generalizing seen with
  | nil =>
    rw [List.append_nil]
    rfl
  | cons c ds ih =>
    have hc : c.isDigit = true := hds c List.mem_cons_self
    have hunderscore : c ≠ '_' := by
      rintro rfl
      cases hc
    rw [List.cons_append, moreDigits]
    · rw [if_pos hc, ih (List.forall_mem_cons.mp hds).2, List.reverse_cons, List.append_assoc,
        List.singleton_append]
    · exact fun _ _ h => absurd h hunderscore
    · exact fun h => absurd h hunderscore

theorem isDigit_of_mem (n : Nat) : ∀ c ∈ Decimal.digits n, c.isDigit = true :=
  fun _ hc => Decimal.isDigit_of_mem_digits hc

/-- A numeral is read as its digits. -/
theorem readWhole_digits (n : Nat) (rest : List Char) :
    readWhole (Decimal.digits n ++ '\n' :: rest) = some (Decimal.digits n, '\n' :: rest) := by
  rcases Nat.eq_zero_or_pos n with rfl | hpos
  · rw [Decimal.digits_zero]
    rfl
  · obtain ⟨c, cs, hdigits, hc⟩ := Decimal.exists_digits_eq_cons hpos
    have hall := isDigit_of_mem n
    rw [hdigits] at hall ⊢
    rw [List.cons_append]
    unfold readWhole
    split
    next heq => exact absurd (List.cons.inj heq).1 hc
    · rw [readDigits, if_pos (hall c List.mem_cons_self),
        moreDigits_append (List.forall_mem_cons.mp hall).2, List.reverse_singleton,
        List.singleton_append]

/-- A numeral that starts with a zero is over after it. -/
theorem eq_of_digits_append_eq {n : Nat} {rest tail : List Char} {c : Char}
    (h : Decimal.digits n ++ '\n' :: rest = '0' :: c :: tail) : c = '\n' := by
  rcases Nat.eq_zero_or_pos n with rfl | hpos
  · rw [Decimal.digits_zero] at h
    exact (List.cons.inj (List.cons.inj h).2).1.symm
  · obtain ⟨d, ds, hdigits, hd⟩ := Decimal.exists_digits_eq_cons hpos
    rw [hdigits] at h
    exact absurd (List.cons.inj h).1 hd

/-! ## Integers -/

/-- The characters of an integer. -/
def integerChars (n : Int) : List Char :=
  (if n < 0 then ['-'] else []) ++ Decimal.digits n.natAbs

theorem takeSign_integer (n : Int) (rest : List Char) :
    takeSign (integerChars n ++ rest) = (decide (n < 0), Decimal.digits n.natAbs ++ rest) := by
  unfold integerChars
  by_cases hn : n < 0
  · simp only [hn, if_true, decide_true]
    rfl
  · obtain ⟨c, cs, hdigits, hc⟩ := Decimal.exists_isDigit_cons n.natAbs
    simp only [hn, if_false, decide_false, List.nil_append, hdigits, List.cons_append]
    unfold takeSign
    split
    next heq =>
      rw [(List.cons.inj heq).1] at hc
      cases hc
    next heq =>
      rw [(List.cons.inj heq).1] at hc
      cases hc
    · rfl

/-- Where a date or a time has its first mark, an integer has a digit or is over. -/
theorem skipMark_of_readFixed {n : Int} {width k : Nat} {rest cs : List Char} (hwidth : 0 < width)
    (h : readFixed width (integerChars n ++ '\n' :: rest) = some (k, cs)) {mark : Char}
    (hmark : mark.isDigit = false) (hline : mark ≠ '\n') : skipMark mark cs = none := by
  unfold readFixed at h
  simp only at h
  split at h
  next hfixed =>
    obtain ⟨-, rfl⟩ := Prod.mk.inj (Option.some.inj h)
    have hall := List.all_eq_true.mp hfixed.2
    obtain ⟨width, rfl⟩ := Nat.exists_eq_add_one_of_ne_zero (Nat.ne_of_gt hwidth)
    by_cases hn : n < 0
    · rw [integerChars, if_pos hn] at hall
      cases hall '-' List.mem_cons_self
    · rw [integerChars, if_neg hn, List.nil_append] at hall ⊢
      have hle : width + 1 ≤ (Decimal.digits n.natAbs).length := by
        by_contra hlt
        obtain ⟨more, hmore⟩ :=
          Nat.exists_eq_add_one_of_ne_zero (show width + 1 - (Decimal.digits n.natAbs).length ≠ 0
            by omega)
        rw [List.take_append, hmore] at hall
        cases hall '\n' (List.mem_append_right _ List.mem_cons_self)
      rw [List.drop_append_of_le_length hle]
      cases hdrop : (Decimal.digits n.natAbs).drop (width + 1) with
      | nil => exact if_neg (Ne.symm hline)
      | cons c tail =>
        refine if_neg fun hc => ?_
        have hmem : c ∈ Decimal.digits n.natAbs :=
          List.mem_of_mem_drop (i := width + 1) (hdrop ▸ List.mem_cons_self)
        rw [← hc, isDigit_of_mem _ c hmem] at hmark
        cases hmark
  · cases h

theorem skipDateTime_integer (n : Int) (rest : List Char) :
    skipDateTime (integerChars n ++ '\n' :: rest) = none := by
  have hdate : skipDate (integerChars n ++ '\n' :: rest) = none := by
    unfold skipDate
    cases hfixed : readFixed 4 (integerChars n ++ '\n' :: rest) with
    | none => rfl
    | some read =>
      have hmark : skipMark '-' read.2 = none :=
        skipMark_of_readFixed (by decide) hfixed rfl (by decide)
      simp only [Option.bind_eq_bind, Option.bind_some, hmark, Option.bind_none]
  have htime : skipTime (integerChars n ++ '\n' :: rest) = none := by
    unfold skipTime skipHourMinute
    cases hfixed : readFixed 2 (integerChars n ++ '\n' :: rest) with
    | none => rfl
    | some read =>
      have hmark : skipMark ':' read.2 = none :=
        skipMark_of_readFixed (by decide) hfixed rfl (by decide)
      simp only [Option.bind_eq_bind, Option.bind_some, hmark, Option.bind_none]
  rw [skipDateTime, hdate, htime]

theorem skipFloat_integer (n : Int) (rest : List Char) :
    skipFloat (integerChars n ++ '\n' :: rest) = none := by
  obtain ⟨c, cs, hdigits, hc⟩ := Decimal.exists_isDigit_cons n.natAbs
  have hwhole := readWhole_digits n.natAbs rest
  have hend : readFloatEnd ('\n' :: rest) = none := rfl
  unfold skipFloat
  simp only [takeSign_integer]
  rw [hdigits] at hwhole ⊢
  rw [List.cons_append] at hwhole ⊢
  split
  next heq =>
    rw [(List.cons.inj heq).1] at hc
    cases hc
  next heq =>
    rw [(List.cons.inj heq).1] at hc
    cases hc
  · rw [hwhole]
    simp only [hend]

theorem readInteger_integer {n : Int} (hlow : -0x8000000000000000 ≤ n)
    (hhigh : n < 0x8000000000000000) (rest : List Char) :
    readInteger (integerChars n ++ '\n' :: rest) = some (n, '\n' :: rest) := by
  have hinteger : integer? (decide (n < 0)) n.natAbs = some n := by
    unfold integer?
    by_cases hn : n < 0
    · simp only [hn, decide_true, if_true]
      rw [if_pos (by omega), show -(n.natAbs : Int) = n by omega]
    · simp only [hn, decide_false, Bool.false_eq_true, if_false]
      rw [if_pos (by omega), show (n.natAbs : Int) = n by omega]
  have hdecimal : readDecimal (integerChars n ++ '\n' :: rest) = some (n, '\n' :: rest) := by
    unfold readDecimal
    simp only [takeSign_integer, readWhole_digits, Decimal.value_digits, hinteger]
    rfl
  have hmark : ∀ c tail, integerChars n ++ '\n' :: rest = '0' :: c :: tail → c = '\n' := by
    intro c tail h
    unfold integerChars at h
    split at h
    · cases h
    · exact eq_of_digits_append_eq h
  unfold readInteger
  split
  next heq => exact absurd (hmark _ _ heq) (by decide)
  next heq => exact absurd (hmark _ _ heq) (by decide)
  next heq => exact absurd (hmark _ _ heq) (by decide)
  · exact hdecimal

theorem exists_integerChars_eq_cons (n : Int) :
    ∃ c cs, integerChars n = c :: cs ∧ Decimal.Leads c := by
  unfold integerChars
  split
  · exact ⟨'-', _, rfl, Or.inl rfl⟩
  · obtain ⟨c, cs, hdigits, hc⟩ := Decimal.exists_isDigit_cons n.natAbs
    exact ⟨c, cs, hdigits, Or.inr hc⟩

theorem readValue_integer {n : Int} (hlow : -0x8000000000000000 ≤ n)
    (hhigh : n < 0x8000000000000000) (levels : Nat) (rest : List Char) :
    readValue levels (integerChars n ++ '\n' :: rest) = some (.integer n, '\n' :: rest) := by
  have hnumeric : readNumeric (integerChars n ++ '\n' :: rest)
      = some (.integer n, '\n' :: rest) := by
    unfold readNumeric
    rw [skipDateTime_integer, skipFloat_integer, readInteger_integer hlow hhigh]
    rfl
  obtain ⟨c, cs, hchars, hc⟩ := exists_integerChars_eq_cons n
  rw [hchars, List.cons_append] at hnumeric ⊢
  have hscalar : readScalar (c :: (cs ++ '\n' :: rest)) = some (.integer n, '\n' :: rest) := by
    unfold readScalar
    split
    next heq => exact absurd (List.cons.inj heq).1 (hc.ne rfl (by decide))
    next heq => exact absurd (List.cons.inj heq).1 (hc.ne rfl (by decide))
    next heq => exact absurd (List.cons.inj heq).1 (hc.ne rfl (by decide))
    next heq => exact absurd (List.cons.inj heq).1 (hc.ne rfl (by decide))
    · exact hnumeric
  unfold readValue
  split
  next heq => exact absurd (List.cons.inj heq).1 (hc.ne rfl (by decide))
  next heq => exact absurd (List.cons.inj heq).1 (hc.ne rfl (by decide))
  next heq => exact absurd (List.cons.inj heq).1 (hc.ne rfl (by decide))
  next heq => exact absurd (List.cons.inj heq).1 (hc.ne rfl (by decide))
  · exact hscalar

/-! ## Keys -/

/-- A key that stands without quotes. -/
structure IsBare (key : String) : Prop where
  ne_empty : key ≠ ""
  bare : ∀ c ∈ key.toList, isKeyChar c = true

theorem IsBare.exists_eq_cons {key : String} (h : IsBare key) :
    ∃ c cs, key.toList = c :: cs ∧ isKeyChar c = true := by
  cases hkey : key.toList with
  | nil => exact absurd (String.toList_eq_nil_iff.mp hkey) h.ne_empty
  | cons c cs => exact ⟨c, cs, rfl, h.bare c (hkey ▸ List.mem_cons_self)⟩

theorem ne_of_isKeyChar {c d : Char} (hc : isKeyChar c = true) (hd : isKeyChar d = false) :
    c ≠ d := by
  rintro rfl
  rw [hd] at hc
  cases hc

theorem skipBlank_cons {c : Char} (h : isBlank c = false) (cs : List Char) :
    skipBlank (c :: cs) = c :: cs := by
  rw [skipBlank, List.dropWhile_cons_of_neg (by rw [h]; exact Bool.false_ne_true)]

theorem skipBlank_key {key : String} (h : IsBare key) (rest : List Char) :
    skipBlank (key.toList ++ rest) = key.toList ++ rest := by
  obtain ⟨c, cs, hkey, hc⟩ := h.exists_eq_cons
  have hblank : isBlank c = false := by
    simp only [isBlank, Bool.or_eq_false_iff, decide_eq_false_iff_not]
    exact ⟨ne_of_isKeyChar hc (by decide), ne_of_isKeyChar hc (by decide)⟩
  rw [hkey, List.cons_append, skipBlank_cons hblank]

theorem skipBlank_integer (n : Int) (rest : List Char) :
    skipBlank (integerChars n ++ rest) = integerChars n ++ rest := by
  obtain ⟨c, cs, hchars, hc⟩ := exists_integerChars_eq_cons n
  have hblank : isBlank c = false := by
    simp only [isBlank, Bool.or_eq_false_iff, decide_eq_false_iff_not]
    exact ⟨hc.ne rfl (by decide), hc.ne rfl (by decide)⟩
  rw [hchars, List.cons_append, skipBlank_cons hblank]

theorem readKeyPart_key {key : String} (h : IsBare key) (rest : List Char) :
    readKeyPart (key.toList ++ ' ' :: rest) = some (key, ' ' :: rest) := by
  have htake : (key.toList ++ ' ' :: rest).takeWhile isKeyChar = key.toList := by
    rw [List.takeWhile_append_of_pos h.bare]
    exact List.append_nil _
  have hdrop : (key.toList ++ ' ' :: rest).dropWhile isKeyChar = ' ' :: rest := by
    rw [List.dropWhile_append_of_pos h.bare]
    rfl
  obtain ⟨c, cs, hkey, hc⟩ := h.exists_eq_cons
  have hname : String.ofList (c :: cs) = key := by rw [← hkey, String.ofList_toList]
  rw [hkey, List.cons_append] at htake hdrop ⊢
  unfold readKeyPart
  split
  next heq => exact absurd (List.cons.inj heq).1 (ne_of_isKeyChar hc (by decide))
  next heq => exact absurd (List.cons.inj heq).1 (ne_of_isKeyChar hc (by decide))
  · rw [htake, hdrop]
    simp only [hname]

theorem readKey_key {key : String} (h : IsBare key) (parts : Nat) (rest : List Char) :
    readKey (parts + 1) (key.toList ++ ' ' :: '=' :: rest) = some (([], key), '=' :: rest) := by
  rw [readKey, skipBlank_key h, readKeyPart_key h]
  rfl

/-! ## Lines -/

/-- The line that gives an integer to a key. -/
def line (e : String × Int) : String := s!"{e.1} = {e.2}\n"

/-- The integer has 64 bits with sign. -/
def IsWord (n : Int) : Prop := -0x8000000000000000 ≤ n ∧ n < 0x8000000000000000

theorem toList_line (e : String × Int) :
    (line e).toList = e.1.toList ++ ' ' :: '=' :: ' ' :: (integerChars e.2 ++ ['\n']) := by
  change (e.1 ++ " = " ++ toString e.2 ++ "\n").toList = _
  rw [String.toList_append, String.toList_append, String.toList_append,
    Decimal.toList_toString_int, List.append_assoc, List.append_assoc]
  rfl

/-- The table in which every key has its integer. -/
def integers (entries : List (String × Int)) : Members :=
  entries.map fun (key, n) => (key, .integer n)

/-- A new key comes after the others. -/
theorem set_eq_append {ms : Members} {key : String} (h : key ∉ ms.map (·.1)) (v : Value) :
    ms.set key v = ms ++ [(key, v)] := by
  induction ms with
  | nil => rfl
  | cons m ms ih =>
    obtain ⟨hne, hrest⟩ := not_or.mp (mt List.mem_cons.mpr h)
    have hkey : (m.1 == key) = false := beq_eq_false_iff_ne.mpr (Ne.symm hne)
    rw [Members.set, hkey, if_neg Bool.false_ne_true, ih hrest, List.cons_append]

theorem get?_eq_none {ms : Members} {key : String} (h : key ∉ ms.map (·.1)) :
    ms.get? key = none := by
  rw [Members.get?, Option.map_eq_none_iff, List.find?_eq_none]
  intro m hm hkey
  exact h (beq_iff_eq.mp hkey ▸ List.mem_map_of_mem hm)

theorem define_integer {entries : List (String × Int)} {key : String}
    (h : key ∉ entries.map (·.1)) (n : Int) :
    Document.define ⟨integers entries, []⟩ [] key (.integer n)
      = some ⟨integers (entries ++ [(key, n)]), []⟩ := by
  have hkeys : key ∉ (integers entries).map (·.1) := by
    rw [integers, List.map_map]
    exact h
  have hset := set_eq_append hkeys (.integer n)
  have hget := get?_eq_none hkeys
  have hdefine : (integers entries).define [] key (.integer n)
      = some (integers (entries ++ [(key, n)])) := by
    change (if ((integers entries).get? key).isSome then none
      else some ((integers entries).set key (.integer n))) = _
    rw [hget, hset, integers, integers, List.map_append]
    rfl
  change ((integers entries).define [] key (.integer n)).map _ = _
  rw [hdefine]
  rfl

theorem readPair_line {e : String × Int} (hkey : IsBare e.1) (hword : IsWord e.2)
    (rest : List Char) :
    readPair (readValue maxLevels) ((line e).toList ++ rest)
      = some ((([], e.1), .integer e.2), '\n' :: rest) := by
  have hchars : (line e).toList ++ rest
      = e.1.toList ++ ' ' :: '=' :: ' ' :: (integerChars e.2 ++ '\n' :: rest) := by
    simp only [toList_line, List.append_assoc, List.cons_append, List.nil_append]
  rw [hchars, readPair, show maxLevels = 78 + 1 from rfl, readKey_key hkey]
  change (readValue _ (skipBlank (integerChars e.2 ++ '\n' :: rest))).map _ = _
  rw [skipBlank_integer, readValue_integer hword.1 hword.2]
  rfl

theorem exists_line_eq_cons {e : String × Int} (hkey : IsBare e.1) :
    ∃ c cs, (line e).toList = c :: cs ∧ isKeyChar c = true := by
  obtain ⟨c, cs, hchars, hc⟩ := hkey.exists_eq_cons
  rw [toList_line, hchars]
  exact ⟨c, _, rfl, hc⟩

/-- The line of a new key is read. -/
theorem readLine_line {entries : List (String × Int)} {e : String × Int} (hkey : IsBare e.1)
    (hword : IsWord e.2) (hnew : e.1 ∉ entries.map (·.1)) (rest : List Char) :
    readLine ⟨integers entries, []⟩ ((line e).toList ++ rest)
      = some (⟨integers (entries ++ [e]), []⟩, rest) := by
  have hpair := readPair_line hkey hword rest
  obtain ⟨c, cs, hline, hc⟩ := exists_line_eq_cons hkey
  rw [hline, List.cons_append] at hpair ⊢
  unfold readLine
  split
  next heq => exact absurd (List.cons.inj heq).1 (ne_of_isKeyChar hc (by decide))
  next heq => exact absurd (List.cons.inj heq).1 (ne_of_isKeyChar hc (by decide))
  next heq => exact absurd (List.cons.inj heq).1 (ne_of_isKeyChar hc (by decide))
  next heq => exact absurd (List.cons.inj heq).1 (ne_of_isKeyChar hc (by decide))
  next heq => exact absurd (List.cons.inj heq).1 (ne_of_isKeyChar hc (by decide))
  · rw [hpair]
    simp only [define_integer hnew]
    rfl

/-! ## Documents -/

theorem readLines_lines (entries : List (String × Int)) {more : List (String × Int)}
    (hkeys : ∀ e ∈ more, IsBare e.1) (hwords : ∀ e ∈ more, IsWord e.2)
    (hnodup : ((entries ++ more).map (·.1)).Nodup) {fuel : Nat} (hfuel : more.length < fuel) :
    readLines fuel ⟨integers entries, []⟩ (more.flatMap fun e => (line e).toList)
      = some ⟨integers (entries ++ more), []⟩ := by
  induction more generalizing entries fuel with
  | nil =>
    obtain ⟨fuel, rfl⟩ := Nat.exists_eq_add_one_of_ne_zero (Nat.ne_zero_of_lt hfuel)
    rw [List.append_nil]
    rfl
  | cons e more ih =>
    obtain ⟨fuel, rfl⟩ := Nat.exists_eq_add_one_of_ne_zero (Nat.ne_zero_of_lt hfuel)
    have hbare : IsBare e.1 := hkeys e List.mem_cons_self
    have hnew : e.1 ∉ entries.map (·.1) := by
      rw [List.map_append, List.nodup_append] at hnodup
      exact fun hmem => hnodup.2.2 e.1 hmem e.1 List.mem_cons_self rfl
    rw [List.append_cons] at hnodup ⊢
    have hrest := ih (entries ++ [e]) (List.forall_mem_cons.mp hkeys).2
      (List.forall_mem_cons.mp hwords).2 hnodup (Nat.lt_of_succ_lt_succ hfuel)
    have hline := readLine_line hbare (hwords e List.mem_cons_self) hnew
      (more.flatMap fun e => (line e).toList)
    have hblank : skipBlank ((line e).toList ++ more.flatMap fun e => (line e).toList)
        = (line e).toList ++ more.flatMap fun e => (line e).toList := by
      rw [toList_line, List.append_assoc, skipBlank_key hbare]
    obtain ⟨c, cs, hchars, _⟩ := exists_line_eq_cons hbare
    rw [hchars, List.cons_append] at hline hblank
    rw [List.flatMap_cons, hchars, List.cons_append, readLines, hblank]
    simp only [hline, hrest]

theorem length_le_lines (entries : List (String × Int)) :
    entries.length ≤ (entries.flatMap fun e => (line e).toList).length := by
  induction entries with
  | nil => exact Nat.le_refl 0
  | cons e entries ih =>
    rw [List.flatMap_cons, List.length_append, toList_line]
    simp only [List.length_append, List.length_cons]
    omega

/-- A document of lines is read as its integers. -/
theorem read_lines {entries : List (String × Int)} (hkeys : ∀ e ∈ entries, IsBare e.1)
    (hwords : ∀ e ∈ entries, IsWord e.2) (hnodup : (entries.map (·.1)).Nodup) :
    read (String.join (entries.map line)) = some (integers entries) := by
  have hchars : (String.join (entries.map line)).toList
      = entries.flatMap fun e => (line e).toList := by
    rw [String.toList_join, List.flatMap_map]
  have hlines := readLines_lines [] hkeys hwords hnodup
    (Nat.lt_succ_of_le (length_le_lines entries))
  have hmark : ∀ rest, (entries.flatMap fun e => (line e).toList) ≠ '\uFEFF' :: rest := by
    intro rest h
    cases entries with
    | nil => cases h
    | cons e entries =>
      obtain ⟨c, cs, hline, hc⟩ := exists_line_eq_cons (hkeys e List.mem_cons_self)
      rw [List.flatMap_cons, hline] at h
      exact ne_of_isKeyChar hc (by decide) (List.cons.inj h).1
  unfold read
  rw [hchars]
  split
  next rest heq => exact absurd heq (hmark rest)
  · exact congrArg (Option.map (·.root)) hlines

end ContentVault.Toml
