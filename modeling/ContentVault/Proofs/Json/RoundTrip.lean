import ContentVault.Json.Printer
import ContentVault.Json.Reader
import ContentVault.Proofs.Text.Decimal
set_option autoImplicit false

/-!
# Printed JSON reads back

The compact text of a value reads back as the value, if every string in it was taken in
and every number is a whole one within its range.
-/

namespace ContentVault.Json

/-! ## Strings -/

theorem readString_letter {c d : Char} (hletter : letterEscape? c = some d) (hc : c ≠ 'u')
    (seen : List Char) (whole : Bool) (rest : List Char) :
    readString seen whole ('\\' :: c :: rest) = readString (d :: seen) whole rest := by
  rw [readString]
  · rw [hletter]
  · intro _ _ _ _ _ hu
    exact absurd hu hc

/-- The four digits of a control character are read as its number. -/
theorem hexWord?_hexPadded {n : Nat} (hn : n < 32) :
    ∃ a b c d, Text.hexPadded 4 n = [a, b, c, d] ∧ hexWord? a b c d = some n := by
  have hall : ∀ k : Fin 32,
      Text.hexPadded 4 k.val = ['0', '0', (k.val / 16).digitChar, (k.val % 16).digitChar] ∧
        hexWord? '0' '0' (k.val / 16).digitChar (k.val % 16).digitChar = some k.val := by
    decide
  exact ⟨_, _, _, _, hall ⟨n, hn⟩⟩

theorem readString_control {n : Nat} (hn : n < 32) (seen : List Char) (whole : Bool)
    (rest : List Char) :
    readString seen whole (['\\', 'u'] ++ Text.hexPadded 4 n ++ rest)
      = readString (Char.ofNat n :: seen) whole rest := by
  obtain ⟨a, b, c, d, hpadded, hword⟩ := hexWord?_hexPadded hn
  have hlow : isLowSurrogate n = false := by
    simp only [isLowSurrogate, Bool.and_eq_false_iff, decide_eq_false_iff_not]
    omega
  have hhigh : isHighSurrogate n = false := by
    simp only [isHighSurrogate, Bool.and_eq_false_iff, decide_eq_false_iff_not]
    omega
  simp only [hpadded, List.cons_append, List.nil_append]
  rw [readString]
  simp only [hword, hlow, hhigh, Bool.false_eq_true, if_false]

/-- A character that stands for itself is read as itself. -/
theorem readString_plain {c : Char} (hquote : c ≠ '"') (hslash : c ≠ '\\') (hc : ¬ c.toNat < 32)
    (seen : List Char) (whole : Bool) (rest : List Char) :
    readString seen whole (c :: rest) = readString (c :: seen) whole rest := by
  rw [readString]
  · rw [if_neg (not_or.mpr ⟨hslash, hc⟩)]
  · exact fun h => hquote h
  · exact fun _ _ _ _ _ h => absurd h hslash
  · exact fun _ _ h => absurd h hslash

/-- An escaped character is read as the character. -/
theorem readString_escape (c : Char) (seen : List Char) (whole : Bool) (rest : List Char) :
    readString seen whole (escape c ++ rest) = readString (c :: seen) whole rest := by
  have hnat : ∀ {n : Nat}, c.toNat = n → Char.ofNat n = c := fun h => h ▸ Char.ofNat_toNat c
  unfold escape
  split
  next h => exact readString_letter (by rw [h]; rfl) (by decide) seen whole rest
  next hquote =>
    split
    next h => exact readString_letter (by rw [h]; rfl) (by decide) seen whole rest
    next hslash =>
      split
      next h => exact readString_letter (by rw [← hnat h]; rfl) (by decide) seen whole rest
      split
      next h => exact readString_letter (by rw [← hnat h]; rfl) (by decide) seen whole rest
      split
      next h => exact readString_letter (by rw [← hnat h]; rfl) (by decide) seen whole rest
      split
      next h => exact readString_letter (by rw [← hnat h]; rfl) (by decide) seen whole rest
      split
      next h => exact readString_letter (by rw [← hnat h]; rfl) (by decide) seen whole rest
      split
      next h => rw [readString_control h, Char.ofNat_toNat]
      next h => exact readString_plain hquote hslash h seen whole rest

theorem readString_escapes (cs seen : List Char) (rest : List Char) :
    readString seen true (cs.flatMap escape ++ '"' :: rest)
      = some (some (String.ofList (seen.reverse ++ cs)), rest) := by
  induction cs generalizing seen with
  | nil =>
    rw [List.flatMap_nil, List.nil_append, readString, if_pos rfl, List.append_nil]
  | cons c cs ih =>
    rw [List.flatMap_cons, List.append_assoc, readString_escape, ih, List.reverse_cons,
      List.append_assoc, List.singleton_append]

/-- A string reads back after its opening quote. -/
theorem readString_print (s : String) (rest : List Char) :
    readString [] true ((s.toList.flatMap escape ++ ['"']) ++ rest) = some (some s, rest) := by
  rw [List.append_assoc, List.singleton_append, readString_escapes, List.reverse_nil,
    List.nil_append, String.ofList_toList]

/-! ## Numbers -/

/-- The number is a whole one within the range of its reader. -/
def Number.IsWhole : Number → Prop
  | .natural n => n < UInt64.size
  | .negative n => 0 < n ∧ n ≤ 0x8000000000000000
  | _ => False

/-- What follows a number does not carry it on. -/
def Ends (rest : List Char) : Prop :=
  ∀ c ∈ rest.head?, c.isDigit = false ∧ c ≠ '.' ∧ c ≠ 'e' ∧ c ≠ 'E'

theorem Ends.decimal {rest : List Char} (h : Ends rest) : Decimal.Ends rest :=
  fun c hc => (h c hc).1

theorem readIntegral_digits (n : Nat) {rest : List Char} (h : Ends rest) :
    readIntegral (Decimal.digits n ++ rest) = some (Decimal.digits n, rest) := by
  rcases Nat.eq_zero_or_pos n with rfl | hpos
  · rw [Decimal.digits_zero]
    rfl
  · obtain ⟨c, cs, hdigits, hc⟩ := Decimal.exists_digits_eq_cons hpos
    have hspan := Decimal.span_digits n h.decimal
    rw [hdigits] at hspan ⊢
    unfold readIntegral takeDigits
    rw [List.cons_append] at hspan ⊢
    rw [hspan]
    split
    next heq => exact absurd (List.cons.inj heq).1 hc
    · rfl

theorem readFraction_none {rest : List Char} (h : Ends rest) :
    readFraction rest = some ([], rest) := by
  unfold readFraction
  split
  next cs => exact absurd rfl (h '.' rfl).2.1
  · rfl

theorem readExponent_none {rest : List Char} (h : Ends rest) :
    readExponent rest = some (none, rest) := by
  unfold readExponent
  split
  next c cs => rw [if_neg (not_or.mpr (h c rfl).2.2)]
  · rfl

theorem readUnsigned_digits (minus : Bool) (n : Nat) {rest : List Char} (h : Ends rest) :
    readUnsigned minus (Decimal.digits n ++ rest)
      = some (classify minus (Decimal.digits n) [] none, rest) := by
  unfold readUnsigned
  simp only [readIntegral_digits n h, readFraction_none h, readExponent_none h]

/-- A whole number reads back. -/
theorem readNumber_print {n : Number} (hn : n.IsWhole) {rest : List Char} (h : Ends rest) :
    readNumber (printNumber n ++ rest) = some (n, rest) := by
  cases n with
  | natural n =>
    obtain ⟨c, cs, hdigits, hc⟩ := Decimal.exists_isDigit_cons n
    have hunsigned := readUnsigned_digits false n h
    have hclass : classify false (Decimal.digits n) [] none = .natural n := by
      have hlt : n < UInt64.size := hn
      simp [classify, hlt]
    rw [hclass] at hunsigned
    change readNumber (Decimal.digits n ++ rest) = _
    rw [hdigits, List.cons_append] at hunsigned ⊢
    unfold readNumber
    split
    next heq =>
      rw [(List.cons.inj heq).1] at hc
      cases hc
    · exact hunsigned
  | negative n =>
    have hclass : classify true (Decimal.digits n) [] none = .negative n := by
      have hle : 0 < n ∧ n ≤ 0x8000000000000000 := hn
      simp [classify, hle]
    rw [printNumber, List.cons_append, readNumber, readUnsigned_digits true n h, hclass]
  | fractional spelling => exact hn.elim
  | tooLarge spelling => exact hn.elim

/-! ## Values -/

/-- Every string in the value was taken in, and every number is a whole one within its range. -/
inductive Value.IsExact : Value → Prop
  | null : IsExact .null
  | bool (b : Bool) : IsExact (.bool b)
  | number {n : Number} (h : n.IsWhole) : IsExact (.number n)
  | string (s : String) : IsExact (.string (some s))
  | array {items : List Value} (h : ∀ v ∈ items, v.IsExact) : IsExact (.array items)
  | object {members : List (Option String × Value)} (hkeys : ∀ e ∈ members, e.1.isSome = true)
      (h : ∀ e ∈ members, e.2.IsExact) : IsExact (.object members)

theorem skipBlank_cons {c : Char} (h : isBlank c = false) (cs : List Char) :
    skipBlank (c :: cs) = c :: cs := by
  rw [skipBlank, List.dropWhile_cons_of_neg (by rw [h]; exact Bool.false_ne_true)]

theorem isBlank_of_leads {c : Char} (hc : Decimal.Leads c) : isBlank c = false := by
  simp only [isBlank, Bool.or_eq_false_iff, decide_eq_false_iff_not]
  exact ⟨⟨⟨hc.ne rfl (by decide), hc.ne rfl (by decide)⟩, hc.ne rfl (by decide)⟩,
    hc.ne rfl (by decide)⟩

theorem exists_printNumber_eq_cons {n : Number} (hn : n.IsWhole) :
    ∃ c cs, printNumber n = c :: cs ∧ Decimal.Leads c := by
  cases n with
  | natural n =>
    obtain ⟨c, cs, hdigits, hc⟩ := Decimal.exists_isDigit_cons n
    exact ⟨c, cs, hdigits, Or.inr hc⟩
  | negative n => exact ⟨'-', Decimal.digits n, rfl, Or.inl rfl⟩
  | fractional spelling => exact hn.elim
  | tooLarge spelling => exact hn.elim

theorem readValue_number {c : Char} (hc : Decimal.Leads c) (fuel : Nat) (cs : List Char) :
    readValue (fuel + 1) (c :: cs)
      = (readNumber (c :: cs)).map fun (n, rest) => (.number n, rest) := by
  rw [readValue, skipBlank_cons (isBlank_of_leads hc)]
  split
  next heq => exact absurd (List.cons.inj heq).1 (hc.ne rfl (by decide))
  next heq => exact absurd (List.cons.inj heq).1 (hc.ne rfl (by decide))
  next heq => exact absurd (List.cons.inj heq).1 (hc.ne rfl (by decide))
  next heq => exact absurd (List.cons.inj heq).1 (hc.ne rfl (by decide))
  next heq => exact absurd (List.cons.inj heq).1 (hc.ne rfl (by decide))
  next heq => exact absurd (List.cons.inj heq).1 (hc.ne rfl (by decide))
  · rfl

/-- The printed value reads back in front of anything that does not carry a number on, with fuel
for two steps a character. -/
def Reads (v : Value) : Prop :=
  ∀ fuel rest, 2 * (printValue v).length < fuel → Ends rest →
    readValue fuel (printValue v ++ rest) = some (v, rest)

theorem reads_number {n : Number} (hn : n.IsWhole) : Reads (.number n) := by
  intro fuel rest hfuel hends
  obtain ⟨fuel, rfl⟩ := Nat.exists_eq_add_one_of_ne_zero (Nat.ne_zero_of_lt hfuel)
  have hread := readNumber_print hn hends
  obtain ⟨c, cs, hprint, hc⟩ := exists_printNumber_eq_cons hn
  change readValue (fuel + 1) (printNumber n ++ rest) = _
  rw [hprint, List.cons_append] at hread ⊢
  rw [readValue_number hc, hread]
  rfl

theorem reads_string (s : String) : Reads (.string (some s)) := by
  intro fuel rest hfuel hends
  obtain ⟨fuel, rfl⟩ := Nat.exists_eq_add_one_of_ne_zero (Nat.ne_zero_of_lt hfuel)
  change readValue (fuel + 1) ('"' :: ((s.toList.flatMap escape ++ ['"']) ++ rest)) = _
  rw [readValue, skipBlank_cons rfl]
  simp only [readString_print]
  rfl

theorem reads_bool (b : Bool) : Reads (.bool b) := by
  intro fuel rest hfuel hends
  obtain ⟨fuel, rfl⟩ := Nat.exists_eq_add_one_of_ne_zero (Nat.ne_zero_of_lt hfuel)
  cases b with
  | false => rfl
  | true => rfl

theorem reads_null : Reads .null := by
  intro fuel rest hfuel hends
  obtain ⟨fuel, rfl⟩ := Nat.exists_eq_add_one_of_ne_zero (Nat.ne_zero_of_lt hfuel)
  rfl

/-- The text of a value starts with a character that is neither blank nor a closing bracket. -/
theorem exists_printValue_eq_cons {v : Value} (hv : v.IsExact) :
    ∃ c cs, printValue v = c :: cs ∧ isBlank c = false ∧ c ≠ ']' := by
  cases hv with
  | null => exact ⟨'n', _, rfl, rfl, by decide⟩
  | bool b =>
    cases b with
    | false => exact ⟨'f', _, rfl, rfl, by decide⟩
    | true => exact ⟨'t', _, rfl, rfl, by decide⟩
  | @number n hn =>
    obtain ⟨c, cs, hprint, hc⟩ := exists_printNumber_eq_cons hn
    exact ⟨c, cs, hprint, isBlank_of_leads hc, hc.ne rfl (by decide)⟩
  | string s => exact ⟨'"', _, rfl, rfl, by decide⟩
  | array h => exact ⟨'[', _, rfl, rfl, by decide⟩
  | object hkeys h => exact ⟨'\x7b', _, rfl, rfl, by decide⟩

theorem ends_comma (rest : List Char) : Ends (',' :: rest) := by
  rintro _ ⟨⟩
  decide

theorem ends_bracket (rest : List Char) : Ends (']' :: rest) := by
  rintro _ ⟨⟩
  decide

theorem ends_brace (rest : List Char) : Ends ('\x7d' :: rest) := by
  rintro _ ⟨⟩
  decide

/-- The items of an array read back up to its closing bracket. -/
theorem readItems_print {v : Value} {items : List Value} (h : ∀ w ∈ v :: items, Reads w)
    {fuel : Nat} (hfuel : 2 * (separated (printItems (v :: items))).length + 1 < fuel)
    (seen : List Value) (rest : List Char) :
    readItems fuel (separated (printItems (v :: items)) ++ ']' :: rest) seen
      = some (seen.reverse ++ v :: items, rest) := by
  obtain ⟨fuel, rfl⟩ := Nat.exists_eq_add_one_of_ne_zero (Nat.ne_zero_of_lt hfuel)
  have hv : Reads v := h v List.mem_cons_self
  induction items generalizing v fuel seen with
  | nil =>
    change 2 * (printValue v).length + 1 < fuel + 1 at hfuel
    change readItems (fuel + 1) (printValue v ++ ']' :: rest) seen = _
    rw [readItems, hv fuel _ (by omega) (ends_bracket rest)]
    simp only [skipBlank_cons (show isBlank ']' = false from rfl), List.reverse_cons]
  | cons w items ih =>
    have hlength : (separated (printItems (v :: w :: items))).length
        = (printValue v).length + (separated (printItems (w :: items))).length + 1 := by
      simp [printItems, separated, Nat.add_assoc]
    rw [hlength] at hfuel
    change readItems (fuel + 1)
      ((printValue v ++ ',' :: separated (printItems (w :: items))) ++ ']' :: rest) seen = _
    rw [List.append_assoc, List.cons_append, readItems, hv fuel _ (by omega) (ends_comma _)]
    simp only [skipBlank_cons (show isBlank ',' = false from rfl)]
    obtain ⟨fuel, rfl⟩ := Nat.exists_eq_add_one_of_ne_zero (show fuel ≠ 0 by omega)
    rw [ih (List.forall_mem_cons.mp h).2 (v :: seen) fuel (by omega)
      (h w (List.mem_cons_of_mem v List.mem_cons_self)), List.reverse_cons, List.append_assoc,
      List.singleton_append]

theorem exists_separated_eq_cons {item : List Char} {c : Char} {cs : List Char}
    (h : item = c :: cs) (items : List (List Char)) :
    ∃ tail, separated (item :: items) = c :: tail := by
  subst h
  cases items with
  | nil => exact ⟨cs, rfl⟩
  | cons next items => exact ⟨cs ++ ',' :: separated (next :: items), rfl⟩

theorem reads_array {items : List Value} (hexact : ∀ v ∈ items, v.IsExact)
    (h : ∀ v ∈ items, Reads v) : Reads (.array items) := by
  intro fuel rest hfuel hends
  obtain ⟨fuel, rfl⟩ := Nat.exists_eq_add_one_of_ne_zero (Nat.ne_zero_of_lt hfuel)
  cases items with
  | nil => rfl
  | cons v items =>
    have hlength : (printValue (.array (v :: items))).length
        = (separated (printItems (v :: items))).length + 2 := by
      simp [printValue]
    have hitems := readItems_print h (show _ < fuel by omega) [] rest
    obtain ⟨c, cs, hprint, hblank, hbracket⟩ :=
      exists_printValue_eq_cons (hexact v List.mem_cons_self)
    obtain ⟨tail, hfirst⟩ := exists_separated_eq_cons hprint (printItems items)
    rw [printItems, hfirst] at hitems
    change readValue (fuel + 1)
      (('[' :: separated (printValue v :: printItems items) ++ [']']) ++ rest) = _
    rw [List.append_assoc, List.cons_append, List.singleton_append, hfirst, readValue,
      skipBlank_cons rfl]
    simp only [List.cons_append, skipBlank_cons hblank] at hitems ⊢
    split
    next heq => exact absurd (List.cons.inj heq).1 hbracket
    · rw [hitems]
      rfl

theorem readMembers_member (k : String) {v : Value} (hv : Reads v) {fuel : Nat}
    (hfuel : 2 * (printValue v).length < fuel) {rest : List Char} (hends : Ends rest)
    (seen : List (Option String × Value)) :
    readMembers (fuel + 1) (printString k ++ ':' :: (printValue v ++ rest)) seen
      = match skipBlank rest with
        | ',' :: rest => readMembers fuel rest ((some k, v) :: seen)
        | '\x7d' :: rest => some (((some k, v) :: seen).reverse, rest)
        | _ => none := by
  change readMembers (fuel + 1)
    ('"' :: ((k.toList.flatMap escape ++ ['"']) ++ ':' :: (printValue v ++ rest))) seen = _
  have hstep := readMembers.eq_2
    ('"' :: ((k.toList.flatMap escape ++ ['"']) ++ ':' :: (printValue v ++ rest))) seen fuel
  simp only [skipBlank_cons (show isBlank '"' = false from rfl), readString_print,
    skipBlank_cons (show isBlank ':' = false from rfl), hv fuel rest hfuel hends] at hstep
  exact hstep

/-- The members of an object read back up to its closing brace. -/
theorem readMembers_print {e : Option String × Value} {members : List (Option String × Value)}
    (hkeys : ∀ d ∈ e :: members, d.1.isSome = true) (h : ∀ d ∈ e :: members, Reads d.2)
    {fuel : Nat} (hfuel : 2 * (separated (printMembers (e :: members))).length + 1 < fuel)
    (seen : List (Option String × Value)) (rest : List Char) :
    readMembers fuel (separated (printMembers (e :: members)) ++ '\x7d' :: rest) seen
      = some (seen.reverse ++ e :: members, rest) := by
  obtain ⟨fuel, rfl⟩ := Nat.exists_eq_add_one_of_ne_zero (Nat.ne_zero_of_lt hfuel)
  induction members generalizing e fuel seen with
  | nil =>
    obtain ⟨k, v⟩ := e
    obtain ⟨k, rfl⟩ := Option.isSome_iff_exists.mp (hkeys _ List.mem_cons_self)
    have hv : Reads v := h _ List.mem_cons_self
    have hlength : (separated (printMembers [(some k, v)])).length
        = (printString k).length + (printValue v).length + 1 := by
      simp [printMembers, separated, Nat.add_assoc]
    rw [hlength] at hfuel
    change readMembers (fuel + 1)
      ((printString k ++ ':' :: printValue v) ++ '\x7d' :: rest) seen = _
    rw [List.append_assoc, List.cons_append,
      readMembers_member k hv (by omega) (ends_brace rest) seen]
    simp only [skipBlank_cons (show isBlank '\x7d' = false from rfl), List.reverse_cons]
  | cons d members ih =>
    obtain ⟨k, v⟩ := e
    obtain ⟨k, rfl⟩ := Option.isSome_iff_exists.mp (hkeys _ List.mem_cons_self)
    have hv : Reads v := h _ List.mem_cons_self
    have hlength : (separated (printMembers ((some k, v) :: d :: members))).length
        = (printString k).length + (printValue v).length
          + (separated (printMembers (d :: members))).length + 2 := by
      simp only [printMembers, separated, List.length_append, List.length_cons, Option.getD_some]
      omega
    rw [hlength] at hfuel
    change readMembers (fuel + 1) (((printString k ++ ':' :: printValue v)
      ++ ',' :: separated (printMembers (d :: members))) ++ '\x7d' :: rest) seen = _
    rw [List.append_assoc, List.append_assoc, List.cons_append, List.cons_append,
      readMembers_member k hv (by omega) (ends_comma _) seen]
    simp only [skipBlank_cons (show isBlank ',' = false from rfl)]
    obtain ⟨fuel, rfl⟩ := Nat.exists_eq_add_one_of_ne_zero (show fuel ≠ 0 by omega)
    rw [ih (List.forall_mem_cons.mp hkeys).2 (List.forall_mem_cons.mp h).2 _ fuel (by omega),
      List.reverse_cons, List.append_assoc, List.singleton_append]

theorem reads_object {members : List (Option String × Value)}
    (hkeys : ∀ e ∈ members, e.1.isSome = true) (h : ∀ e ∈ members, Reads e.2) :
    Reads (.object members) := by
  intro fuel rest hfuel hends
  obtain ⟨fuel, rfl⟩ := Nat.exists_eq_add_one_of_ne_zero (Nat.ne_zero_of_lt hfuel)
  cases members with
  | nil => rfl
  | cons e members =>
    have hlength : (printValue (.object (e :: members))).length
        = (separated (printMembers (e :: members))).length + 2 := by
      simp [printValue]
    have hmembers := readMembers_print hkeys h (show _ < fuel by omega) [] rest
    obtain ⟨k, v⟩ := e
    obtain ⟨tail, hfirst⟩ : ∃ tail, separated (printMembers ((k, v) :: members)) = '"' :: tail :=
      exists_separated_eq_cons rfl (printMembers members)
    rw [hfirst] at hmembers
    change readValue (fuel + 1)
      (('\x7b' :: separated (printMembers ((k, v) :: members)) ++ ['\x7d']) ++ rest) = _
    rw [List.append_assoc, List.cons_append, List.singleton_append, hfirst, readValue,
      skipBlank_cons rfl]
    simp only [List.cons_append, skipBlank_cons (show isBlank '"' = false from rfl)] at hmembers ⊢
    exact congrArg (Option.map fun r => (Value.object r.1, r.2)) hmembers

/-- The text of an exact value reads back in front of anything that does not carry a number on. -/
theorem Value.IsExact.reads {v : Value} (h : v.IsExact) : Reads v := by
  induction h with
  | null => exact reads_null
  | bool b => exact reads_bool b
  | number hn => exact reads_number hn
  | string s => exact reads_string s
  | array hexact ih => exact reads_array hexact ih
  | object hkeys _ ih => exact reads_object hkeys ih

/-- The text of an exact value reads back as the value. -/
theorem Value.IsExact.read_text {v : Value} (h : v.IsExact) : read v.text = some v := by
  have hends : Ends [] := by
    rintro _ ⟨⟩
  have hread := h.reads (2 * (printValue v).length + 2) [] (by omega) hends
  rw [List.append_nil] at hread
  rw [read, Value.text, String.toList_ofList, hread]
  rfl

end ContentVault.Json
