import ContentVault.Proofs.Map.Lookup
set_option autoImplicit false

/-!
# Finite maps: runs of keys

A scan starts at a key and goes on while a test holds.  It sees every key that the test
accepts exactly when those keys stand together and none of them comes before the start.
That is so for the keys that agree with the start in the leading part of their order.
-/

namespace ContentVault

universe u v

/-- The keys that `keep` accepts stand together from `start` on: none comes before it, and those
between it and an accepted key are accepted. -/
structure IsRun {κ : Type u} [Ord κ] (start : κ) (keep : κ → Bool) : Prop where
  from_start : ∀ k, keep k = true → compare k start ≠ .lt
  closed : ∀ a b, compare a start ≠ .lt → compare a b = .lt → keep b = true → keep a = true

/-- The keys of one class of a leading order make up a run, if it starts at the least key of its
class. -/
theorem IsRun.of_leading {κ : Type u} [Ord κ] (leading rest : κ → κ → Ordering)
    [Std.TransCmp leading] {start : κ} {keep : κ → Bool}
    (hcompare : ∀ a b, compare a b = (leading a b).then (rest a b))
    (hkeep : ∀ k, keep k = true ↔ leading k start = .eq)
    (hleast : ∀ k, keep k = true → rest k start ≠ .lt) : IsRun start keep := by
  constructor
  · intro k hk hlt
    rw [hcompare, (hkeep k).mp hk] at hlt
    exact hleast k hk hlt
  · intro a b hstart hlt hb
    rw [hkeep] at hb ⊢
    -- `a` is not below the start, and not above a key of the start's class.
    have hnotlt : leading a start ≠ .lt := by
      intro h
      rw [hcompare, h] at hstart
      exact hstart rfl
    have hnotgt : leading a start ≠ .gt := by
      intro h
      have hab : leading a b = .gt := Std.TransCmp.gt_of_gt_of_eq h (Std.OrientedCmp.eq_symm hb)
      rw [hcompare, hab] at hlt
      cases hlt
    cases h : leading a start with
    | lt => exact absurd h hnotlt
    | eq => rfl
    | gt => exact absurd h hnotgt

namespace OrderedMap

variable {κ : Type u} {ν : Type v} [Ord κ]

/-! ## Prefixes of sorted lists -/

theorem takeWhile_eq_filter {α : Type u} {p : α → Bool} {l : List α}
    (h : l.Pairwise fun a b => p b = true → p a = true) : l.takeWhile p = l.filter p := by
  induction l with
  | nil => rfl
  | cons a l ih =>
    have ha := List.pairwise_cons.mp h
    by_cases hp : p a = true
    · rw [List.takeWhile_cons_of_pos hp, List.filter_cons_of_pos hp, ih ha.2]
    · rw [List.takeWhile_cons_of_neg hp, List.filter_cons_of_neg hp]
      exact (List.filter_eq_nil_iff.mpr fun b hb hpb => hp (ha.1 b hb hpb)).symm

theorem dropWhile_eq_filter {α : Type u} {p : α → Bool} {l : List α}
    (h : l.Pairwise fun a b => p b = true → p a = true) :
    l.dropWhile p = l.filter fun a => !p a := by
  induction l with
  | nil => rfl
  | cons a l ih =>
    have ha := List.pairwise_cons.mp h
    by_cases hp : p a = true
    · rw [List.dropWhile_cons_of_pos hp, List.filter_cons_of_neg (by simp [hp]), ih ha.2]
    · have hall : ∀ b ∈ a :: l, (!p b) = true := by
        intro b hb
        rcases List.mem_cons.mp hb with rfl | hb
        · simpa using hp
        · simpa using fun hpb => hp (ha.1 b hb hpb)
      rw [List.dropWhile_cons_of_neg hp, List.filter_eq_self.mpr hall]

/-! ## What a run holds -/

variable [Std.TransOrd κ]

theorem upFrom_eq_filter (m : OrderedMap κ ν) (start : κ) :
    m.upFrom start = m.entries.filter fun e => !(compare e.1 start == .lt) := by
  apply dropWhile_eq_filter
  refine m.sorted.imp fun {a b} hab hb => ?_
  rw [beq_iff_eq] at hb ⊢
  exact Std.TransCmp.lt_trans hab hb

/-- In a sorted list, those entries come before the first one that is refused which have only
accepted ones up to their own key. -/
theorem mem_takeWhile_iff {p : κ × ν → Bool} {l : List (κ × ν)} (hs : l.Pairwise Before)
    (e : κ × ν) :
    e ∈ l.takeWhile p ↔ e ∈ l ∧ ∀ e' ∈ l, (compare e'.1 e.1).isLE → p e' = true := by
  induction l with
  | nil => simp
  | cons d ds ih =>
    have hd := List.pairwise_cons.mp hs
    by_cases hp : p d = true
    · rw [List.takeWhile_cons_of_pos hp, List.mem_cons, List.mem_cons, ih hd.2,
        List.forall_mem_cons]
      constructor
      · rintro (rfl | ⟨hmem, hbelow⟩)
        · refine ⟨Or.inl rfl, fun _ => hp, fun e' he' hle => ?_⟩
          -- Nothing behind the head is below it.
          have hgt : compare e'.1 e.1 = .gt := Std.OrientedCmp.gt_of_lt (hd.1 e' he')
          rw [hgt] at hle
          cases hle
        · exact ⟨Or.inr hmem, fun _ => hp, hbelow⟩
      · rintro ⟨rfl | hmem, _, hbelow⟩
        · exact Or.inl rfl
        · exact Or.inr ⟨hmem, hbelow⟩
    · rw [List.takeWhile_cons_of_neg hp]
      constructor
      · intro h
        cases h
      · rintro ⟨hmem, hbelow⟩
        refine absurd (hbelow d List.mem_cons_self ?_) hp
        rcases List.mem_cons.mp hmem with rfl | hmem
        · simp
        · rw [hd.1 e hmem]
          rfl

omit [Std.TransOrd κ] in
theorem upFrom_sorted (m : OrderedMap κ ν) (start : κ) : (m.upFrom start).Pairwise Before :=
  m.sorted.sublist (List.dropWhile_sublist _)

omit [Std.TransOrd κ] in
theorem run_sorted (m : OrderedMap κ ν) (start : κ) (keep : κ → Bool) :
    (m.run start keep).Pairwise Before :=
  (m.upFrom_sorted start).sublist (List.takeWhile_sublist _)

theorem mem_upFrom_iff (m : OrderedMap κ ν) (start : κ) (e : κ × ν) :
    e ∈ m.upFrom start ↔ e ∈ m.entries ∧ (compare start e.1).isLE := by
  rw [upFrom_eq_filter, List.mem_filter]
  have horder : compare start e.1 = (compare e.1 start).swap := Std.OrientedCmp.eq_swap
  rw [horder]
  cases compare e.1 start <;> simp

/-- A scan sees an entry from the start on if every key up to the entry's own is accepted. -/
theorem mem_run_iff_forall (m : OrderedMap κ ν) (start : κ) (keep : κ → Bool) (e : κ × ν) :
    e ∈ m.run start keep ↔ e ∈ m.entries ∧ (compare start e.1).isLE ∧
      ∀ e' ∈ m.entries, (compare start e'.1).isLE → (compare e'.1 e.1).isLE →
        keep e'.1 = true := by
  rw [run, mem_takeWhile_iff (m.upFrom_sorted start), mem_upFrom_iff, and_assoc]
  simp only [mem_upFrom_iff, and_imp]

/-! ## Runs of keys that stand together -/

theorem upFrom_pairwise {start : κ} {keep : κ → Bool} (h : IsRun start keep)
    (m : OrderedMap κ ν) :
    (m.upFrom start).Pairwise fun a b => keep b.1 = true → keep a.1 = true := by
  rw [upFrom_eq_filter, List.pairwise_filter]
  refine m.sorted.imp fun {a b} hab ha _ hb => ?_
  exact h.closed a.1 b.1 (by simpa using ha) hab hb

/-- A scan sees every entry whose key is accepted. -/
theorem run_eq_filter {start : κ} {keep : κ → Bool} (h : IsRun start keep) (m : OrderedMap κ ν) :
    m.run start keep = m.entries.filter fun e => keep e.1 := by
  rw [run, takeWhile_eq_filter (upFrom_pairwise h m), upFrom_eq_filter, List.filter_filter]
  apply List.filter_congr
  intro e _
  by_cases hk : keep e.1 = true
  · simpa [hk] using h.from_start e.1 hk
  · simp [hk]

variable [Std.LawfulEqOrd κ]

omit [Std.TransOrd κ] in
theorem entries_nodup (m : OrderedMap κ ν) : m.entries.Nodup :=
  m.sorted.imp fun h heq => h.ne (congrArg Prod.fst heq)

omit [Std.TransOrd κ] in
/-- What is left after the doomed members of a run are taken away. -/
theorem mem_eraseRun_iff (m : OrderedMap κ ν) (start : κ) (keep : κ → Bool)
    (doomed : κ → ν → Bool) (e : κ × ν) :
    e ∈ (m.eraseRun start keep doomed).entries ↔
      e ∈ m.entries ∧ ¬ (e ∈ m.run start keep ∧ doomed e.1 e.2 = true) := by
  have hnodup := m.entries_nodup
  rw [m.entries_eq_run start keep] at hnodup ⊢
  obtain ⟨_, hrest, hbelow⟩ := List.nodup_append.mp hnodup
  obtain ⟨_, _, hafter⟩ := List.nodup_append.mp hrest
  simp only [eraseRun, restrict, List.mem_append, List.mem_filter, Bool.not_eq_true']
  constructor
  · rintro (h | ⟨h, hspared⟩ | h)
    · refine ⟨Or.inl h, fun hrun => ?_⟩
      exact hbelow e h e (List.mem_append_left _ hrun.1) rfl
    · refine ⟨Or.inr (Or.inl h), fun hrun => ?_⟩
      rw [hrun.2] at hspared
      cases hspared
    · exact ⟨Or.inr (Or.inr h), fun hrun => hafter e hrun.1 e h rfl⟩
  · rintro ⟨h | h | h, hspared⟩
    · exact Or.inl h
    · refine Or.inr (Or.inl ⟨h, ?_⟩)
      exact Bool.eq_false_iff.mpr fun hdoomed => hspared ⟨h, hdoomed⟩
    · exact Or.inr (Or.inr h)

theorem mem_run_iff {start : κ} {keep : κ → Bool} (h : IsRun start keep) (m : OrderedMap κ ν)
    (k : κ) (x : ν) : (k, x) ∈ m.run start keep ↔ m.get? k = some x ∧ keep k = true := by
  rw [run_eq_filter h, List.mem_filter, mem_entries_iff]

/-- What is found after the doomed members of a run are taken away. -/
theorem get?_eraseRun {start : κ} {keep : κ → Bool} (h : IsRun start keep) (m : OrderedMap κ ν)
    (doomed : κ → ν → Bool) (k : κ) :
    (m.eraseRun start keep doomed).get? k
      = (m.get? k).filter fun x => !(keep k && doomed k x) := by
  apply Option.ext
  intro x
  rw [← mem_entries_iff, mem_eraseRun_iff, mem_run_iff h, Option.filter_eq_some_iff,
    ← mem_entries_iff]
  by_cases hmem : (k, x) ∈ m.entries
  · cases keep k <;> simp [hmem]
  · simp [hmem]

end OrderedMap

end ContentVault
