import ContentVault.Json.Fields
import Mathlib.Data.List.Forall2
import Mathlib.Data.List.Perm.Basic
set_option autoImplicit false

/-!
# Objects by their fields

What an object holds is known by its fields: each is given exactly once, wherever it stands, and
members of other names are passed over.
-/

namespace ContentVault.Json

/-- The members of an object. -/
abbrev Members := List (Option String × Value)

/-- The members give a field, and give it once. -/
def Gives (members : Members) (name : String) (v : Value) : Prop :=
  members.filter (·.1 == some name) = [(some name, v)]

/-- The members are the given fields and others of other names, in any order. -/
def Arranges (fields others : List (String × Value)) (members : Members) : Prop :=
  members.Perm ((fields ++ others).map fun (k, v) => (some k, v)) ∧
    ∀ e ∈ others, e.1 ∉ fields.map (·.1)

section

variable {members : Members} {name : String} {v : Value} {fields others : List (String × Value)}

/-! ## One field -/

theorem Gives.mem (h : Gives members name v) : (some name, v) ∈ members := by
  have hmem : (some name, v) ∈ members.filter (·.1 == some name) := by
    rw [h]
    exact List.mem_singleton_self _
  exact (List.mem_filter.mp hmem).1

theorem Gives.countP_eq (h : Gives members name v) :
    members.countP (·.1 == some name) = 1 := by
  rw [List.countP_eq_length_filter, h]
  rfl

/-- Nothing else is given for the field. -/
theorem Gives.eq_of_mem (h : Gives members name v) {w : Value} (hmem : (some name, w) ∈ members) :
    w = v := by
  have hfilter : (some name, w) ∈ members.filter (·.1 == some name) :=
    List.mem_filter.mpr ⟨hmem, beq_self_eq_true _⟩
  rw [h, List.mem_singleton] at hfilter
  exact (Prod.mk.inj hfilter).2

/-- What is read only where a field is given is not read where the field is missing or doubled. -/
theorem eq_none_of_countP_ne {α : Type} {read? : Option α}
    (h : ∀ a, read? = some a → ∃ v, Gives members name v)
    (hcount : members.countP (·.1 == some name) ≠ 1) : read? = none := by
  rw [Option.eq_none_iff_forall_ne_some]
  intro a ha
  obtain ⟨v, hgives⟩ := h a ha
  exact hcount hgives.countP_eq

/-- What is read only where a field is accepted is not read where the field is refused. -/
theorem Gives.eq_none_of_refused {α β : Type} {read? : Option α} {field? : Value → Option β}
    (hv : Gives members name v) (hrefused : field? v = none)
    (h : ∀ a, read? = some a → ∃ w b, Gives members name w ∧ field? w = some b) :
    read? = none := by
  rw [Option.eq_none_iff_forall_ne_some]
  intro a ha
  obtain ⟨w, b, hgives, hfield⟩ := h a ha
  rw [hgives.eq_of_mem hv.mem, hfield] at hrefused
  cases hrefused

/-- A field is given once if a search finds it and no second one is there. -/
theorem gives_iff : Gives members name v ↔
    (members.find? fun (k, _) => k == some name).map (·.2) = some v ∧
      (members.countP fun (k, _) => k == some name) ≤ 1 := by
  have hhead : (members.filter (·.1 == some name)).head? = members.find? (·.1 == some name) :=
    List.head?_filter
  rw [List.countP_eq_length_filter]
  change members.filter (·.1 == some name) = _ ↔ (members.find? (·.1 == some name)).map _ = _ ∧ _
  rw [← hhead]
  constructor
  · intro h
    rw [h]
    exact ⟨rfl, Nat.le_refl 1⟩
  · rintro ⟨hfind, hcount⟩
    obtain ⟨e, he, rfl⟩ := Option.map_eq_some_iff.mp hfind
    obtain ⟨tail, hfilter⟩ := List.head?_eq_some_iff.mp he
    have htail : tail = [] := by
      rw [hfilter, List.length_cons] at hcount
      exact List.eq_nil_of_length_eq_zero (by omega)
    have hname : e.1 = some name := by
      have hmem : e ∈ members.filter (·.1 == some name) := hfilter ▸ List.mem_cons_self
      simpa using (List.mem_filter.mp hmem).2
    rw [hfilter, htail, ← hname]

/-- What is given beside one field is given. -/
theorem gives_filter_ne_iff {other : String} (hne : name ≠ other) :
    Gives (members.filter (·.1 != some other)) name v ↔ Gives members name v := by
  have hfilter : (members.filter (·.1 != some other)).filter (·.1 == some name)
      = members.filter (·.1 == some name) := by
    rw [List.filter_filter]
    refine List.filter_congr fun e _ => ?_
    by_cases hname : e.1 = some name
    · simp [hname, hne]
    · simp [hname]
  rw [Gives, hfilter, Gives]

/-! ## All fields -/

/-- The named fields are read exactly if every member has a name and every field is given once. -/
theorem fields?_object_iff {names : List String} (values : List Value) :
    (Value.object members).fields? names = some (values.map some) ↔
      (∀ e ∈ members, e.1.isSome = true) ∧ List.Forall₂ (Gives members) names values := by
  have hgives : List.Forall₂ (Gives members) names values ↔
      (names.map fun name => (members.find? fun (k, _) => k == some name).map (·.2))
        = values.map some ∧
      ∀ name ∈ names, (members.countP fun (k, _) => k == some name) ≤ 1 := by
    rw [← List.forall₂_eq_eq_eq, List.forall₂_map_left_iff, List.forall₂_map_right_iff]
    induction names generalizing values with
    | nil => simp
    | cons name names ih =>
      cases values with
      | nil => simp
      | cons v values =>
        rw [List.forall₂_cons, List.forall₂_cons, ih, gives_iff, List.forall_mem_cons]
        exact and_and_and_comm
  rw [hgives, Value.fields?]
  simp only [Bool.and_eq_true, List.all_eq_true, decide_eq_true_eq]
  constructor
  · intro h
    split at h
    next hcond => exact ⟨hcond.1, Option.some.inj h, hcond.2⟩
    · cases h
  · rintro ⟨hnamed, hmap, hcount⟩
    rw [if_pos ⟨hnamed, hcount⟩, hmap]

/-! ## Fields in any order -/

theorem Arranges.named (h : Arranges fields others members) :
    ∀ e ∈ members, e.1.isSome = true := by
  intro e he
  obtain ⟨_, _, rfl⟩ := List.mem_map.mp (h.1.mem_iff.mp he)
  rfl

/-- Where names are distinct, one member has a name. -/
theorem filter_name_eq (hnodup : (fields.map (·.1)).Nodup) (hmem : (name, v) ∈ fields) :
    fields.filter (·.1 == name) = [(name, v)] := by
  induction fields with
  | nil => cases hmem
  | cons e fields ih =>
    obtain ⟨hfresh, hnodup⟩ := List.nodup_cons.mp hnodup
    rcases List.mem_cons.mp hmem with rfl | hmem
    · have hnone : fields.filter (·.1 == name) = [] := by
        rw [List.filter_eq_nil_iff]
        intro e he hname
        obtain rfl := beq_iff_eq.mp hname
        exact hfresh (List.mem_map_of_mem (f := (·.1)) he)
      simp only [List.filter_cons, beq_self_eq_true, if_true, hnone]
    · have hne : (e.1 == name) = false := by
        rw [beq_eq_false_iff_ne]
        rintro rfl
        exact hfresh (List.mem_map_of_mem (f := (·.1)) hmem)
      simp only [List.filter_cons, hne, Bool.false_eq_true, if_false, ih hnodup hmem]

theorem Arranges.gives (h : Arranges fields others members) (hnodup : (fields.map (·.1)).Nodup)
    (hmem : (name, v) ∈ fields) : Gives members name v := by
  have hothers : others.filter (·.1 == name) = [] := by
    rw [List.filter_eq_nil_iff]
    intro e he hname
    exact h.2 e he (beq_iff_eq.mp hname ▸ List.mem_map_of_mem (f := (·.1)) hmem)
  have hperm := h.1.filter (·.1 == some name)
  rw [List.filter_map] at hperm
  change (members.filter (·.1 == some name)).Perm
    (((fields ++ others).filter (·.1 == name)).map _) at hperm
  rw [List.filter_append, hothers, List.append_nil, filter_name_eq hnodup hmem] at hperm
  exact List.perm_singleton.mp hperm

/-- Arranged fields are read. -/
theorem Arranges.fields?_eq (h : Arranges fields others members)
    (hnodup : (fields.map (·.1)).Nodup) :
    (Value.object members).fields? (fields.map (·.1)) = some (fields.map fun e => some e.2) := by
  have hgives : List.Forall₂ (Gives members) (fields.map (·.1)) (fields.map (·.2)) := by
    rw [List.forall₂_map_left_iff, List.forall₂_map_right_iff, List.forall₂_same]
    exact fun e he => h.gives hnodup he
  have hread := (fields?_object_iff _).mpr ⟨h.named, hgives⟩
  rwa [List.map_map] at hread

/-- Fields that are read are given. -/
theorem exists_gives_of_fields? {names : List String} (values : List Value)
    (h : (Value.object members).fields? names = some (values.map some)) :
    ∀ name ∈ names, ∃ v ∈ values, Gives members name v := by
  have hgives := ((fields?_object_iff values).mp h).2
  clear h
  induction hgives with
  | nil => exact fun _ hname => absurd hname List.not_mem_nil
  | cons hfirst _ ih =>
    refine List.forall_mem_cons.mpr ⟨⟨_, List.mem_cons_self, hfirst⟩, fun name hname => ?_⟩
    obtain ⟨v, hv, hgives⟩ := ih name hname
    exact ⟨v, List.mem_cons_of_mem _ hv, hgives⟩

/-- Without one field, the others are left in some order. -/
theorem Arranges.filter_ne (h : Arranges ((name, v) :: fields) others members)
    (hname : name ∉ fields.map (·.1)) :
    Arranges fields others (members.filter (·.1 != some name)) := by
  have hkept : (fields ++ others).filter (·.1 != name) = fields ++ others := by
    rw [List.filter_eq_self]
    intro e he
    rw [bne_iff_ne]
    rintro rfl
    rcases List.mem_append.mp he with he | he
    · exact hname (List.mem_map_of_mem he)
    · exact h.2 e he List.mem_cons_self
  refine ⟨?_, fun e he hmem => h.2 e he (List.mem_cons_of_mem name hmem)⟩
  have hperm := h.1.filter (·.1 != some name)
  rw [List.filter_map] at hperm
  change (members.filter (·.1 != some name)).Perm
    ((((name, v) :: (fields ++ others)).filter (·.1 != name)).map _) at hperm
  rwa [List.filter_cons_of_neg (by simp), hkept] at hperm

end

end ContentVault.Json
