import ContentVault.Proofs.Map.Size
import ContentVault.Proofs.Store.Settings
set_option autoImplicit false

/-!
# Collections as bounded finite maps

A finite map gives a document to each of finitely many keys.  What a collection promises of a
call is said of such maps alone: the answer, and the map that is there afterwards.  A collection
that started without documents keeps these promises whatever it was asked before, and no document
in it is beyond its limit.
-/

namespace ContentVault

/-- The calls of a collection. -/
inductive CollectionCall (κ δ : Type) where
  | checkSize (doc : δ)
  | insert (key : κ) (doc : δ)
  | upsertIf (key : κ) (doc : δ) (replaceable : δ → Bool)
  | updateIf (key : κ) (accepts : δ → Bool) (change : δ → δ)
  | deleteIf (key : κ) (accepts : δ → Bool)
  | deleteRangeWhere (start : κ) (keep : κ → Bool) (doomed : κ → δ → Bool)
  | find (key : κ)
  | scanFrom (start : κ) (keep : κ → Bool)
  | size
  | isEmpty

namespace CollectionCall

variable {κ δ : Type}

/-! ## Calls of a collection -/

/-- The type of what a call answers. -/
abbrev Answer : CollectionCall κ δ → Type
  | .checkSize _ => Except StoreError Nat
  | .insert _ _ => Except StoreError Unit
  | .upsertIf _ _ _ => Except StoreError Bool
  | .updateIf _ _ _ => Except StoreError Bool
  | .deleteIf _ _ => Bool
  | .deleteRangeWhere _ _ _ => Nat
  | .find _ => Option δ
  | .scanFrom _ _ => List (κ × δ)
  | .size => Nat
  | .isEmpty => Bool

section

variable [Ord κ] [EncodedSize δ] [Std.TransOrd κ] [Describe κ]

/-- Puts a call to a collection. -/
def perform : (call : CollectionCall κ δ) → Collection κ δ → call.Answer × Collection κ δ
  | .checkSize doc, c => (c.checkSize doc, c)
  | .insert key doc, c => c.insert key doc
  | .upsertIf key doc replaceable, c => c.upsertIf key doc replaceable
  | .updateIf key accepts change, c => c.updateIf key accepts change
  | .deleteIf key accepts, c => c.deleteIf key accepts
  | .deleteRangeWhere start keep doomed, c => c.deleteRangeWhere start keep doomed
  | .find key, c => (c.find key, c)
  | .scanFrom start keep, c => (c.scanFrom start keep, c)
  | .size, c => (c.size, c)
  | .isEmpty, c => (c.isEmpty, c)

/-- The collection after calls made one after the other. -/
def run (calls : List (CollectionCall κ δ)) (c : Collection κ δ) : Collection κ δ :=
  calls.foldl (fun c call => (call.perform c).2) c

end

/-! ## What finite maps promise -/

/-- The list that a scan of a finite map gives: in key order, the entries from `start` on up to
the first key that `keep` refuses. -/
structure IsScan [Ord κ] (map : κ → Option δ) (start : κ) (keep : κ → Bool)
    (run : List (κ × δ)) : Prop where
  increasing : run.Pairwise OrderedMap.Before
  mem_iff : ∀ key doc, (key, doc) ∈ run ↔ map key = some doc ∧ (compare start key).isLE ∧
    ∀ key', (map key').isSome → (compare start key').isLE → (compare key' key).isLE →
      keep key' = true

/-- What a finite map of documents within a limit promises of a call: one rule for each outcome,
with the answer and with the map afterwards. -/
inductive Promised [Ord κ] [DecidableEq κ] [EncodedSize δ] [Describe κ] (name : String)
    (limit : Nat) (map : κ → Option δ) :
    (call : CollectionCall κ δ) → call.Answer → (κ → Option δ) → Prop where
  | checkSize_tooLarge {doc : δ} (h : limit < encodedSize doc) :
      Promised name limit map (.checkSize doc)
        (.error (.recordTooLarge name (encodedSize doc) limit)) map
  | checkSize_fits {doc : δ} (h : encodedSize doc ≤ limit) :
      Promised name limit map (.checkSize doc) (.ok (encodedSize doc)) map
  | insert_tooLarge {key : κ} {doc : δ} (h : limit < encodedSize doc) :
      Promised name limit map (.insert key doc)
        (.error (.recordTooLarge name (encodedSize doc) limit)) map
  | insert_present {key : κ} {doc : δ} (h : encodedSize doc ≤ limit)
      (hkey : (map key).isSome) :
      Promised name limit map (.insert key doc)
        (.error (.duplicateKey name (Describe.describe key))) map
  | insert_absent {key : κ} {doc : δ} (h : encodedSize doc ≤ limit) (hkey : map key = none) :
      Promised name limit map (.insert key doc) (.ok ()) (Function.update map key (some doc))
  | upsertIf_tooLarge {key : κ} {doc : δ} {replaceable : δ → Bool}
      (h : limit < encodedSize doc) :
      Promised name limit map (.upsertIf key doc replaceable)
        (.error (.recordTooLarge name (encodedSize doc) limit)) map
  | upsertIf_spared {key : κ} {doc old : δ} {replaceable : δ → Bool}
      (h : encodedSize doc ≤ limit) (hkey : map key = some old) (hold : replaceable old = false) :
      Promised name limit map (.upsertIf key doc replaceable) (.ok false) map
  | upsertIf_written {key : κ} {doc : δ} {replaceable : δ → Bool} (h : encodedSize doc ≤ limit)
      (hkey : map key = none ∨ ∃ old, map key = some old ∧ replaceable old = true) :
      Promised name limit map (.upsertIf key doc replaceable) (.ok true)
        (Function.update map key (some doc))
  | updateIf_declined {key : κ} {accepts : δ → Bool} {change : δ → δ}
      (hkey : ∀ old, map key = some old → accepts old = false) :
      Promised name limit map (.updateIf key accepts change) (.ok false) map
  | updateIf_tooLarge {key : κ} {accepts : δ → Bool} {change : δ → δ} {old : δ}
      (hkey : map key = some old) (hold : accepts old = true)
      (h : limit < encodedSize (change old)) :
      Promised name limit map (.updateIf key accepts change)
        (.error (.recordTooLarge name (encodedSize (change old)) limit)) map
  | updateIf_changed {key : κ} {accepts : δ → Bool} {change : δ → δ} {old : δ}
      (hkey : map key = some old) (hold : accepts old = true)
      (h : encodedSize (change old) ≤ limit) :
      Promised name limit map (.updateIf key accepts change) (.ok true)
        (Function.update map key (some (change old)))
  | deleteIf_declined {key : κ} {accepts : δ → Bool}
      (hkey : ∀ old, map key = some old → accepts old = false) :
      Promised name limit map (.deleteIf key accepts) false map
  | deleteIf_deleted {key : κ} {accepts : δ → Bool} {old : δ} (hkey : map key = some old)
      (hold : accepts old = true) :
      Promised name limit map (.deleteIf key accepts) true (Function.update map key none)
  | deleteRangeWhere {start : κ} {keep : κ → Bool} {doomed : κ → δ → Bool} {run : List (κ × δ)}
      {after : κ → Option δ} (hrun : IsScan map start keep run)
      (hafter : ∀ key doc, after key = some doc ↔
        map key = some doc ∧ ¬ ((key, doc) ∈ run ∧ doomed key doc = true)) :
      Promised name limit map (.deleteRangeWhere start keep doomed)
        (run.countP fun e => doomed e.1 e.2) after
  | find {key : κ} : Promised name limit map (.find key) (map key) map
  | scanFrom {start : κ} {keep : κ → Bool} {run : List (κ × δ)}
      (hrun : IsScan map start keep run) :
      Promised name limit map (.scanFrom start keep) run map
  | size {n : Nat} (h : {key | (map key).isSome}.encard = n) : Promised name limit map .size n map
  | isEmpty {b : Bool} (h : b = true ↔ ∀ key, map key = none) :
      Promised name limit map .isEmpty b map

/-- The call failed, or answered `false`. -/
def declined : (call : CollectionCall κ δ) → call.Answer → Bool
  | .checkSize _, .error _ => true
  | .insert _ _, .error _ => true
  | .upsertIf _ _ _, .error _ => true
  | .upsertIf _ _ _, .ok wrote => !wrote
  | .updateIf _ _ _, .error _ => true
  | .updateIf _ _ _, .ok changed => !changed
  | .deleteIf _ _, deleted => !deleted
  | .isEmpty, answer => !answer
  | _, _ => false

/-- How many keys are there after an answered call that were not there before. -/
def gained (map : κ → Option δ) : (call : CollectionCall κ δ) → call.Answer → Nat
  | .insert _ _, .ok _ => 1
  | .upsertIf key _ _, .ok true => if (map key).isNone then 1 else 0
  | _, _ => 0

/-- How many keys an answered call took away. -/
def lost : (call : CollectionCall κ δ) → call.Answer → Nat
  | .deleteIf _ _, true => 1
  | .deleteRangeWhere _ _ _, n => n
  | _, _ => 0

/-! ## Scans, and the choice that promises leave -/

section

variable [Ord κ] [Std.TransOrd κ] [Std.LawfulEqOrd κ]

/-- A scan of a collection is the scan of its map. -/
theorem isScan_scanFrom (c : Collection κ δ) (start : κ) (keep : κ → Bool) :
    IsScan c.find start keep (c.scanFrom start keep) := by
  refine ⟨c.records.run_sorted start keep, fun key doc => ?_⟩
  have hpresent : ∀ key', (c.find key').isSome ↔ ∃ doc', (key', doc') ∈ c.records.entries := by
    intro key'
    simp only [OrderedMap.mem_entries_iff, Option.isSome_iff_exists, Collection.find]
  simp only [hpresent, forall_exists_index]
  rw [Collection.scanFrom, OrderedMap.mem_run_iff_forall, OrderedMap.mem_entries_iff,
    Collection.find, Prod.forall]

/-- There is only one list that a scan can give. -/
theorem IsScan.unique {map : κ → Option δ} {start : κ} {keep : κ → Bool}
    {run run' : List (κ × δ)} (h : IsScan map start keep run) (h' : IsScan map start keep run') :
    run = run' := by
  apply h.increasing.eq_of_mem_iff h'.increasing
  rintro ⟨key, doc⟩
  rw [h.mem_iff, h'.mem_iff]

variable [DecidableEq κ] [EncodedSize δ] [Describe κ] {name : String} {limit : Nat}
  {map after after' : κ → Option δ}

/-- The promises say of every call which answer it gives and which map is there afterwards. -/
theorem Promised.unique {call : CollectionCall κ δ} {answer answer' : call.Answer}
    (h : Promised name limit map call answer after)
    (h' : Promised name limit map call answer' after') : answer = answer' ∧ after = after' := by
  cases h with
  | checkSize_tooLarge h => cases h' <;> first | exact ⟨rfl, rfl⟩ | omega
  | checkSize_fits h => cases h' <;> first | exact ⟨rfl, rfl⟩ | omega
  | insert_tooLarge h => cases h' <;> first | exact ⟨rfl, rfl⟩ | omega
  | insert_present h hkey => cases h' <;> first | exact ⟨rfl, rfl⟩ | omega | simp_all
  | insert_absent h hkey => cases h' <;> first | exact ⟨rfl, rfl⟩ | omega | simp_all
  | upsertIf_tooLarge h => cases h' <;> first | exact ⟨rfl, rfl⟩ | omega
  | upsertIf_spared h hkey hold => cases h' <;> first | exact ⟨rfl, rfl⟩ | omega | simp_all
  | upsertIf_written h hkey =>
    cases h' with
    | upsertIf_tooLarge h' => omega
    | upsertIf_spared _ hkey' hold' => simp_all
    | upsertIf_written => exact ⟨rfl, rfl⟩
  | updateIf_declined hkey => cases h' <;> first | exact ⟨rfl, rfl⟩ | simp_all
  | updateIf_tooLarge hkey hold h =>
    cases h' with
    | updateIf_declined hkey' => simp_all
    | updateIf_tooLarge hkey' => cases hkey.symm.trans hkey'; exact ⟨rfl, rfl⟩
    | updateIf_changed hkey' _ h' => cases hkey.symm.trans hkey'; omega
  | updateIf_changed hkey hold h =>
    cases h' with
    | updateIf_declined hkey' => simp_all
    | updateIf_tooLarge hkey' _ h' => cases hkey.symm.trans hkey'; omega
    | updateIf_changed hkey' => cases hkey.symm.trans hkey'; exact ⟨rfl, rfl⟩
  | deleteIf_declined hkey => cases h' <;> first | exact ⟨rfl, rfl⟩ | simp_all
  | deleteIf_deleted hkey hold => cases h' <;> first | exact ⟨rfl, rfl⟩ | simp_all
  | deleteRangeWhere hrun hafter =>
    cases h' with
    | deleteRangeWhere hrun' hafter' =>
      cases hrun.unique hrun'
      refine ⟨rfl, funext fun key => Option.ext fun doc => ?_⟩
      rw [hafter, hafter']
  | find =>
    cases h'
    exact ⟨rfl, rfl⟩
  | scanFrom hrun =>
    cases h' with
    | scanFrom hrun' => exact ⟨hrun.unique hrun', rfl⟩
  | size h =>
    cases h' with
    | size h' =>
      have hsize := h.symm.trans h'
      exact ⟨by exact_mod_cast hsize, rfl⟩
  | isEmpty h =>
    cases h' with
    | isEmpty h' => exact ⟨Bool.eq_iff_iff.mpr (h.trans h'.symm), rfl⟩

end

/-! ## What a promised call keeps -/

/-- No document of a map takes more bytes than the limit. -/
def Within [EncodedSize δ] (limit : Nat) (map : κ → Option δ) : Prop :=
  ∀ key doc, map key = some doc → encodedSize doc ≤ limit

theorem Within.update [EncodedSize δ] [DecidableEq κ] {limit : Nat} {map : κ → Option δ}
    (h : Within limit map) (key : κ) {doc : δ} (hdoc : encodedSize doc ≤ limit) :
    Within limit (Function.update map key (some doc)) := by
  intro key' doc' hfind
  by_cases hkey : key' = key
  · rw [hkey, Function.update_self] at hfind
    cases hfind
    exact hdoc
  · rw [Function.update_of_ne hkey] at hfind
    exact h key' doc' hfind

theorem Within.forget [EncodedSize δ] [DecidableEq κ] {limit : Nat} {map : κ → Option δ}
    (h : Within limit map) (key : κ) : Within limit (Function.update map key none) := by
  intro key' doc hfind
  by_cases hkey : key' = key
  · rw [hkey, Function.update_self] at hfind
    cases hfind
  · rw [Function.update_of_ne hkey] at hfind
    exact h key' doc hfind

variable [Ord κ] [EncodedSize δ] [Describe κ]

/-- A call that does what is promised leaves every document within the limit. -/
theorem Promised.within [DecidableEq κ] {name : String} {limit : Nat} {map after : κ → Option δ}
    {call : CollectionCall κ δ} {answer : call.Answer}
    (h : Promised name limit map call answer after) (hmap : Within limit map) :
    Within limit after := by
  cases h with
  | insert_absent hdoc => exact hmap.update _ hdoc
  | upsertIf_written hdoc => exact hmap.update _ hdoc
  | updateIf_changed _ _ hdoc => exact hmap.update _ hdoc
  | deleteIf_deleted =>
    exact hmap.forget _
  | deleteRangeWhere _ hafter =>
    intro key doc hfind
    exact hmap key doc ((hafter key doc).mp hfind).1
  | _ => exact hmap

/-! ## Collections keep the promises -/

variable [Std.TransOrd κ]

/-- A call that failed, or answered `false`, changed nothing. -/
theorem perform_of_declined (call : CollectionCall κ δ) (c : Collection κ δ)
    (h : call.declined (call.perform c).1 = true) : (call.perform c).2 = c := by
  cases call with
  | insert key doc =>
    rcases c.insert_cases key doc with ⟨_, hins⟩ | ⟨_, _, hins⟩ | ⟨_, _, hins⟩
    · rw [perform, hins]
    · rw [perform, hins]
    · rw [perform, hins] at h
      cases h
  | upsertIf key doc replaceable =>
    rcases c.upsertIf_cases key doc replaceable with ⟨_, hups⟩ | ⟨_, _, hups⟩ | ⟨_, _, hups⟩
    · rw [perform, hups]
    · rw [perform, hups] at h
      cases h
    · rw [perform, hups]
  | updateIf key accepts change =>
    rcases c.updateIf_cases key accepts change with ⟨_, hupd⟩ |
      ⟨_, _, _, _, hupd⟩ | ⟨_, _, _, _, hupd⟩
    · rw [perform, hupd]
    · rw [perform, hupd]
    · rw [perform, hupd] at h
      cases h
  | deleteIf key accepts =>
    rcases c.deleteIf_cases key accepts with ⟨_, hdel⟩ | ⟨_, _, _, hdel⟩
    · rw [perform, hdel]
    · rw [perform, hdel] at h
      cases h
  | deleteRangeWhere start keep doomed => cases h
  | _ => rfl

/-- A call leaves a collection its name and its limit. -/
theorem bare_perform (call : CollectionCall κ δ) (c : Collection κ δ) :
    (call.perform c).2.bare = c.bare := by
  cases call with
  | insert key doc => exact c.bare_insert key doc
  | upsertIf key doc replaceable => exact c.bare_upsertIf key doc replaceable
  | updateIf key accepts change => exact c.bare_updateIf key accepts change
  | deleteIf key accepts => exact c.bare_deleteIf key accepts
  | _ => rfl

theorem bare_run (calls : List (CollectionCall κ δ)) (c : Collection κ δ) :
    (run calls c).bare = c.bare := by
  induction calls generalizing c with
  | nil => rfl
  | cons call calls ih => exact (ih _).trans (call.bare_perform c)

variable [Std.LawfulEqOrd κ] [DecidableEq κ]

/-- A call of a collection does what is promised of its map. -/
theorem promised_perform (call : CollectionCall κ δ) (c : Collection κ δ) :
    Promised c.name c.limit c.find call (call.perform c).1 (call.perform c).2.find := by
  cases call with
  | checkSize doc =>
    rw [perform]
    rcases Nat.lt_or_ge c.limit (encodedSize doc) with hlt | hle
    · rw [c.checkSize_of_lt hlt]
      exact .checkSize_tooLarge hlt
    · rw [c.checkSize_of_le hle]
      exact .checkSize_fits hle
  | insert key doc =>
    rw [perform]
    rcases c.insert_cases key doc with ⟨hlt, h⟩ | ⟨hle, ⟨old, hold⟩, h⟩ | ⟨hle, hnone, h⟩
    · rw [h]
      exact .insert_tooLarge hlt
    · rw [h]
      exact .insert_present hle (by rw [hold]; rfl)
    · rw [h, Collection.find_put_eq_update]
      exact .insert_absent hle hnone
  | upsertIf key doc replaceable =>
    rw [perform]
    rcases c.upsertIf_cases key doc replaceable with ⟨hlt, h⟩ | ⟨hle, hall, h⟩ | ⟨hle, hall, h⟩
    · rw [h]
      exact .upsertIf_tooLarge hlt
    · rw [h, Collection.find_put_eq_update]
      refine .upsertIf_written hle ?_
      cases hfind : c.find key with
      | none => exact Or.inl rfl
      | some old =>
        rw [hfind] at hall
        exact Or.inr ⟨old, rfl, hall⟩
    · rw [h]
      cases hfind : c.find key with
      | none =>
        rw [hfind] at hall
        cases hall
      | some old =>
        rw [hfind] at hall
        exact .upsertIf_spared hle hfind hall
  | updateIf key accepts change =>
    rw [perform]
    rcases c.updateIf_cases key accepts change with ⟨hany, h⟩ | ⟨old, hfind, hold, hlt, h⟩ |
      ⟨old, hfind, hold, hle, h⟩
    · rw [h]
      refine .updateIf_declined fun old hfind => ?_
      rw [hfind] at hany
      exact hany
    · rw [h]
      exact .updateIf_tooLarge hfind hold hlt
    · rw [h, Collection.find_put_eq_update]
      exact .updateIf_changed hfind hold hle
  | deleteIf key accepts =>
    rw [perform]
    rcases c.deleteIf_cases key accepts with ⟨hany, h⟩ | ⟨old, hfind, hold, h⟩
    · rw [h]
      refine .deleteIf_declined fun old hfind => ?_
      rw [hfind] at hany
      exact hany
    · rw [h, Collection.find_drop_eq_update]
      exact .deleteIf_deleted hfind hold
  | deleteRangeWhere start keep doomed =>
    refine .deleteRangeWhere (isScan_scanFrom c start keep) fun key doc => ?_
    have hleft := c.records.mem_eraseRun_iff start keep doomed (key, doc)
    rw [OrderedMap.mem_entries_iff, OrderedMap.mem_entries_iff] at hleft
    exact hleft
  | find key => exact .find
  | scanFrom start keep => exact .scanFrom (isScan_scanFrom c start keep)
  | size => exact .size c.records.encard_keys
  | isEmpty => exact .isEmpty c.records.isEmpty_iff

/-- The number of documents changes by what a call gained and lost. -/
theorem size_perform (call : CollectionCall κ δ) (c : Collection κ δ) :
    (call.perform c).2.size + call.lost (call.perform c).1
      = c.size + call.gained c.find (call.perform c).1 := by
  cases call with
  | insert key doc =>
    rw [perform]
    rcases c.insert_cases key doc with ⟨_, h⟩ | ⟨_, _, h⟩ | ⟨_, hnone, h⟩
    · rw [h]
      rfl
    · rw [h]
      rfl
    · rw [h]
      exact OrderedMap.size_insert_of_none hnone doc
  | upsertIf key doc replaceable =>
    rw [perform]
    rcases c.upsertIf_cases key doc replaceable with ⟨_, h⟩ | ⟨_, _, h⟩ | ⟨_, _, h⟩
    · rw [h]
      rfl
    · rw [h]
      cases hfind : c.find key with
      | none =>
        rw [gained, hfind]
        exact OrderedMap.size_insert_of_none hfind doc
      | some old =>
        rw [gained, hfind]
        exact OrderedMap.size_insert_of_some hfind doc
    · rw [h]
      rfl
  | updateIf key accepts change =>
    rw [perform]
    rcases c.updateIf_cases key accepts change with ⟨_, h⟩ | ⟨_, _, _, _, h⟩ |
      ⟨old, hfind, _, _, h⟩
    · rw [h]
      rfl
    · rw [h]
      rfl
    · rw [h]
      exact OrderedMap.size_insert_of_some hfind (change old)
  | deleteIf key accepts =>
    rw [perform]
    rcases c.deleteIf_cases key accepts with ⟨_, h⟩ | ⟨old, hfind, _, h⟩
    · rw [h]
      rfl
    · rw [h]
      exact OrderedMap.size_erase_of_some hfind
  | deleteRangeWhere start keep doomed => exact c.records.size_eraseRun start keep doomed
  | _ => rfl

/-! ## Runs of calls -/

/-- Documents stay within the limit through all calls. -/
theorem within_run (calls : List (CollectionCall κ δ)) {c : Collection κ δ}
    (h : Within c.limit c.find) : Within c.limit (run calls c).find := by
  induction calls generalizing c with
  | nil => exact h
  | cons call calls ih =>
    have hlimit : (call.perform c).2.limit = c.limit :=
      congrArg (·.limit) (call.bare_perform c)
    have hnext := (promised_perform call c).within h
    rw [← hlimit] at hnext ⊢
    exact ih hnext

end CollectionCall

/-- A collection is a finite map in key order of documents within a limit: it holds its documents
at distinct keys, in increasing order, none beyond the limit, and whatever it is asked next, it
does exactly what is promised, counts its documents, and changes nothing when it fails or
declines. -/
structure Collection.IsBoundedMap {κ δ : Type} [Ord κ] [Std.TransOrd κ] [DecidableEq κ]
    [EncodedSize δ] [Describe κ] (name : String) (limit : Nat) (c : Collection κ δ) : Prop where
  within : CollectionCall.Within limit c.find
  increasing : c.records.keys.Pairwise fun a b => compare a b = .lt
  listed : ∀ key doc, (key, doc) ∈ c.records.entries ↔ c.find key = some doc
  promised : ∀ (call : CollectionCall κ δ) (answer : call.Answer) (after : κ → Option δ),
    CollectionCall.Promised name limit c.find call answer after ↔
      answer = (call.perform c).1 ∧ after = (call.perform c).2.find
  counted : ∀ call : CollectionCall κ δ, (call.perform c).2.size + call.lost (call.perform c).1
    = c.size + call.gained c.find (call.perform c).1
  unchanged : ∀ call : CollectionCall κ δ,
    call.declined (call.perform c).1 = true → (call.perform c).2 = c

section

variable {κ δ : Type} [Ord κ] [Std.TransOrd κ] [Std.LawfulEqOrd κ] [DecidableEq κ]
  [EncodedSize δ] [Describe κ]

/-- A collection that started without documents is a bounded finite map after any calls. -/
theorem collection_isBoundedMap (name : String) (limit : Nat)
    (calls : List (CollectionCall κ δ)) :
    (CollectionCall.run calls (Collection.empty name limit)).IsBoundedMap name limit := by
  have hbare := CollectionCall.bare_run calls (Collection.empty name limit)
  have hname : (CollectionCall.run calls (Collection.empty name limit)).name = name :=
    congrArg (·.name) hbare
  have hlimit : (CollectionCall.run calls (Collection.empty name limit)).limit = limit :=
    congrArg (·.limit) hbare
  constructor
  case within =>
    apply CollectionCall.within_run (c := Collection.empty name limit)
    intro key doc h
    cases h
  case increasing => exact List.pairwise_map.mpr (OrderedMap.sorted _)
  case listed => exact OrderedMap.mem_entries_iff _
  case promised =>
    intro call answer after
    have h := call.promised_perform (CollectionCall.run calls (Collection.empty name limit))
    rw [hname, hlimit] at h
    constructor
    · exact fun h' => h'.unique h
    · rintro ⟨rfl, rfl⟩
      exact h
  case counted => exact fun call => call.size_perform _
  case unchanged => exact fun call => call.perform_of_declined _

end

/-- Keys are words and documents bytes, of which two fit.  The range that is deleted ends at the
refused key `2`, though `4` would be accepted; a document and a change that do not fit are not
taken. -/
theorem collection_isBoundedMap_words :
    let calls : List (CollectionCall UInt32 Bytes) :=
      [.insert 4 [7, 7], .insert 1 [7], .upsertIf 2 [] fun _ => false, .insert 5 [7, 7, 7],
        .deleteRangeWhere 1 (fun key => key != 2) fun _ _ => true,
        .updateIf 4 (fun _ => true) fun doc => doc ++ [8]]
    (CollectionCall.run calls (.empty "chunks" 10)).IsBoundedMap "chunks" 10 ∧
      (CollectionCall.run calls (.empty "chunks" 10)).records.entries = [(2, []), (4, [7, 7])] :=
  ⟨collection_isBoundedMap "chunks" 10 _, by decide +kernel⟩

end ContentVault
