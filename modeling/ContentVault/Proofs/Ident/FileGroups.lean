import ContentVault.Ident.FileMap
import ContentVault.Proofs.Map.Lookup
import ContentVault.Proofs.Map.Size
set_option autoImplicit false

/-!
# Files grouped by blob: what comes of it

However files come into a map, one by one, list by list or collected anew, the map is that of
one list: the files recorded since it was last collected.  Each blob has its files in the order of
that list, every one where it occurs first.
-/

namespace ContentVault

namespace FileMap

/-! ## First occurrences -/

section

variable {α : Type} [DecidableEq α]

theorem eraseDups_concat (xs : List α) (x : α) :
    (xs ++ [x]).eraseDups = if x ∈ xs then xs.eraseDups else xs.eraseDups ++ [x] := by
  rw [List.eraseDups_append]
  by_cases h : x ∈ xs
  · simp [List.removeAll, h]
  · simp [List.removeAll, h, List.eraseDups_cons]

theorem nodup_eraseDups (xs : List α) : xs.eraseDups.Nodup := by
  induction xs using List.reverseRecOn with
  | nil => exact .nil
  | append_singleton xs x ih =>
    rw [eraseDups_concat]
    split
    · exact ih
    next h => exact List.concat_eq_append ▸ ih.concat (mt List.mem_eraseDups.mp h)

theorem distinct_concat (xs : List α) (x : α) :
    distinct (xs ++ [x]) = if x ∈ distinct xs then distinct xs else distinct xs ++ [x] :=
  List.foldl_concat ..

theorem distinct_eq_eraseDups (xs : List α) : distinct xs = xs.eraseDups := by
  induction xs using List.reverseRecOn with
  | nil => rfl
  | append_singleton xs x ih =>
    rw [distinct_concat, eraseDups_concat, ih]
    simp only [List.mem_eraseDups]

end

/-- The files of a list over one blob, each at its first occurrence. -/
def filesOver (files : List FileId) (store : StoreId) : List FileId :=
  (files.filter (·.store = store)).eraseDups

@[simp] theorem mem_filesOver {files : List FileId} {store : StoreId} {file : FileId} :
    file ∈ filesOver files store ↔ file ∈ files ∧ file.store = store := by
  simp [filesOver]

theorem filesOver_concat (files : List FileId) (file : FileId) (store : StoreId) :
    filesOver (files ++ [file]) store = if file.store = store ∧ file ∉ files
      then filesOver files store ++ [file] else filesOver files store := by
  unfold filesOver
  rw [List.filter_append]
  by_cases hstore : file.store = store
  · by_cases hmem : file ∈ files
    · simp [hstore, hmem, eraseDups_concat]
    · simp [hstore, hmem, eraseDups_concat]
  · simp [hstore]

theorem filesOver_eq_nil_iff {files : List FileId} {store : StoreId} :
    filesOver files store = [] ↔ ∀ file ∈ files, file.store ≠ store := by
  rw [List.eq_nil_iff_forall_not_mem]
  simp

/-! ## The map of a list -/

/-- A blob is listed with its files if it has any. -/
def Groups (m : FileMap) (files : List FileId) : Prop :=
  ∀ store, m.byStore.get? store
    = if filesOver files store = [] then none else some (filesOver files store)

namespace Groups

variable {m n : FileMap} {files : List FileId}

theorem filesFor (h : Groups m files) (store : StoreId) :
    m.filesFor store = filesOver files store := by
  unfold FileMap.filesFor
  rw [h store]
  split
  next hnil => exact hnil.symm
  · rfl

theorem insert (h : Groups m files) (file : FileId) : Groups (m.insert file) (files ++ [file]) := by
  intro store
  have hconcat := filesOver_concat files file store
  unfold FileMap.insert
  simp only [h.filesFor, mem_filesOver, and_true]
  by_cases hmem : file ∈ files
  · rw [if_neg fun hnew => hnew.2 hmem] at hconcat
    rw [if_pos hmem, hconcat, h store]
  · rw [if_neg hmem]
    simp only [OrderedMap.get?_insert]
    by_cases hstore : store = file.store
    · rw [if_pos ⟨hstore.symm, hmem⟩] at hconcat
      subst hstore
      rw [if_pos rfl, hconcat, if_neg (by simp)]
    · rw [if_neg fun hnew => hstore hnew.1.symm] at hconcat
      rw [if_neg hstore, hconcat, h store]

theorem insertAll (h : Groups m files) (more : List FileId) :
    Groups (m.insertAll more) (files ++ more) := by
  induction more generalizing m files with
  | nil =>
    rw [List.append_nil]
    exact h
  | cons file more ih =>
    rw [List.append_cons]
    exact ih (h.insert file)

/-- A list has one map. -/
theorem unique (h : Groups m files) (h' : Groups n files) : m = n := by
  obtain ⟨byStore⟩ := m
  obtain ⟨byStore'⟩ := n
  exact congrArg FileMap.mk (OrderedMap.ext_get? fun store => (h store).trans (h' store).symm)

theorem mem_stores_iff (h : Groups m files) (store : StoreId) :
    store ∈ m.stores ↔ ∃ file ∈ files, file.store = store := by
  have hfiles : filesOver files store = [] ↔ ¬ ∃ file ∈ files, file.store = store := by
    rw [filesOver_eq_nil_iff]
    simp only [ne_eq, not_exists, not_and]
  rw [stores, OrderedMap.mem_keys_iff, h store]
  by_cases hsome : ∃ file ∈ files, file.store = store
  · simp only [mt hfiles.mp (not_not_intro hsome), if_false, Option.isSome_some, hsome]
  · simp only [hfiles.mpr hsome, if_true, Option.isSome_none, hsome, Bool.false_eq_true]

theorem storeCount (h : Groups m files) :
    m.storeCount = (files.map (·.store)).eraseDups.length := by
  have hperm : m.stores.Perm (files.map (·.store)).eraseDups := by
    refine (List.perm_ext_iff_of_nodup m.byStore.keys_nodup (nodup_eraseDups _)).mpr fun store => ?_
    rw [List.mem_eraseDups, List.mem_map]
    exact h.mem_stores_iff store
  rw [← hperm.length_eq, stores, OrderedMap.keys, List.length_map]
  rfl

end Groups

theorem groups_empty : Groups empty [] := fun _ => rfl

theorem groups_ofList (files : List FileId) : Groups (ofList files) files :=
  groups_empty.insertAll files

/-! ## Steps -/

/-- What may be done to a map. -/
inductive Step where
  /-- Records one file. -/
  | insert (file : FileId)
  /-- Records the files of a list. -/
  | extend (files : List FileId)
  /-- Puts the map of a list in the place of what there was. -/
  | collect (files : List FileId)

namespace Step

/-- The map after a step. -/
def apply (m : FileMap) : Step → FileMap
  | .insert file => m.insert file
  | .extend files => (m.extend files).1
  | .collect files => ofList files

/-- The files that are recorded after a step. -/
def record (files : List FileId) : Step → List FileId
  | .insert file => files ++ [file]
  | .extend more => files ++ more
  | .collect anew => anew

theorem groups_apply {m : FileMap} {files : List FileId} (h : Groups m files) (step : Step) :
    Groups (step.apply m) (step.record files) := by
  cases step with
  | insert file => exact h.insert file
  | extend more => exact h.insertAll more
  | collect anew => exact groups_ofList anew

end Step

/-- The map after steps. -/
def run (m : FileMap) (steps : List Step) : FileMap := steps.foldl Step.apply m

/-- The files recorded in steps since the last time the map was collected. -/
def recorded (steps : List Step) : List FileId := steps.foldl Step.record []

theorem Groups.run {m : FileMap} {files : List FileId} (h : Groups m files) (steps : List Step) :
    Groups (m.run steps) (steps.foldl Step.record files) := by
  induction steps generalizing m files with
  | nil => exact h
  | cons step steps ih => exact ih (step.groups_apply h)

/-! ## The blobs of a list and back -/

theorem mem_filesForAll {m : FileMap} {stores : List StoreId} {file : FileId} :
    file ∈ m.filesForAll stores ↔ ∃ store ∈ stores, file ∈ m.filesFor store := List.mem_flatMap

/-- Over distinct blobs, no file is listed twice. -/
theorem Groups.nodup_filesForAll {m : FileMap} {files : List FileId} (h : Groups m files)
    {stores : List StoreId} (hstores : stores.Nodup) : (m.filesForAll stores).Nodup := by
  rw [filesForAll, List.nodup_flatMap]
  refine ⟨fun store _ => ?_, hstores.imp fun {a b} hne file ha hb => ?_⟩
  · rw [h.filesFor]
    exact nodup_eraseDups _
  · rw [h.filesFor, mem_filesOver] at ha hb
    exact hne (ha.2.symm.trans hb.2)

/-- What may be said of a map that stands for a list of files. -/
structure Faithful (m : FileMap) (files : List FileId) : Prop where
  /-- It is the map of the list. -/
  eq_ofList : m = ofList files
  /-- A blob has its files of the list in their order, each at its first occurrence. -/
  filesFor : ∀ store, m.filesFor store = (files.filter (·.store = store)).eraseDups
  filesForAll : ∀ stores, m.filesForAll stores
    = stores.flatMap fun store => (files.filter (·.store = store)).eraseDups
  increasing : m.stores.Pairwise fun a b => compare a b = .lt
  mem_stores : ∀ store, store ∈ m.stores ↔ ∃ file ∈ files, file.store = store
  storeCount : m.storeCount = (files.map (·.store)).eraseDups.length

theorem Groups.faithful {m : FileMap} {files : List FileId} (h : Groups m files) :
    Faithful m files where
  eq_ofList := h.unique (groups_ofList files)
  filesFor := h.filesFor
  filesForAll stores := congrArg stores.flatMap (funext h.filesFor)
  increasing := List.pairwise_map.mpr m.byStore.sorted
  mem_stores := h.mem_stores_iff
  storeCount := h.storeCount

/-- After any steps a map stands for the files recorded since it was last collected.  Whatever it
holds, a list of files is answered with its own blobs, and from an empty map these lead back to the
files of the list, each once. -/
theorem faithful_run (steps : List Step) :
    let m := empty.run steps
    Faithful m (recorded steps) ∧
      (∀ files, (m.extend files).2 = (files.map (·.store)).eraseDups ∧
        Faithful (m.extend files).1 (recorded steps ++ files)) ∧
      ∀ files,
        let listed := (empty.extend files).1.filesForAll (empty.extend files).2
        listed.Nodup ∧ ∀ file, file ∈ listed ↔ file ∈ files := by
  intro m
  have hrun : Groups m (recorded steps) := groups_empty.run steps
  refine ⟨hrun.faithful, fun files => ⟨distinct_eq_eraseDups _, (hrun.insertAll files).faithful⟩,
    fun files => ?_⟩
  have hfresh : Groups (empty.extend files).1 files := groups_ofList files
  have hstores : (empty.extend files).2 = (files.map (·.store)).eraseDups :=
    distinct_eq_eraseDups _
  simp only [hstores]
  refine ⟨hfresh.nodup_filesForAll (nodup_eraseDups _), fun file => ?_⟩
  simp only [mem_filesForAll, hfresh.filesFor, mem_filesOver, List.mem_eraseDups, List.mem_map]
  constructor
  · rintro ⟨_, _, hfile, _⟩
    exact hfile
  · intro hfile
    exact ⟨file.store, ⟨file, hfile, rfl⟩, hfile, rfl⟩

end FileMap

end ContentVault
