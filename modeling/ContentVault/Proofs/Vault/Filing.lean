import ContentVault.Proofs.Vault.Ledger
set_option autoImplicit false

/-!
# The files that the ledger tells of

Uploads, renames and removals are the only calls that change files.  After each of them the
committed files are those of the ledger, each under its own identifier and over a blob that
holds its content.
-/

namespace ContentVault.Vault

variable {σ : Type} {c c' : Contents} {history : List (Report σ)}

/-- The committed files are those that the history tells of. -/
structure Filed [Codec] (c : Contents) (history : List (Report σ)) : Prop where
  file?_iff : ∀ id file, c.file? id = some file ↔
    file.id = id ∧ ∃ data, (file, data) ∈ present history
  /-- The blob under each holds its content. -/
  held : ∀ file data, (file, data) ∈ present history → c.HoldsUnder file.id.store data
  distinct : ((present history).map (·.1.id)).Nodup
  issued : ∀ file data, (file, data) ∈ present history → Issued history file.id
  stamped : ∀ id, Issued history id → id.stamp ≠ []
  /-- Nothing was removed that had not been issued. -/
  removals : ∀ report ∈ history, ∀ id, report.Removes id → Issued history id

theorem issued_cons_iff (report : Report σ) (id : FileId) :
    Issued (report :: history) id ↔ report.issued? = some id ∨ Issued history id := by
  simp only [Issued, List.mem_cons, exists_eq_or_imp]

theorem issued_cons_of_none {report : Report σ} (hreport : report.issued? = none) (id : FileId) :
    Issued (report :: history) id ↔ Issued history id := by
  rw [issued_cons_iff, hreport]
  simp

namespace Filed

variable [Codec]

theorem empty : Filed .empty ([] : List (Report σ)) := by
  constructor
  case file?_iff =>
    intro id file
    constructor
    · intro h
      cases h
    · rintro ⟨_, data, h⟩
      cases h
  case held =>
    intro file data h
    cases h
  case distinct => exact List.nodup_nil
  case issued =>
    intro file data h
    cases h
  case stamped =>
    rintro id ⟨report, hreport, _⟩
    cases hreport
  case removals =>
    intro report hreport
    cases hreport

/-- A call that removes at most what was issued. -/
theorem removals_cons (h : Filed c history) {report : Report σ}
    (hreport : ∀ id, report.Removes id → Issued (report :: history) id) :
    ∀ old ∈ report :: history, ∀ id, old.Removes id → Issued (report :: history) id := by
  intro old hold id hremoves
  rcases List.mem_cons.mp hold with rfl | hold
  · exact hreport id hremoves
  · exact (issued_cons_iff report id).mpr (Or.inr (h.removals old hold id hremoves))

variable (h : Filed c history)
  (hgrows : ∀ id data, c.HoldsUnder id data → c'.HoldsUnder id data)

include h hgrows

/-- A call that leaves all files. -/
theorem same {report : Report σ} (hfile : c'.file? = c.file?)
    (hpresent : present (report :: history) = present history) (hissued : report.issued? = none)
    (hremoves : ∀ id, ¬ report.Removes id) : Filed c' (report :: history) := by
  constructor
  case file?_iff =>
    intro id file
    rw [hfile, hpresent]
    exact h.file?_iff id file
  case held =>
    intro file data hmem
    rw [hpresent] at hmem
    exact hgrows _ _ (h.held file data hmem)
  case distinct =>
    rw [hpresent]
    exact h.distinct
  case issued =>
    intro file data hmem
    rw [hpresent] at hmem
    exact (issued_cons_of_none hissued file.id).mpr (h.issued file data hmem)
  case stamped =>
    intro id hid
    exact h.stamped id ((issued_cons_of_none hissued id).mp hid)
  case removals => exact h.removals_cons fun id hid => absurd hid (hremoves id)

/-- An upload that names its content. -/
theorem uploaded {data : Bytes} {contentType : String} (done : Uploaded) {after : σ}
    (hfile : c'.file? = (c.putFile done.file).file?) (hnone : c.file? done.file.id = none)
    (hheld : c'.HoldsUnder done.file.id.store data) (hstamp : done.file.id.stamp ≠ []) :
    Filed c' (⟨.upload done.file.name done.file.owner data contentType, .ok done, after⟩
      :: history) := by
  let report : Report σ :=
    ⟨.upload done.file.name done.file.owner data contentType, .ok done, after⟩
  have hpresent : present (report :: history) = (done.file, data) :: present history := rfl
  have hnew : ∀ file data, (file, data) ∈ present history → file.id ≠ done.file.id := by
    intro file data hmem hid
    rw [(h.file?_iff done.file.id file).mpr ⟨hid, data, hmem⟩] at hnone
    cases hnone
  constructor
  case file?_iff =>
    intro id file
    rw [hfile, Contents.file?_putFile, hpresent]
    by_cases hid : id = done.file.id
    · rw [if_pos hid]
      constructor
      · intro heq
        cases heq
        exact ⟨hid.symm, data, List.mem_cons_self⟩
      · rintro ⟨hfileId, data', hmem⟩
        rcases List.mem_cons.mp hmem with heq | hmem
        · cases heq
          rfl
        · exact absurd (hfileId.trans hid) (hnew file data' hmem)
    · rw [if_neg hid, h.file?_iff]
      constructor
      · rintro ⟨hfileId, data', hmem⟩
        exact ⟨hfileId, data', List.mem_cons_of_mem _ hmem⟩
      · rintro ⟨hfileId, data', hmem⟩
        rcases List.mem_cons.mp hmem with heq | hmem
        · cases heq
          exact absurd hfileId.symm hid
        · exact ⟨hfileId, data', hmem⟩
  case held =>
    intro file data' hmem
    rcases List.mem_cons.mp hmem with heq | hmem
    · cases heq
      exact hheld
    · exact hgrows _ _ (h.held file data' hmem)
  case distinct =>
    rw [hpresent, List.map_cons, List.nodup_cons]
    refine ⟨fun hmem => ?_, h.distinct⟩
    obtain ⟨⟨file, data'⟩, hmem, hid⟩ := List.mem_map.mp hmem
    exact hnew file data' hmem hid
  case issued =>
    intro file data' hmem
    rw [issued_cons_iff]
    rcases List.mem_cons.mp hmem with heq | hmem
    · cases heq
      exact Or.inl rfl
    · exact Or.inr (h.issued file data' hmem)
  case stamped =>
    intro id hid
    rw [issued_cons_iff] at hid
    rcases hid with hid | hid
    · cases hid
      exact hstamp
    · exact h.stamped id hid
  case removals => exact h.removals_cons fun id hid => hid.elim

omit hgrows

/-- A file that gets another name. -/
theorem renamed {id : FileId} {name : String} {file : FileRecord} {after : σ}
    (hfile : c.file? id = some file) :
    Filed (c.putFile { file with name })
      (⟨.rename id name, .ok { file with name }, after⟩ :: history) := by
  let report : Report σ := ⟨.rename id name, .ok { file with name }, after⟩
  let change (f : FileRecord) : FileRecord := if f.id = id then { f with name } else f
  obtain ⟨hid, content, hcontent⟩ := (h.file?_iff id file).mp hfile
  have hpresent : present (report :: history)
      = (present history).map fun entry => (change entry.1, entry.2) := rfl
  have hchange : ∀ f, (change f).id = f.id := by
    intro f
    by_cases hf : f.id = id
    · simp only [change, hf, if_true]
    · simp only [change, hf, if_false]
  have hmem : ∀ f data, (f, data) ∈ present (report :: history) ↔
      ∃ g, (g, data) ∈ present history ∧ change g = f := by
    intro f data
    rw [hpresent]
    simp
  constructor
  case file?_iff =>
    intro id' f
    rw [Contents.file?_putFile]
    constructor
    · intro hfound
      by_cases hid' : id' = file.id
      · rw [if_pos hid'] at hfound
        cases hfound
        refine ⟨hid'.symm, content, (hmem _ content).mpr ⟨file, hcontent, ?_⟩⟩
        simp only [change, hid, if_true]
      · rw [if_neg hid', h.file?_iff] at hfound
        obtain ⟨hf, data, hdata⟩ := hfound
        refine ⟨hf, data, (hmem f data).mpr ⟨f, hdata, ?_⟩⟩
        have hother : ¬ f.id = id := fun heq => hid' (hf.symm.trans (heq.trans hid.symm))
        simp only [change, hother, if_false]
    · rintro ⟨hf, data, hdata⟩
      obtain ⟨g, hg, rfl⟩ := (hmem f data).mp hdata
      rw [hchange] at hf
      have hfound : c.file? g.id = some g := (h.file?_iff g.id g).mpr ⟨rfl, data, hg⟩
      by_cases hgid : g.id = id
      · rw [hgid, hfile] at hfound
        cases hfound
        rw [if_pos hf.symm]
        simp only [change, hgid, if_true]
      · have hother : ¬ id' = file.id := fun heq => hgid (hf.trans (heq.trans hid))
        rw [if_neg hother, ← hf, hfound]
        simp only [change, hgid, if_false]
  case held =>
    intro f data hf
    obtain ⟨g, hg, rfl⟩ := (hmem f data).mp hf
    rw [hchange]
    exact h.held g data hg
  case distinct =>
    have hids : (present (report :: history)).map (·.1.id) = (present history).map (·.1.id) := by
      rw [hpresent, List.map_map]
      exact List.map_congr_left fun e _ => hchange e.1
    rw [hids]
    exact h.distinct
  case issued =>
    intro f data hf
    obtain ⟨g, hg, rfl⟩ := (hmem f data).mp hf
    rw [hchange]
    exact (issued_cons_of_none rfl g.id).mpr (h.issued g data hg)
  case stamped =>
    intro id' hid'
    exact h.stamped id' ((issued_cons_of_none rfl id').mp hid')
  case removals => exact h.removals_cons fun id hid => hid.elim

/-- A file that is removed. -/
theorem removed {id : FileId} {file : FileRecord} {after : σ} (hfile : c.file? id = some file) :
    Filed (c.dropFile id) (⟨.remove id, .ok (), after⟩ :: history) := by
  let report : Report σ := ⟨.remove id, .ok (), after⟩
  have hpresent : present (report :: history)
      = (present history).filter fun entry => entry.1.id ≠ id := rfl
  have hmem : ∀ f data, (f, data) ∈ present (report :: history) ↔
      (f, data) ∈ present history ∧ f.id ≠ id := by
    intro f data
    rw [hpresent, List.mem_filter, decide_eq_true_iff]
  constructor
  case file?_iff =>
    intro id' f
    rw [Contents.file?_dropFile]
    by_cases hid : id' = id
    · rw [if_pos hid]
      constructor
      · intro hfound
        cases hfound
      · rintro ⟨hf, data, hdata⟩
        exact absurd (hf.trans hid) ((hmem f data).mp hdata).2
    · rw [if_neg hid, h.file?_iff]
      constructor
      · rintro ⟨hf, data, hdata⟩
        refine ⟨hf, data, (hmem f data).mpr ⟨hdata, ?_⟩⟩
        rwa [hf]
      · rintro ⟨hf, data, hdata⟩
        exact ⟨hf, data, ((hmem f data).mp hdata).1⟩
  case held =>
    intro f data hf
    exact h.held f data ((hmem f data).mp hf).1
  case distinct =>
    rw [hpresent]
    exact h.distinct.sublist (List.filter_sublist.map _)
  case issued =>
    intro f data hf
    exact (issued_cons_of_none rfl f.id).mpr (h.issued f data ((hmem f data).mp hf).1)
  case stamped =>
    intro id' hid'
    exact h.stamped id' ((issued_cons_of_none rfl id').mp hid')
  case removals =>
    refine h.removals_cons fun id' hid' => ?_
    obtain ⟨hid, data, hdata⟩ := (h.file?_iff id file).mp hfile
    change id = id' at hid'
    rw [← hid', ← hid]
    exact (issued_cons_of_none rfl file.id).mpr (h.issued file data hdata)

end Filed

end ContentVault.Vault
