import ContentVault.Proofs.Concurrent.FileClients
import ContentVault.Proofs.Store.Contents
set_option autoImplicit false

/-!
# Renaming amid others

Clients of the naming layer run side by side over one backend, and a log is kept of what they read
and wrote.  Every committed file is an upload that was once made under its identifier, whatever its
name by now.  It is the latest such upload, unless that one was inserted while a client was between
reading the file and writing it back under another name: then the rename restores the former one.
-/

namespace ContentVault

/-! ## The log -/

/-- What clients did to committed files, the latest first. -/
abbrev FileLog (ι : Type) := List (ι × FileEvent)

/-- The file that was inserted, if it was inserted under the identifier. -/
def FileEvent.insertedUnder? (id : FileId) : FileEvent → Option FileRecord
  | inserted file => if file.id = id then some file else none
  | _ => none

namespace FileLog

variable {ι : Type} [DecidableEq ι]

/-- The log with one entry more, if anything was done. -/
def note (log : FileLog ι) (i : ι) : Option FileEvent → FileLog ι
  | none => log
  | some event => (i, event) :: log

/-- The file that was last inserted under an identifier. -/
def lastInserted? (id : FileId) (log : FileLog ι) : Option FileRecord :=
  log.findSome? (·.2.insertedUnder? id)

/-- Since the latest insertion under the identifier, no rename of the file was disturbed by one:
none came between the rename and the last time before that its client did anything, which was when
it read the file. -/
def Undisturbed (id : FileId) : FileLog ι → Prop
  | [] => True
  | (_, .inserted file) :: log => file.id = id ∨ Undisturbed id log
  | (i, .renamed file) :: log =>
    (file.id = id → ∀ entry ∈ log.takeWhile (·.1 != i), entry.2.insertedUnder? id = none) ∧
      Undisturbed id log
  | (_, .read _) :: log => Undisturbed id log

instance Undisturbed.decidable (id : FileId) : (log : FileLog ι) → Decidable (Undisturbed id log)
  | [] => .isTrue trivial
  | (_, .inserted _) :: log =>
    have := decidable id log
    inferInstanceAs (Decidable (_ ∨ _))
  | (_, .renamed _) :: log =>
    have := decidable id log
    inferInstanceAs (Decidable (_ ∧ _))
  | (_, .read _) :: log => decidable id log

/-- The file is an upload that was made under its identifier, and the latest one if the renames
since then were undisturbed. -/
structure Traces (log : FileLog ι) (file : FileRecord) : Prop where
  uploaded : ∃ i upload, (i, .inserted upload) ∈ log ∧ file.SameUpload upload
  latest : log.Undisturbed file.id →
    ∃ upload, log.lastInserted? file.id = some upload ∧ file.SameUpload upload

/-- The latest entry of the client is a read of the file, which was traced at the time. -/
def Awaits (log : FileLog ι) (i : ι) (file : FileRecord) : Prop :=
  ∃ between earlier, log = between ++ (i, .read file) :: earlier ∧
    (∀ entry ∈ between, entry.1 ≠ i) ∧ Traces earlier file

variable {log : FileLog ι} {id : FileId} {file : FileRecord}

theorem Undisturbed.of_append {later : FileLog ι} (h : Undisturbed id (later ++ log))
    (hlater : ∀ entry ∈ later, entry.2.insertedUnder? id = none) : log.Undisturbed id := by
  induction later with
  | nil => exact h
  | cons entry later ih =>
    rw [List.forall_mem_cons] at hlater
    obtain ⟨hentry, hlater⟩ := hlater
    obtain ⟨i, event⟩ := entry
    cases event with
    | read file => exact ih h hlater
    | renamed file => exact ih h.2 hlater
    | inserted file =>
      rcases h with hid | h
      · rw [FileEvent.insertedUnder?, if_pos hid] at hentry
        cases hentry
      · exact ih h hlater

omit [DecidableEq ι] in
theorem lastInserted?_append {later : FileLog ι}
    (h : ∀ entry ∈ later, entry.2.insertedUnder? id = none) :
    lastInserted? id (later ++ log) = log.lastInserted? id := by
  rw [lastInserted?, List.findSome?_append, List.findSome?_eq_none_iff.mpr h, Option.none_or]
  rfl

/-- What is noted later and is no insertion of the file leaves its upload where it is. -/
theorem Traces.append {later : FileLog ι} (h : log.Traces file)
    (hlater : ∀ entry ∈ later, entry.2.insertedUnder? file.id = none) :
    Traces (later ++ log) file := by
  obtain ⟨i, upload, hmem, hsame⟩ := h.uploaded
  refine ⟨⟨i, upload, List.mem_append_right later hmem, hsame⟩, fun hundisturbed => ?_⟩
  rw [lastInserted?_append hlater]
  exact h.latest (hundisturbed.of_append hlater)

theorem Traces.cons (h : log.Traces file) {i : ι} {event : FileEvent}
    (hevent : event.insertedUnder? file.id = none) : Traces ((i, event) :: log) file := by
  have hall : ∀ entry ∈ [(i, event)], entry.2.insertedUnder? file.id = none :=
    List.forall_mem_singleton.mpr hevent
  exact h.append hall

/-- An insertion is what it leads back to. -/
theorem traces_inserted (i : ι) (file : FileRecord) :
    Traces ((i, .inserted file) :: log) file := by
  refine ⟨⟨i, file, List.mem_cons_self, .refl file⟩, fun _ => ⟨file, ?_, .refl file⟩⟩
  rw [lastInserted?, List.findSome?_cons, FileEvent.insertedUnder?, if_pos rfl]

/-- What a client writes over a file that it has read is traced like the file. -/
theorem Awaits.traces_renamed {i : ι} (h : log.Awaits i file) {written : FileRecord}
    (hsame : written.SameUpload file) : Traces ((i, .renamed written) :: log) written := by
  obtain ⟨between, earlier, rfl, hothers, htraces⟩ := h
  refine ⟨?_, fun hundisturbed => ?_⟩
  · obtain ⟨j, upload, hmem, hupload⟩ := htraces.uploaded
    refine ⟨j, upload, ?_, hsame.trans hupload⟩
    exact List.mem_cons_of_mem _ (List.mem_append_right between (List.mem_cons_of_mem _ hmem))
  · -- Nothing was inserted since the read, so the latest upload is that of the read.
    have hsince : (between ++ (i, .read file) :: earlier).takeWhile (·.1 != i) = between := by
      rw [List.takeWhile_append_of_pos (by simpa using hothers),
        List.takeWhile_cons_of_neg (by simp), List.append_nil]
    have hbetween := hundisturbed.1 rfl
    rw [hsince] at hbetween
    have hlast : lastInserted? written.id
        ((i, .renamed written) :: (between ++ (i, .read file) :: earlier))
          = lastInserted? written.id earlier := lastInserted?_append hbetween
    have hearlier : Undisturbed written.id earlier := hundisturbed.2.of_append hbetween
    rw [hsame.id_eq] at hearlier
    obtain ⟨upload, hupload, hsame'⟩ := htraces.latest hearlier
    refine ⟨upload, ?_, hsame.trans hsame'⟩
    rw [hlast, hsame.id_eq, hupload]

theorem Awaits.note {i j : ι} (h : log.Awaits i file) (hne : j ≠ i) (event? : Option FileEvent) :
    (log.note j event?).Awaits i file := by
  cases event? with
  | none => exact h
  | some event =>
    obtain ⟨between, earlier, rfl, hothers, htraces⟩ := h
    refine ⟨(j, event) :: between, earlier, rfl, fun entry hentry => ?_, htraces⟩
    rcases List.mem_cons.mp hentry with rfl | hentry
    · exact hne
    · exact hothers entry hentry

end FileLog

/-! ## What a request does to the files -/

/-- What becomes of the committed files, by what is logged of a request. -/
inductive FileEffect (c : Contents) (overwrites? : Option FileRecord) :
    Option FileEvent → Contents → Prop where
  /-- What is not logged puts no file anywhere. -/
  | unseen {c' : Contents} (h : ∀ id file, c'.file? id = some file → c.file? id = some file) :
    FileEffect c overwrites? none c'
  | read {id : FileId} {file : FileRecord} (h : c.file? id = some file) :
    FileEffect c overwrites? (some (.read file)) c
  | inserted (file : FileRecord) : FileEffect c overwrites? (some (.inserted file)) (c.putFile file)
  | renamed (file : FileRecord) (h : overwrites? = some file) :
    FileEffect c overwrites? (some (.renamed file)) (c.putFile file)

section

variable {σ : Type} [Backend σ] [FileBackend σ] {w : World σ} {c : Contents}

/-- A request that does not go to the backend reads and writes no file. -/
theorem Request.fileEvent?_of_isLocal {β : Type} {request : Request β} (h : request.IsLocal)
    (answer : β) : request.fileEvent? answer = none := by
  cases request with
  | _ => first | rfl | exact h.elim

/-- A change that fails is not logged and does nothing. -/
theorem Changes.fileEffect {c c' : Contents} {possible : Prop} {out : Except StoreError Unit × σ}
    (h : Changes c c' possible out) {overwrites? : Option FileRecord}
    (event? : Except StoreError Unit → Option FileEvent) (hfailed : ∀ e, event? (.error e) = none)
    (hdone : FileEffect c overwrites? (event? (.ok ())) c') :
    ∃ after, Keeps out.2 after ∧ FileEffect c overwrites? (event? out.1) after := by
  rcases h.ends with ⟨e, hout, hkeeps⟩ | ⟨hout, _, hkeeps⟩
  · rw [hout, hfailed]
    exact ⟨c, hkeeps, .unseen fun _ _ hfile => hfile⟩
  · rw [hout]
    exact ⟨c', hkeeps, hdone⟩

/-- Whatever is asked for is logged, or adds and changes no file. -/
theorem World.fileEffect (h : Keeps w.backend c) {β : Type} {request : Request β}
    (hfiles : request.IsOnFiles) :
    ∃ c', Keeps (World.answer request w).2.backend c' ∧
      FileEffect c request.overwrites? (request.fileEvent? (World.answer request w).1) c' := by
  have hunseen : FileEffect c request.overwrites? none c := .unseen fun _ _ hfile => hfile
  by_cases hlocal : request.IsLocal
  · refine ⟨c, ?_, ?_⟩
    · rw [World.backend_answer hlocal]
      exact h
    · rw [Request.fileEvent?_of_isLocal hlocal]
      exact hunseen
  cases request with
  | claimFile id lease now => exact ⟨c, h.claimFile id lease now, hunseen⟩
  | releaseFile r => exact ⟨c, h.releaseFile r, hunseen⟩
  | commitFile kind r file =>
    obtain ⟨clock', out, hcommit, hchanges⟩ := h.commitFile r file (w.clock kind)
    have hanswer : (World.answer (.commitFile kind r file) w).1 = out.1 ∧
        (World.answer (.commitFile kind r file) w).2.backend = out.2 := World.onClocked_eq hcommit
    rw [hanswer.1, hanswer.2]
    exact hchanges.fileEffect (Request.commitFile kind r file).fileEvent? (fun _ => rfl)
      (.inserted file)
  | updateFile file =>
    exact (h.updateFile file).fileEffect (Request.updateFile file).fileEvent? (fun _ => rfl)
      (.renamed file rfl)
  | removeFile id =>
    refine (h.removeFile id).fileEffect (fun _ => none) (fun _ => rfl)
      (.unseen fun id' file hfile => ?_)
    rw [Contents.file?_dropFile] at hfile
    split at hfile
    · cases hfile
    · exact hfile
  | getFile id =>
    change ∃ c', Keeps (Backend.getFile id w.backend).2 c' ∧
      FileEffect c none ((Request.getFile id).fileEvent? (Backend.getFile id w.backend).1) c'
    rw [h.getFile]
    refine ⟨c, h, ?_⟩
    cases hfile : c.file? id with
    | none => exact hunseen
    | some file => exact .read hfile
  | filesForStore store =>
    obtain ⟨files, hread, _⟩ := h.filesForStore store
    change ∃ c', Keeps (Backend.filesForStore store w.backend).2 c' ∧ FileEffect c none none c'
    rw [hread]
    exact ⟨c, h, hunseen⟩
  | _ => exact absurd hfiles hlocal

end

namespace FileEffect

variable {ι : Type} [DecidableEq ι] {log : FileLog ι} {i : ι} {c c' : Contents}
  {overwrites? : Option FileRecord} {event? : Option FileEvent}

/-- Files stay under their identifiers. -/
theorem keyed (h : FileEffect c overwrites? event? c')
    (hkeyed : ∀ id file, c.file? id = some file → file.id = id) (id : FileId) (file : FileRecord)
    (hfile : c'.file? id = some file) : file.id = id := by
  have hput : ∀ new : FileRecord, (c.putFile new).file? id = some file → file.id = id := by
    intro new hnew
    rw [Contents.file?_putFile] at hnew
    split at hnew
    next hid =>
      cases hnew
      exact hid.symm
    · exact hkeyed id file hnew
  cases h with
  | unseen hsame => exact hkeyed id file (hsame id file hfile)
  | read _ => exact hkeyed id file hfile
  | inserted new => exact hput new hfile
  | renamed new _ => exact hput new hfile

/-- Files stay traced, if what is written over another file is something that was just read. -/
theorem traced (h : FileEffect c overwrites? event? c')
    (hkeyed : ∀ id file, c.file? id = some file → file.id = id)
    (htraced : ∀ id file, c.file? id = some file → log.Traces file)
    (hwritten : ∀ file, overwrites? = some file → ∃ old, log.Awaits i old ∧ file.SameUpload old)
    (id : FileId) (file : FileRecord) (hfile : c'.file? id = some file) :
    (log.note i event?).Traces file := by
  cases h with
  | unseen hsame => exact htraced id file (hsame id file hfile)
  | read _ => exact (htraced id file hfile).cons rfl
  | inserted new =>
    rw [Contents.file?_putFile] at hfile
    split at hfile
    next hid =>
      cases hfile
      exact FileLog.traces_inserted i file
    next hid =>
      refine (htraced id file hfile).cons (if_neg ?_)
      rw [hkeyed id file hfile]
      exact Ne.symm hid
  | renamed new hnew =>
    rw [Contents.file?_putFile] at hfile
    split at hfile
    next hid =>
      cases hfile
      obtain ⟨old, hawaits, hsame⟩ := hwritten file hnew
      exact hawaits.traces_renamed hsame
    next hid => exact (htraced id file hfile).cons rfl

/-- Whoever has just read a file awaits it. -/
theorem awaits (h : FileEffect c overwrites? event? c')
    (htraced : ∀ id file, c.file? id = some file → log.Traces file) {file : FileRecord}
    (hread : event?.bind FileEvent.read? = some file) : (log.note i event?).Awaits i file := by
  cases h with
  | unseen _ => cases hread
  | inserted _ => cases hread
  | renamed _ _ => cases hread
  | read hfile =>
    cases hread
    exact ⟨[], log, rfl, by simp, htraced _ file hfile⟩

end FileEffect

/-! ## Clients under way -/

/-- What the next step of a member will do to a committed file. -/
def Crowd.event? {σ ι α : Type} [Backend σ] (c : Crowd σ ι α) (i : ι) (around : World Unit) :
    Option FileEvent :=
  match c.members i with
  | .done _ => none
  | .ask request _ =>
    if (c.world around).blocks request then none
    else request.fileEvent? (World.answer request (c.world around)).1

/-- Procedures under way over one backend, and what they have done to committed files. -/
structure LoggedCrowd (σ ι α : Type) where
  crowd : Crowd σ ι α
  log : FileLog ι := []

namespace LoggedCrowd

variable {σ ι α : Type}

/-- Every client is about to begin. -/
def start (backend : σ) (clients : ι → FileClient α) : LoggedCrowd σ ι α :=
  ⟨.start backend fun i => (clients i).procedure, []⟩

variable [DecidableEq ι] [Backend σ]

/-- One step of a member, with what it does to a committed file. -/
def step (l : LoggedCrowd σ ι α) (i : ι) (around : World Unit) : LoggedCrowd σ ι α :=
  ⟨l.crowd.step i around, l.log.note i (l.crowd.event? i around)⟩

/-- Steps one after the other. -/
def run (l : LoggedCrowd σ ι α) (steps : List (ι × World Unit)) : LoggedCrowd σ ι α :=
  steps.foldl (fun l next => l.step next.1 next.2) l

/-- A step does nothing, or answers a request and logs it. -/
theorem step_cases (l : LoggedCrowd σ ι α) (i : ι) (around : World Unit) :
    (l.step i around = l ∧ l.crowd.event? i around = none) ∨
    ∃ (β : Type) (request : Request β) (next : β → Procedure α),
      l.crowd.members i = .ask request next ∧
      let out := World.answer request (l.crowd.world around)
      l.crowd.event? i around = request.fileEvent? out.1 ∧
      l.step i around = ⟨l.crowd.answered i next out, l.log.note i (request.fileEvent? out.1)⟩ := by
  unfold step Crowd.event? Crowd.step
  cases l.crowd.members i with
  | done a => exact Or.inl ⟨rfl, rfl⟩
  | ask request next =>
    dsimp only
    cases (l.crowd.world around).blocks request with
    | true => exact Or.inl ⟨rfl, rfl⟩
    | false => exact Or.inr ⟨_, request, next, rfl, rfl, rfl⟩

/-- What clients can rely on, whoever inserts, renames and removes files beside them. -/
structure KeepsUploads (l : LoggedCrowd σ ι α) : Prop where
  /-- A file is an upload under its identifier, and the latest one if the renames since then were
  undisturbed. -/
  traced : ∀ id file, (Backend.getFile id l.crowd.backend).1 = .ok (some file) →
    file.id = id ∧ l.log.Traces file
  /-- A rename that succeeds has put its file in place. -/
  renamed : ∀ i around file, l.crowd.event? i around = some (.renamed file) →
    (Backend.getFile file.id (l.step i around).crowd.backend).1 = .ok (some file)

/-- The backend keeps files under their identifiers, each of them traced, and whoever is about to
write a file back has just read it. -/
structure Orderly (l : LoggedCrowd σ ι α) [FileBackend σ] (c : Contents) : Prop where
  keeps : Keeps l.crowd.backend c
  keyed : ∀ id file, c.file? id = some file → file.id = id
  traced : ∀ id file, c.file? id = some file → l.log.Traces file
  awaited : ∀ i, ∃ read?, WritesBack read? (l.crowd.members i) ∧
    ∀ file, read? = some file → l.log.Awaits i file

variable [FileBackend σ] {l : LoggedCrowd σ ι α} {c : Contents}

theorem orderly_start {b : σ} (h : Keeps b .empty) (clients : ι → FileClient α) :
    (start b clients).Orderly .empty := by
  refine ⟨h, fun id file hfile => ?_, fun id file hfile => ?_, fun i => ?_⟩
  · cases hfile
  · cases hfile
  · exact ⟨none, WritesBack.client (clients i), fun file hfile => by cases hfile⟩

/-- A step keeps the order, and what it logs as written over a file is in the file's place. -/
theorem Orderly.step (h : l.Orderly c) (i : ι) (around : World Unit) :
    ∃ c', (l.step i around).Orderly c' ∧
      ∀ file, l.crowd.event? i around = some (.renamed file) → c'.file? file.id = some file := by
  rcases l.step_cases i around with ⟨hsame, hnone⟩ | ⟨β, request, next, hmember, hevent, hstep⟩
  · rw [hsame, hnone]
    exact ⟨c, h, fun file hfile => by cases hfile⟩
  · obtain ⟨read?, hwrites, hread⟩ := h.awaited i
    rw [hmember] at hwrites
    obtain ⟨hfiles, hoverwrites, hnext⟩ := hwrites
    obtain ⟨c', hkeeps, heffect⟩ :=
      World.fileEffect (w := l.crowd.world around) h.keeps hfiles
    have hwritten : ∀ file, request.overwrites? = some file →
        ∃ old, l.log.Awaits i old ∧ file.SameUpload old := by
      intro file hfile
      obtain ⟨old, hold, hsame⟩ := hoverwrites file hfile
      exact ⟨old, hread old hold, hsame⟩
    rw [hstep, hevent]
    refine ⟨c', ⟨hkeeps, heffect.keyed h.keyed, heffect.traced h.keyed h.traced hwritten,
      fun j => ?_⟩, fun file hfile => ?_⟩
    · by_cases hji : j = i
      · subst hji
        rw [l.crowd.members_answered_self]
        exact ⟨_, hnext _, fun file hfile => heffect.awaits h.traced hfile⟩
      · rw [l.crowd.members_answered_of_ne i next _ hji]
        obtain ⟨read?', hwrites', hread'⟩ := h.awaited j
        exact ⟨read?', hwrites', fun file hfile => (hread' file hfile).note (Ne.symm hji) _⟩
    · rw [hfile] at heffect
      cases heffect with
      | renamed _ _ => rw [Contents.file?_putFile, if_pos rfl]

/-- The order is kept all along. -/
theorem Orderly.run (h : l.Orderly c) (steps : List (ι × World Unit)) :
    ∃ c', (l.run steps).Orderly c' := by
  induction steps generalizing l c with
  | nil => exact ⟨c, h⟩
  | cons next steps ih =>
    obtain ⟨c', h', _⟩ := h.step next.1 next.2
    exact ih h'

theorem Orderly.keepsUploads (h : l.Orderly c) : l.KeepsUploads := by
  constructor
  case traced =>
    intro id file hfile
    rw [h.keeps.getFile] at hfile
    have hcommitted := Except.ok.inj hfile
    exact ⟨h.keyed id file hcommitted, h.traced id file hcommitted⟩
  case renamed =>
    intro i around file hevent
    obtain ⟨c', h', hwritten⟩ := h.step i around
    rw [h'.keeps.getFile, hwritten file hevent]

end LoggedCrowd

/-- Over either backend, however the steps of any clients of the naming layer fall and whatever the
clocks show, a rename leaves the file the upload that it is: always one that was made under its
identifier, and the latest of them unless that one was inserted between a rename and its read. -/
theorem renames_keep_uploads {ι α : Type} [DecidableEq ι] (clients : ι → FileClient α)
    (steps : List (ι × World Unit)) :
    ((LoggedCrowd.start MemoryStore.empty clients).run steps).KeepsUploads ∧
    ∀ config b, ChunkedStore.create config = .ok b →
      ((LoggedCrowd.start b clients).run steps).KeepsUploads := by
  refine ⟨?_, fun config b hcreate => ?_⟩
  · obtain ⟨c, h⟩ := (LoggedCrowd.orderly_start
      (MemoryStore.keeps_contents .empty) clients).run steps
    exact h.keepsUploads
  · obtain ⟨rfl, husable⟩ := ChunkedStore.usable_of_create hcreate
    have hempty : Keeps (ChunkedStore.empty config) .empty :=
      ⟨.empty, ⟨husable, _, ChunkedStore.represents_empty config⟩, rfl⟩
    obtain ⟨c, h⟩ := (LoggedCrowd.orderly_start hempty clients).run steps
    exact h.keepsUploads

/-- A file is uploaded and renamed, over slots in memory and over a chunked store; while it is
renamed, another one is uploaded. -/
theorem renames_keep_uploads_of_draft :
    let index : FileIndex := ⟨⟨.standard, .manual⟩⟩
    let draft : FileId := ⟨⟨7, 9⟩, [0]⟩
    let photo : FileId := ⟨⟨7, 9⟩, [1]⟩
    let clients (i : Fin 2) : FileClient Unit :=
      if i = 0 then do
        FileClient.upload index draft "draft.txt" "alice"
        let _ ← Program.request (FileCall.rename draft "final.txt")
      else FileClient.upload index photo "photo.png" "bob"
    let around : World Unit := {
      backend := (), manual := .still 0, system := .still 0, timer := 0, tokens := ⟨fun _ => 1, 0⟩,
      stamps := ⟨fun _ => 0, 0⟩, stampBytes := ⟨fun _ => 0, 0⟩, jitters := ⟨fun _ => 0, 0⟩,
      today := default }
    let turns (i : Fin 2) (count : Nat) : List (Fin 2 × World Unit) := .replicate count (i, around)
    let steps := turns 0 7 ++ turns 1 6 ++ turns 0 1
    let config : ChunkedConfig := ⟨8, 128, 2⟩
    let crowd := (LoggedCrowd.start MemoryStore.empty clients).run steps
    let chunked := (LoggedCrowd.start (ChunkedStore.empty config) clients).run steps
    let final : FileRecord := ⟨draft, "final.txt", "alice", default⟩
    ChunkedStore.create config = .ok (.empty config) ∧
      crowd.KeepsUploads ∧ chunked.KeepsUploads ∧ crowd.log.Undisturbed draft ∧
      crowd.log = chunked.log ∧ crowd.log.head? = some (0, .renamed final) ∧
      (Backend.getFile draft crowd.crowd.backend).1 = .ok (some final) := by
  intro index draft photo clients around turns steps config crowd chunked final
  obtain ⟨hmemory, hchunked⟩ := renames_keep_uploads clients steps
  have hcreate : ChunkedStore.create config = .ok (.empty config) := rfl
  exact ⟨hcreate, hmemory, hchunked config _ hcreate, by decide +kernel, by decide +kernel,
    by decide +kernel, by decide +kernel⟩

/-- A client is renaming a file when another one removes it and inserts its own under the same
identifier: the rename puts the first owner and time of upload back. -/
theorem exists_rename_that_restores :
    ∃ (clients : Fin 2 → FileClient Unit) (steps : List (Fin 2 × World Unit)) (around : World Unit)
      (file last : FileRecord),
      let l := (LoggedCrowd.start MemoryStore.empty clients).run steps
      l.crowd.event? 0 around = some (.renamed file) ∧
        (Backend.getFile file.id (l.step 0 around).crowd.backend).1 = .ok (some file) ∧
        (l.step 0 around).log.lastInserted? file.id = some last ∧
        last.owner ≠ file.owner ∧ last.uploadedAt ≠ file.uploadedAt := by
  let index : FileIndex := ⟨⟨.standard, .manual⟩⟩
  let id : FileId := ⟨⟨7, 9⟩, [0]⟩
  let clients (i : Fin 2) : FileClient Unit :=
    if i = 0 then do
      let _ ← Program.request (FileCall.rename id "final.txt")
    else do
      FileClient.upload index id "draft.txt" "alice"
      let _ ← Program.request (FileCall.remove id)
      FileClient.upload index id "photo.png" "bob"
  let around (today : Timestamp) : World Unit := {
    backend := (), manual := .still 0, system := .still 0, timer := 0, tokens := ⟨fun _ => 1, 0⟩,
    stamps := ⟨fun _ => 0, 0⟩, stampBytes := ⟨fun _ => 0, 0⟩, jitters := ⟨fun _ => 0, 0⟩, today }
  let turns (i : Fin 2) (count : Nat) (today : Timestamp) : List (Fin 2 × World Unit) :=
    .replicate count (i, around today)
  refine ⟨clients, turns 1 6 ⟨1, 0⟩ ++ turns 0 1 ⟨1, 0⟩ ++ turns 1 7 ⟨2, 0⟩, around ⟨2, 0⟩,
    ⟨id, "final.txt", "alice", ⟨1, 0⟩⟩, ⟨id, "photo.png", "bob", ⟨2, 0⟩⟩, ?_⟩
  decide +kernel

end ContentVault
