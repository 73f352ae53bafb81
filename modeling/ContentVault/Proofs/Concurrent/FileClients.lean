import ContentVault.Proofs.Concurrent.Crowd
import ContentVault.Proofs.Vault.Reserving
import ContentVault.Vault.FileIndex
set_option autoImplicit false

/-!
# Clients of the naming layer

A client makes calls, each chosen after the answers to those before.  All that a client ever writes
over a committed file is a file that it has just read, under another name.  What clients read and
write is logged.
-/

namespace ContentVault

/-- A call to the naming layer, by the type of its answer. -/
inductive FileCall : Type → Type where
  | candidate (store : StoreId) : FileCall FileId
  | reserve (index : FileIndex) (candidate : FileId) (deadline : Deadline) :
    FileCall (Except VaultError (Reservation FileId))
  | insert (index : FileIndex) (r : Reservation FileId) (name owner : String) :
    FileCall (Except VaultError FileRecord)
  | release (r : Reservation FileId) : FileCall (Except VaultError Bool)
  | get (id : FileId) : FileCall (Except VaultError FileRecord)
  | rename (id : FileId) (name : String) : FileCall (Except VaultError FileRecord)
  | remove (id : FileId) : FileCall (Except VaultError Unit)
  | filesForStore (store : StoreId) : FileCall (Except VaultError (List FileRecord))

/-- What a call does. -/
def FileCall.procedure : {α : Type} → FileCall α → Procedure α
  | _, .candidate store => FileIndex.candidate store
  | _, .reserve index id deadline => index.reserve id deadline
  | _, .insert index r name owner => index.insert r name owner
  | _, .release r => FileIndex.release r
  | _, .get id => FileIndex.get id
  | _, .rename id name => FileIndex.rename id name
  | _, .remove id => FileIndex.remove id
  | _, .filesForStore store => FileIndex.filesForStore store

/-- Calls, each chosen after the answers to those before. -/
abbrev FileClient (α : Type) := Program FileCall α

/-- What a client does. -/
def FileClient.procedure {α : Type} : FileClient α → Procedure α
  | .done a => .done a
  | .ask call next => call.procedure >>= fun answer => FileClient.procedure (next answer)

/-- Reserves an identifier and inserts a file under it. -/
def FileClient.upload (index : FileIndex) (id : FileId) (name owner : String) :
    FileClient Unit := do
  match ← Program.request (.reserve index id .never) with
  | .error _ => return ()
  | .ok r => let _ ← Program.request (.insert index r name owner)

/-- The files are one upload: they differ in their names at most. -/
structure FileRecord.SameUpload (f g : FileRecord) : Prop where
  id_eq : f.id = g.id
  owner_eq : f.owner = g.owner
  uploadedAt_eq : f.uploadedAt = g.uploadedAt

theorem FileRecord.SameUpload.refl (f : FileRecord) : f.SameUpload f := ⟨rfl, rfl, rfl⟩

theorem FileRecord.SameUpload.trans {f g h : FileRecord} (hfg : f.SameUpload g)
    (hgh : g.SameUpload h) : f.SameUpload h :=
  ⟨hfg.id_eq.trans hgh.id_eq, hfg.owner_eq.trans hgh.owner_eq,
    hfg.uploadedAt_eq.trans hgh.uploadedAt_eq⟩

/-! ## What is logged -/

/-- Something that was done to a committed file. -/
inductive FileEvent where
  | read (file : FileRecord)
  | inserted (file : FileRecord)
  | renamed (file : FileRecord)
  deriving DecidableEq, Repr

namespace Request

/-- What a request with its answer did to a committed file. -/
def fileEvent? : {α : Type} → Request α → α → Option FileEvent
  | _, .getFile _, .ok (some file) => some (.read file)
  | _, .commitFile _ _ file, .ok () => some (.inserted file)
  | _, .updateFile file, .ok () => some (.renamed file)
  | _, _, _ => none

/-- The request is about files, or does not go to the backend. -/
def IsOnFiles : {α : Type} → Request α → Prop
  | _, .claimFile .. | _, .commitFile .. | _, .releaseFile _ | _, .getFile _ | _, .updateFile _
  | _, .removeFile _ | _, .filesForStore _ => True
  | _, r => r.IsLocal

/-- The file that the request writes over a committed one. -/
def overwrites? : {α : Type} → Request α → Option FileRecord
  | _, .updateFile file => some file
  | _, _ => none

end Request

/-- The file that was read, if that is what was done. -/
def FileEvent.read? : FileEvent → Option FileRecord
  | read file => some file
  | _ => none

/-! ## Writing back what was read -/

/-- The procedure is about files.  Right after each read, and at no other time, it may write the
file back that it read, under another name; here `read?` is what the request before has read. -/
def WritesBack {α : Type} : Option FileRecord → Procedure α → Prop
  | _, .done _ => True
  | read?, .ask request next =>
    request.IsOnFiles ∧
    (∀ file, request.overwrites? = some file → ∃ old, read? = some old ∧ file.SameUpload old) ∧
    ∀ answer, WritesBack ((request.fileEvent? answer).bind FileEvent.read?) (next answer)

namespace WritesBack

variable {α β : Type} {read? : Option FileRecord}

/-- One request that overwrites nothing. -/
theorem ask (request : Request α) (hfiles : request.IsOnFiles)
    (hnone : request.overwrites? = none) : WritesBack read? (ask request) := by
  refine ⟨hfiles, fun file hfile => ?_, fun _ => trivial⟩
  rw [hnone] at hfile
  cases hfile

theorem bind {p : Procedure α} {f : α → Procedure β} (hp : WritesBack read? p)
    (hf : ∀ a read?, WritesBack read? (f a)) : WritesBack read? (p >>= f) := by
  induction p generalizing read? with
  | done a => exact hf a read?
  | ask request next ih => exact ⟨hp.1, hp.2.1, fun answer => ih answer (hp.2.2 answer)⟩

theorem of_isLocal {p : Procedure α} (h : IsLocal p) : WritesBack read? p := by
  induction p generalizing read? with
  | done a => trivial
  | ask request next ih =>
    have hlocal : request.IsOnFiles ∧ request.overwrites? = none := by
      have hrequest := h.1
      cases request with
      | _ => first | exact ⟨hrequest, rfl⟩ | exact hrequest.elim
    refine ⟨hlocal.1, fun file hfile => ?_, fun answer => ih answer (h.2 answer)⟩
    rw [hlocal.2] at hfile
    cases hfile

/-- A rename reads the file first. -/
theorem rename (id : FileId) (name : String) : WritesBack read? (FileIndex.rename id name) := by
  refine ⟨trivial, fun file hfile => ?_, fun answer => ?_⟩
  · cases hfile
  · rcases answer with e | _ | file
    · trivial
    · trivial
    · refine ⟨trivial, fun written hwritten => ⟨file, rfl, ?_⟩, fun _ => trivial⟩
      cases hwritten
      exact ⟨rfl, rfl, rfl⟩

theorem attempts (r : Reserver) (candidate : FileId) (deadline : Deadline) (remaining count : Nat)
    (id : FileId) : WritesBack read? (r.attempts candidate deadline remaining count id) := by
  induction remaining generalizing count id read? with
  | zero => trivial
  | succ remaining ih =>
    unfold Reserver.attempts
    refine (of_isLocal (isLocal_passed deadline)).bind fun passed read? => ?_
    cases passed with
    | true => trivial
    | false =>
      have hattempt : WritesBack read? (r.attempt id) := by
        rw [Reserver.attempt_eq]
        refine (of_isLocal r.isLocal_draw).bind fun drawn read? => ?_
        exact (ask (.claimFile id drawn.2 drawn.1) trivial rfl).bind fun _ _ => trivial
      refine hattempt.bind fun answer read? => ?_
      rcases answer with e | _ | reservation
      · trivial
      · refine (of_isLocal (SlotClaim.isLocal_next id)).bind fun id' read? => ?_
        exact (of_isLocal (Reserver.isLocal_backoff r.policy count)).bind fun _ read? =>
          ih (count + 1) id'
      · trivial

/-- A request that overwrites nothing, and what is made of its answer. -/
theorem ask_then (request : Request α) (hfiles : request.IsOnFiles)
    (hnone : request.overwrites? = none) (f : α → β) :
    WritesBack read? (ContentVault.ask request >>= fun answer => pure (f answer)) :=
  (ask request hfiles hnone).bind fun _ _ => trivial

theorem call (c : FileCall α) : WritesBack read? c.procedure := by
  cases c with
  | candidate store => exact ask_then .stampByte trivial rfl _
  | reserve index id deadline =>
    exact WritesBack.bind (attempts index.reserver id deadline _ 0 id) fun _ _ => trivial
  | insert index r name owner =>
    refine WritesBack.bind (ask .today trivial rfl) fun today _ => ?_
    refine WritesBack.bind (ask (.commitFile ..) trivial rfl) fun done _ => ?_
    cases done with
    | error e => trivial
    | ok _ => trivial
  | release r => exact ask_then (.releaseFile r) trivial rfl _
  | get id => exact ask_then (.getFile id) trivial rfl _
  | rename id name => exact WritesBack.rename id name
  | remove id => exact ask_then (.removeFile id) trivial rfl _
  | filesForStore store => exact ask_then (.filesForStore store) trivial rfl _

/-- Whatever a client calls, it writes back only what it has just read. -/
theorem client (c : FileClient α) : WritesBack read? (FileClient.procedure c) := by
  induction c generalizing read? with
  | done a => trivial
  | ask c next ih => exact (call c).bind fun answer _ => ih answer

end WritesBack

end ContentVault
