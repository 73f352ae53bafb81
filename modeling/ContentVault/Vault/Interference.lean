import ContentVault.Vault.Basic
set_option autoImplicit false

/-!
# Interference with the backend of a vault

To see what a vault does when time passes, others write or the backend fails in the middle
of an operation, traps are set on the calls of its backend.  A trap is sprung by the first,
second, … or by every call of one kind, and acts before the call is carried out; it may
also answer in its place.
-/

namespace ContentVault

/-- The kinds of calls on which traps are set. -/
inductive CallKind where
  | claim
  | commit
  | release
  | fileClaim
  | fileCommit
  | fileRelease
  | getStore
  | matchHash
  | getFile
  | updateFile
  deriving DecidableEq, Repr

/-- The kind of a name. -/
def CallKind.ofName? : String → Option CallKind
  | "claim" => some .claim
  | "commit" => some .commit
  | "release" => some .release
  | "file_claim" => some .fileClaim
  | "file_commit" => some .fileCommit
  | "file_release" => some .fileRelease
  | "get_store" => some .getStore
  | "match_hash" => some .matchHash
  | "get_file" => some .getFile
  | "update_file" => some .updateFile
  | _ => none

namespace Request

/-- The kind of a call of the backend. -/
def callKind? {α : Type} : Request α → Option CallKind
  | .claimStore .. => some .claim
  | .commitStore .. => some .commit
  | .releaseStore .. => some .release
  | .claimFile .. => some .fileClaim
  | .commitFile .. => some .fileCommit
  | .releaseFile .. => some .fileRelease
  | .getStore .. => some .getStore
  | .matchHash .. => some .matchHash
  | .getFile .. => some .getFile
  | .updateFile .. => some .updateFile
  | _ => none

/-- The answer that a call fails. -/
def failure? (e : StoreError) : {α : Type} → Request α → Option α
  | _, .claimStore .. => some (.error e)
  | _, .commitStore .. => some (.error e)
  | _, .releaseStore .. => some (.error e)
  | _, .claimFile .. => some (.error e)
  | _, .commitFile .. => some (.error e)
  | _, .releaseFile .. => some (.error e)
  | _, .getStore .. => some (.error e)
  | _, .matchHash .. => some (.error e)
  | _, .getFile .. => some (.error e)
  | _, .updateFile .. => some (.error e)
  | _, _ => none

/-- The answer that an identifier is taken. -/
def denial? : {α : Type} → Request α → Option α
  | _, .claimStore .. => some (.ok false)
  | _, .claimFile .. => some (.ok false)
  | _, _ => none

end Request

/-! ## Planting records -/

/-- The lease under which a record is planted; it never lapses. -/
def plantingLease : Lease := ⟨7, UInt64.ofNat (UInt64.size - 1)⟩

/-- Writes a record straight into the backend; tells whether its identifier was free. -/
def World.plant {σ : Type} [Backend σ] (w : World σ) (record : ContentRecord) :
    Except StoreError Bool × World σ :=
  match w.onBackend (Backend.claimStore record.id plantingLease 0) with
  | (.ok true, w) =>
    let (done, s) := Backend.commitStore ⟨record.id, plantingLease⟩ record
      (⟨w.backend, .still 0⟩ : Clocked σ)
    (match done with
      | .error e => .error e
      | .ok () => .ok true, { w with backend := s.state })
  | (taken, w) => (taken, w)

/-! ## Traps -/

/-- What a trap does. -/
inductive TrapAction where
  /-- Moves the manual clock. -/
  | advance (span : Duration)
  /-- Lets time go by. -/
  | pause (span : Duration)
  | plant (record : ContentRecord)
  /-- Answers that the identifier is taken. -/
  | deny
  | fail (error : StoreError)
  deriving Repr

/-- Actions before the call number `nth` of a kind, counted from one; zero stands for every call. -/
structure Trap where
  kind : CallKind
  nth : Nat
  actions : List TrapAction
  deriving Repr

/-- The trap is sprung by the call number `count` of a kind. -/
def Trap.isSprung (t : Trap) (kind : CallKind) (count : Nat) : Bool :=
  t.kind == kind && (t.nth == 0 || t.nth == count)

/-- A world with traps, and the calls so far. -/
structure TrappedWorld (σ : Type) where
  world : World σ
  traps : List Trap
  calls : List CallKind := []

namespace TrappedWorld

variable {σ : Type} [Backend σ]

/-- Carries out actions up to the first failure; a denial answers once all are carried out. -/
def act {α : Type} (r : Request α) (denied? : Option α) :
    List TrapAction → World σ → Option α × World σ
  | [], w => (denied?, w)
  | .advance span :: rest, w => act r denied? rest (w.advance span)
  | .pause span :: rest, w => act r denied? rest (w.pause span)
  | .plant record :: rest, w => act r denied? rest (w.plant record).2
  | .deny :: rest, w => act r r.denial? rest w
  | .fail e :: rest, w =>
    match r.failure? e with
    | some a => (some a, w)
    | none => act r denied? rest w

/-- Springs the traps of a call; the answer is that of a trap, if one answers. -/
def spring {α : Type} (t : TrappedWorld σ) (r : Request α) : Option α × TrappedWorld σ :=
  match r.callKind? with
  | none => (none, t)
  | some kind =>
    let calls := kind :: t.calls
    let sprung := t.traps.filter fun trap => trap.isSprung kind (calls.count kind)
    let (answer?, world) := act r none (sprung.flatMap (·.actions)) t.world
    (answer?, { t with world, calls })

/-- Answers a request after springing its traps. -/
def answer : Answers Request (TrappedWorld σ) := fun r t =>
  match t.spring r with
  | (some a, t) => (a, t)
  | (none, t) =>
    let (a, world) := World.answer r t.world
    (a, { t with world })

end TrappedWorld

/-- Runs a procedure with traps set. -/
def World.runTrapped {σ α : Type} [Backend σ] (w : World σ) (traps : List Trap) (p : Procedure α) :
    α × World σ :=
  let (a, t) := p.run TrappedWorld.answer (⟨w, traps, []⟩ : TrappedWorld σ)
  (a, t.world)

end ContentVault
