import ContentVault.Store.Backend
import ContentVault.Time.Deadline
import ContentVault.Time.Timestamp
set_option autoImplicit false

/-!
# What a vault asks of its surroundings

A vault runs over a backend, two wall clocks, a steady timer that deadlines are compared
with, sources of tokens and stamps, and locks that keep ingests of one checksum apart.
Everything it does is a program of requests to these, each of which is answered in one
indivisible step; the world of this module answers them.
-/

namespace ContentVault

/-- One request, by the type of its answer. -/
inductive Request : Type → Type where
  /-- Looks at a wall clock. -/
  | readClock (clock : ClockKind) : Request UInt64
  /-- Looks at the steady timer. -/
  | readTimer : Request Instant
  /-- Lets time go by. -/
  | pause (span : Duration) : Request Unit
  /-- A number from `low` to `high`. -/
  | jitter (low high : Nat) : Request Nat
  /-- A lease token. -/
  | leaseToken : Request UInt64
  /-- The stamp of a fresh candidate for a blob. -/
  | seedStamp : Request UInt16
  /-- One more stamp byte for a file. -/
  | stampByte : Request UInt8
  /-- The time of day, for upload times. -/
  | today : Request Timestamp
  /-- Takes the lock of a stripe; waits while it is taken. -/
  | enter (stripe : Nat) : Request Unit
  /-- Gives the lock of a stripe back. -/
  | leave (stripe : Nat) : Request Unit
  | claimStore (id : StoreId) (lease : Lease) (now : UInt64) : Request (Except StoreError Bool)
  | commitStore (clock : ClockKind) (r : Reservation StoreId) (record : ContentRecord) :
      Request (Except StoreError Unit)
  | releaseStore (r : Reservation StoreId) : Request (Except StoreError Bool)
  | getStore (id : StoreId) : Request (Except StoreError (Option ContentRecord))
  | matchHash (hash : UInt32) : Request (Except StoreError (List ContentRecord))
  | updateStatus (id : StoreId) (status : Status) : Request (Except StoreError Unit)
  | claimFile (id : FileId) (lease : Lease) (now : UInt64) : Request (Except StoreError Bool)
  | commitFile (clock : ClockKind) (r : Reservation FileId) (record : FileRecord) :
      Request (Except StoreError Unit)
  | releaseFile (r : Reservation FileId) : Request (Except StoreError Bool)
  | getFile (id : FileId) : Request (Except StoreError (Option FileRecord))
  | updateFile (record : FileRecord) : Request (Except StoreError Unit)
  | removeFile (id : FileId) : Request (Except StoreError Unit)
  | filesForStore (store : StoreId) : Request (Except StoreError (List FileRecord))

/-- A program of requests. -/
abbrev Procedure (α : Type) := Program Request α

/-- Puts one request. -/
abbrev ask {α : Type} (r : Request α) : Procedure α := .request r

/-- Tells whether a deadline has passed. -/
def Deadline.passed (d : Deadline) : Procedure Bool := do
  return d.isExpired (← ask .readTimer)

/-! ## The world that answers -/

/-- A source of values, of which some are drawn already. -/
structure Supply (α : Type) where
  item : Nat → α
  drawn : Nat := 0

/-- Draws the next value. -/
def Supply.draw {α : Type} (s : Supply α) : α × Supply α :=
  (s.item s.drawn, { s with drawn := s.drawn + 1 })

/-- A backend and everything else that a vault runs over. -/
structure World (σ : Type) where
  backend : σ
  /-- The clock that moves only when told to. -/
  manual : Clock
  /-- The clock of the machine. -/
  system : Clock
  timer : Instant
  tokens : Supply UInt64
  stamps : Supply UInt16
  stampBytes : Supply UInt8
  jitters : Supply Nat
  today : Timestamp
  /-- The stripes whose locks are taken. -/
  locked : List Nat := []

namespace World

variable {σ : Type}

/-- The wall clock of a kind. -/
def clock (w : World σ) : ClockKind → Clock
  | .manual => w.manual
  | .system => w.system

/-- The world with another reading of a wall clock. -/
def setClock (w : World σ) (kind : ClockKind) (c : Clock) : World σ :=
  match kind with
  | .manual => { w with manual := c }
  | .system => { w with system := c }

/-- Moves the manual clock forward. -/
def advance (w : World σ) (span : Duration) : World σ := { w with manual := w.manual.advance span }

/-- Lets time go by: the machine's clock and the timer move. -/
def pause (w : World σ) (span : Duration) : World σ :=
  { w with system := w.system.advance span, timer := w.timer + span.nanos }

/-- Carries out an action of the backend. -/
def onBackend {α : Type} (w : World σ) (action : Atomic σ α) : α × World σ :=
  let (a, backend) := action w.backend
  (a, { w with backend })

/-- Carries out an action of the backend that looks at a wall clock. -/
def onClocked {α : Type} (w : World σ) (kind : ClockKind) (action : Atomic (Clocked σ) α) :
    α × World σ :=
  let (a, s) := action ⟨w.backend, w.clock kind⟩
  (a, { w with backend := s.state }.setClock kind s.clock)

/-- The request has to wait. -/
def blocks {α : Type} (w : World σ) : Request α → Bool
  | .enter stripe => w.locked.contains stripe
  | _ => false

variable [Backend σ]

/-- Answers a request; a lock that is asked for is taken. -/
def answer : Answers Request (World σ)
  | _, .readClock kind, w =>
    let (now, c) := (w.clock kind).read
    (now, w.setClock kind c)
  | _, .readTimer, w => (w.timer, w)
  | _, .pause span, w => ((), w.pause span)
  | _, .jitter low high, w =>
    let (n, jitters) := w.jitters.draw
    (low + n % (high + 1 - low), { w with jitters })
  | _, .leaseToken, w =>
    let (token, tokens) := w.tokens.draw
    (token, { w with tokens })
  | _, .seedStamp, w =>
    let (stamp, stamps) := w.stamps.draw
    (stamp, { w with stamps })
  | _, .stampByte, w =>
    let (byte, stampBytes) := w.stampBytes.draw
    (byte, { w with stampBytes })
  | _, .today, w => (w.today, w)
  | _, .enter stripe, w => ((), { w with locked := stripe :: w.locked })
  | _, .leave stripe, w => ((), { w with locked := w.locked.erase stripe })
  | _, .claimStore id lease now, w => w.onBackend (Backend.claimStore id lease now)
  | _, .commitStore kind r record, w => w.onClocked kind (Backend.commitStore r record)
  | _, .releaseStore r, w => w.onBackend (Backend.releaseStore r)
  | _, .getStore id, w => w.onBackend (Backend.getStore id)
  | _, .matchHash hash, w => w.onBackend (Backend.matchHash hash)
  | _, .updateStatus id status, w => w.onBackend (Backend.updateStatus id status)
  | _, .claimFile id lease now, w => w.onBackend (Backend.claimFile id lease now)
  | _, .commitFile kind r record, w => w.onClocked kind (Backend.commitFile r record)
  | _, .releaseFile r, w => w.onBackend (Backend.releaseFile r)
  | _, .getFile id, w => w.onBackend (Backend.getFile id)
  | _, .updateFile record, w => w.onBackend (Backend.updateFile record)
  | _, .removeFile id, w => w.onBackend (Backend.removeFile id)
  | _, .filesForStore store, w => w.onBackend (Backend.filesForStore store)

/-- Runs a procedure alone. -/
def run {α : Type} (w : World σ) (p : Procedure α) : α × World σ := p.run answer w

end World

end ContentVault
