import ContentVault.Store.Chunked.Content
set_option autoImplicit false

/-!
# Clients side by side

Any number of clients use one chunked store.  A call is carried out step by step, every
step is one operation on one collection, and any steps of others may fall between two of
its own.  The clock shows at each step whatever it likes, so a lease may lapse, and come to
life again, at any moment; a client that is not heard of any more is one that takes no
more steps.
-/

namespace ContentVault.Interleaving

/-- What a client may ask of a chunked store.  A commit may write its chunks in any number of lanes,
and so in any order. -/
inductive Call : Type → Type where
  | claim (id : StoreId) (lease : Lease) (now : UInt64) : Call (Except StoreError Bool)
  | commit (lanes : UInt64) (schedule : List Nat) (r : Reservation StoreId)
      (record : ContentRecord) : Call (Except StoreError Unit)
  | release (r : Reservation StoreId) : Call (Except StoreError Bool)
  | getStore (id : StoreId) : Call (Except StoreError (Option ContentRecord))
  | matchHash (hash : UInt32) : Call (Except StoreError (List ContentRecord))
  | updateStatus (id : StoreId) (status : Status) : Call (Except StoreError Unit)

/-- A blob and the token under which chunks of it are written. -/
abbrev Owner := StoreId × UInt64

namespace Call

/-- The steps of a call. -/
def program (config : ChunkedConfig) : {α : Type} → Call α → ChunkedStore.Client α
  | _, .claim id lease now => ChunkedStore.claim id lease now
  | _, .commit lanes schedule r record =>
    ChunkedStore.commit { config with writeParallelism := lanes } schedule r record
  | _, .release r => ChunkedStore.release r
  | _, .getStore id => ChunkedStore.getStore id
  | _, .matchHash hash => ChunkedStore.matchHash hash
  | _, .updateStatus id status => ChunkedStore.updateStatus id status

/-- Whose chunks a call writes. -/
def owner? : {α : Type} → Call α → Option Owner
  | _, .commit _ _ r _ => some (r.id, r.lease.token)
  | _, _ => none

/-- The payload that a call made the committed one of an identifier, if it did. -/
def win? (id : StoreId) : {α : Type} → Call α → α → Option ContentRecord
  | _, .commit _ _ r record, .ok () => if r.id = id then some record else none
  | _, _, _ => none

/-- The records that a call read. -/
def records : {α : Type} → Call α → α → List ContentRecord
  | _, .getStore _, .ok (some record) => [record]
  | _, .matchHash _, .ok records => records
  | _, _, _ => []

/-- A read looks for the record of an identifier. -/
def Covers (id : StoreId) : {α : Type} → Call α → Prop
  | _, .getStore id' => id = id'
  | _, .matchHash hash => id.hash = hash
  | _, _ => False

end Call

/-- A call under way: the step that it takes next, and how it goes on. -/
structure Party where
  {α β : Type}
  call : Call α
  request : Atomic (Clocked ChunkedStore) β
  next : β → ChunkedStore.Client α

/-- A call that was carried out, with its answer. -/
structure Outcome where
  {α : Type}
  call : Call α
  answer : α

/-- A store, the calls under way, and those that were carried out, the latest first. -/
structure System where
  store : ChunkedStore
  parties : List Party
  history : List Outcome

/-- What may happen next: a client starts a call, or a call takes a step. -/
inductive Action where
  | start {α : Type} (call : Call α)
  | step (party : Nat) (clock : Clock)

/-- The payloads that successful commits of an identifier left, the latest first. -/
def winners (id : StoreId) (history : List Outcome) : List ContentRecord :=
  history.filterMap fun o => o.call.win? id o.answer

namespace System

/-- A store without documents that nobody uses. -/
def initial (config : ChunkedConfig) : System := ⟨.empty config, [], []⟩

/-- Nobody writes chunks under the owner. -/
def isFree (s : System) (owner : Owner) : Bool :=
  s.parties.all fun party => party.call.owner? != some owner

/-- Puts down how far a call has come. -/
def settle (s : System) {α : Type} (call : Call α) : ChunkedStore.Client α → System
  | .done answer => { s with history := ⟨call, answer⟩ :: s.history }
  | .ask request next => { s with parties := ⟨call, request, next⟩ :: s.parties }

/-- Starts a call; a reservation is driven by one commit at a time. -/
def start (s : System) {α : Type} (call : Call α) : System :=
  if call.owner?.all s.isFree then s.settle call (call.program s.store.config) else s

/-- Lets a call under way take its next step. -/
def step (s : System) (i : Nat) (clock : Clock) : System :=
  match s.parties[i]? with
  | none => s
  | some party =>
    let (answer, after) := party.request ⟨s.store, clock⟩
    ({ s with store := after.state, parties := s.parties.eraseIdx i } : System).settle party.call
      (party.next answer)

/-- Lets one thing happen. -/
def act (s : System) : Action → System
  | .start call => s.start call
  | .step i clock => s.step i clock

/-- Lets things happen one after the other. -/
def run (s : System) (actions : List Action) : System := actions.foldl act s

/-- Everything that may happen to a store without documents. -/
def reached (config : ChunkedConfig) (actions : List Action) : System :=
  (initial config).run actions

/-- A property of systems that every step keeps holds after every run. -/
theorem run_induct {P : System → Prop} (hact : ∀ s action, P s → P (s.act action)) {s : System}
    (hs : P s) (actions : List Action) : P (s.run actions) := by
  induction actions generalizing s with
  | nil => exact hs
  | cons action actions ih => exact ih (hact s action hs)

end System

end ContentVault.Interleaving
