import ContentVault.Store.Backend
set_option autoImplicit false

/-!
# Others at work during a commit

Between two steps of a commit, other clients may claim, commit or release the same
identifier.  Each of them is a client with a clock of its own; what comes of its work is
its own affair.
-/

namespace ContentVault.ChunkedStore

/-- One piece of work of another client. -/
inductive Racer where
  | claim (id : StoreId) (lease : Lease) (now : UInt64)
  | commit (r : Reservation StoreId) (record : ContentRecord) (now : UInt64)
  | release (r : Reservation StoreId)
  deriving Repr

namespace Racer

/-- Does the work from beginning to end. -/
def act (s : ChunkedStore) : Racer → ChunkedStore
  | .claim id lease now => (Backend.claimStore id lease now s).2
  | .commit r record now => (Backend.commitStore r record (⟨s, .still now⟩ : Clocked _)).2.state
  | .release r => (Backend.releaseStore r s).2

/-- Does several pieces of work one after the other. -/
def actAll (racers : List Racer) (s : ChunkedStore) : ChunkedStore := racers.foldl act s

end Racer

/-- The step of a commit at which the clock is looked at first, when the document was read and no
chunk is written. -/
def firstReading : Nat := 1

/-- Commits a record while others do their work at the step of the first reading. -/
def commitAmid (racers : List Racer) (r : Reservation StoreId) (record : ContentRecord) :
    Atomic (Clocked ChunkedStore) (Except StoreError Unit) := fun s =>
  let meddle (step : Nat) (s : Clocked ChunkedStore) : Clocked ChunkedStore :=
    if step = firstReading then { s with state := Racer.actAll racers s.state } else s
  (commit s.state.config [] r record).runAmid Program.perform meddle 0 s

end ContentVault.ChunkedStore
