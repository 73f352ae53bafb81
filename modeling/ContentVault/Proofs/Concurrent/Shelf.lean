import ContentVault.Proofs.Concurrent.Crowd
import ContentVault.Proofs.Store.Records
import ContentVault.Vault.ContentStore
set_option autoImplicit false

/-!
# Procedures that share a shelf of blobs

What ingests see of each other is the blobs that are committed, and who committed them.  A
procedure is careful if, whatever others do while it is outside, and whatever they do to other
stripes while it holds the lock of its own, it commits only under its lock, only what is not there
yet, and only under an identifier of its stripe.
-/

namespace ContentVault

open ContentStore (stripe)

/-- The committed blobs, and who committed them, as far as somebody did since the start. -/
structure Shelf (ι : Type) where
  record? : StoreId → Option ContentRecord
  author? : StoreId → Option ι

namespace Shelf

variable {ι : Type}

/-- The shelf after a commit. -/
def add (x : Shelf ι) (record : ContentRecord) (author : ι) : Shelf ι :=
  ⟨Function.update x.record? record.id (some record),
    Function.update x.author? record.id (some author)⟩

theorem record?_add (x : Shelf ι) (record : ContentRecord) (author : ι) (id : StoreId) :
    (x.add record author).record? id = if id = record.id then some record else x.record? id :=
  Function.update_apply _ _ _ _

@[simp] theorem author?_add_self (x : Shelf ι) (record : ContentRecord) (author : ι) :
    (x.add record author).author? record.id = some author := Function.update_self _ _ _

/-- Every blob is kept under its own identifier, which is of the checksum of its content, and no
content is kept twice. -/
structure Sound [Codec] (checksum : Bytes → UInt32) (x : Shelf ι) : Prop where
  known : ∀ id record, x.record? id = some record → record.id = id ∧
    ∃ data, record.decompressed = .ok data ∧ id.hash = checksum data
  apart : ∀ id id' record record' data, x.record? id = some record →
    x.record? id' = some record' → record.decompressed = .ok data →
    record'.decompressed = .ok data → id = id'

/-- No blob of the content is committed. -/
def Lacks [Codec] (x : Shelf ι) (data : Bytes) : Prop :=
  ∀ id record, x.record? id = some record → record.decompressed ≠ .ok data

/-- A sound shelf stays sound when content is committed that it lacks. -/
theorem Sound.add [Codec] {checksum : Bytes → UInt32} {x : Shelf ι} (h : x.Sound checksum)
    {record : ContentRecord} {data : Bytes} (hdata : record.decompressed = .ok data)
    (hhash : record.id.hash = checksum data) (hlacks : x.Lacks data) (author : ι) :
    (x.add record author).Sound checksum := by
  have hcases : ∀ id record', (x.add record author).record? id = some record' →
      (id = record.id ∧ record' = record) ∨ x.record? id = some record' := by
    intro id record' hrecord'
    rw [record?_add] at hrecord'
    by_cases hid : id = record.id
    · rw [if_pos hid] at hrecord'
      exact Or.inl ⟨hid, (Option.some.inj hrecord').symm⟩
    · rw [if_neg hid] at hrecord'
      exact Or.inr hrecord'
  refine ⟨fun id record' hrecord' => ?_, ?_⟩
  · rcases hcases id record' hrecord' with ⟨rfl, rfl⟩ | hold
    · exact ⟨rfl, data, hdata, hhash⟩
    · exact h.known id record' hold
  · intro id id' record₁ record₂ data' hrecord₁ hrecord₂ hdata₁ hdata₂
    rcases hcases id record₁ hrecord₁ with ⟨rfl, rfl⟩ | hold₁
    · rcases hcases id' record₂ hrecord₂ with ⟨rfl, rfl⟩ | hold₂
      · rfl
      · cases hdata.symm.trans hdata₁
        exact absurd hdata₂ (hlacks id' record₂ hold₂)
    · rcases hcases id' record₂ hrecord₂ with ⟨rfl, rfl⟩ | hold₂
      · cases hdata.symm.trans hdata₂
        exact absurd hdata₁ (hlacks id record₁ hold₁)
      · exact h.apart id id' record₁ record₂ data' hold₁ hold₂ hdata₁ hdata₂

/-! ## What others may do -/

/-- Blobs that are committed stay what they are, with their authors. -/
def Grows (x y : Shelf ι) : Prop :=
  ∀ id, (x.record? id).isSome → y.record? id = x.record? id ∧ y.author? id = x.author? id

/-- What the others may do: add blobs, but none to the stripe of a lock that somebody else
holds. -/
structure Rely (lock : Nat) (inside : Bool) (x y : Shelf ι) : Prop where
  grows : Grows x y
  still : inside = true → ∀ id, stripe id.hash = lock → y.record? id = x.record? id

theorem Grows.refl (x : Shelf ι) : Grows x x := fun _ _ => ⟨rfl, rfl⟩

theorem Grows.record?_eq {x y : Shelf ι} (h : Grows x y) {id : StoreId} {record : ContentRecord}
    (hrecord : x.record? id = some record) : y.record? id = some record := by
  have hsome : (x.record? id).isSome = true := by rw [hrecord]; rfl
  exact (h id hsome).1.trans hrecord

theorem Grows.trans {x y z : Shelf ι} (h : Grows x y) (h' : Grows y z) : Grows x z := by
  intro id hid
  obtain ⟨hrecord, hauthor⟩ := h id hid
  obtain ⟨hrecord', hauthor'⟩ := h' id (hrecord ▸ hid)
  exact ⟨hrecord'.trans hrecord, hauthor'.trans hauthor⟩

theorem Rely.refl (lock : Nat) (inside : Bool) (x : Shelf ι) : Rely lock inside x x :=
  ⟨.refl x, fun _ _ _ => rfl⟩

theorem Rely.trans {lock : Nat} {inside : Bool} {x y z : Shelf ι} (h : Rely lock inside x y)
    (h' : Rely lock inside y z) : Rely lock inside x z :=
  ⟨h.grows.trans h'.grows, fun hin id hid => (h'.still hin id hid).trans (h.still hin id hid)⟩

/-- A commit adds a blob. -/
theorem grows_add {x : Shelf ι} {record : ContentRecord} (hnone : x.record? record.id = none)
    (author : ι) : Grows x (x.add record author) := by
  intro id hid
  have hne : id ≠ record.id := by
    rintro rfl
    rw [hnone] at hid
    cases hid
  exact ⟨Function.update_of_ne hne _ _, Function.update_of_ne hne _ _⟩

/-- A commit to one stripe may be relied on by those who hold the lock of another. -/
theorem rely_add {x : Shelf ι} {record : ContentRecord} (hnone : x.record? record.id = none)
    (author : ι) {lock : Nat} {inside : Bool}
    (hother : inside = true → stripe record.id.hash ≠ lock) :
    Rely lock inside x (x.add record author) := by
  refine ⟨grows_add hnone author, fun hin id hid => Function.update_of_ne ?_ _ _⟩
  rintro rfl
  exact hother hin hid

end Shelf

/-! ## Careful procedures -/

/-- Whatever it is answered, the request leaves the committed blobs and the locks as they are. -/
def Request.IsQuiet : {α : Type} → Request α → Prop
  | _, .readClock _ | _, .readTimer | _, .pause _ | _, .jitter .. | _, .leaseToken
  | _, .seedStamp | _, .claimStore .. | _, .releaseStore _ => True
  | _, _ => False

variable [Codec]

/-- The procedure of `author`, who takes the lock `lock` and no other one, is careful from the shelf
`x` on, be it inside or outside, and ends with `post`. -/
inductive Careful {ι : Type} (checksum : Bytes → UInt32) (author : ι) (lock : Nat) {α : Type}
    (post : α → Bool → Shelf ι → Prop) : Bool → Shelf ι → Procedure α → Prop where
  | done {inside : Bool} {x : Shelf ι} {a : α}
    (h : ∀ y, y.Sound checksum → Shelf.Rely lock inside x y → post a inside y) :
    Careful checksum author lock post inside x (.done a)
  | quiet {inside : Bool} {x : Shelf ι} {β : Type} (request : Request β)
    {next : β → Procedure α} (hquiet : request.IsQuiet)
    (h : ∀ answer, Careful checksum author lock post inside x (next answer)) :
    Careful checksum author lock post inside x (.ask request next)
  | enter {x : Shelf ι} {next : Unit → Procedure α}
    (h : ∀ y, y.Sound checksum → Shelf.Rely lock false x y →
      Careful checksum author lock post true y (next ())) :
    Careful checksum author lock post false x (.ask (.enter lock) next)
  | leave {x : Shelf ι} {next : Unit → Procedure α}
    (h : ∀ y, y.Sound checksum → Shelf.Rely lock true x y →
      Careful checksum author lock post false y (next ())) :
    Careful checksum author lock post true x (.ask (.leave lock) next)
  /-- The committed blobs of a checksum are listed. -/
  | matchHash {inside : Bool} {x : Shelf ι} {hash : UInt32}
    {next : Except StoreError (List ContentRecord) → Procedure α}
    (h : ∀ y, y.Sound checksum → Shelf.Rely lock inside x y → ∀ records : List ContentRecord,
      (∀ record, record ∈ records ↔ ∃ id, id.hash = hash ∧ y.record? id = some record) →
      Careful checksum author lock post inside y (next (.ok records))) :
    Careful checksum author lock post inside x (.ask (.matchHash hash) next)
  /-- A commit that succeeds leaves the shelf sound. -/
  | commit {x : Shelf ι} {kind : ClockKind} {r : Reservation StoreId} {record : ContentRecord}
    {next : Except StoreError Unit → Procedure α}
    (hlength : record.content.length < UInt64.size) (hlock : stripe record.id.hash = lock)
    (hfailed : ∀ y, y.Sound checksum → Shelf.Rely lock true x y → ∀ e,
      Careful checksum author lock post true y (next (.error e)))
    (hsound : ∀ y, y.Sound checksum → Shelf.Rely lock true x y → y.record? record.id = none →
      (y.add record author).Sound checksum)
    (hstored : ∀ y, y.Sound checksum → Shelf.Rely lock true x y → y.record? record.id = none →
      Careful checksum author lock post true (y.add record author) (next (.ok ()))) :
    Careful checksum author lock post true x (.ask (.commitStore kind r record) next)

namespace Careful

variable {ι : Type} {checksum : Bytes → UInt32} {author : ι} {lock : Nat} {α β : Type}

/-- A procedure that waits for its next answer stays careful whatever the others do. -/
theorem rely {post : α → Bool → Shelf ι → Prop} {inside : Bool} {x y : Shelf ι} {p : Procedure α}
    (h : Careful checksum author lock post inside x p) (hxy : Shelf.Rely lock inside x y) :
    Careful checksum author lock post inside y p := by
  induction h generalizing y with
  | done h => exact .done fun z hz hyz => h z hz (hxy.trans hyz)
  | quiet request hquiet _ ih => exact .quiet request hquiet fun answer => ih answer hxy
  | enter h => exact .enter fun z hz hyz => h z hz (hxy.trans hyz)
  | leave h => exact .leave fun z hz hyz => h z hz (hxy.trans hyz)
  | matchHash h => exact .matchHash fun z hz hyz => h z hz (hxy.trans hyz)
  | commit hlength hlock hfailed hsound hstored =>
    exact .commit hlength hlock (fun z hz hyz => hfailed z hz (hxy.trans hyz))
      (fun z hz hyz => hsound z hz (hxy.trans hyz)) fun z hz hyz => hstored z hz (hxy.trans hyz)

theorem bind {post : β → Bool → Shelf ι → Prop} {inside : Bool} {x : Shelf ι} {p : Procedure α}
    {f : α → Procedure β} (hx : x.Sound checksum)
    (h : Careful checksum author lock
      (fun a inside y => Careful checksum author lock post inside y (f a)) inside x p) :
    Careful checksum author lock post inside x (p >>= f) := by
  induction h with
  | done h => exact h _ hx (.refl _ _ _)
  | quiet request hquiet _ ih => exact .quiet request hquiet fun answer => ih answer hx
  | enter _ ih => exact .enter fun y hy hxy => ih y hy hxy hy
  | leave _ ih => exact .leave fun y hy hxy => ih y hy hxy hy
  | matchHash _ ih =>
    exact .matchHash fun y hy hxy records hrecords => ih y hy hxy records hrecords hy
  | commit hlength hlock _ hsound _ ihfailed ihstored =>
    exact .commit hlength hlock (fun y hy hxy e => ihfailed y hy hxy e hy) hsound
      fun y hy hxy hnone => ihstored y hy hxy hnone (hsound y hy hxy hnone)

theorem weaken {post post' : α → Bool → Shelf ι → Prop} {inside : Bool} {x : Shelf ι}
    {p : Procedure α} (h : Careful checksum author lock post inside x p)
    (himp : ∀ a inside y, y.Sound checksum → post a inside y → post' a inside y) :
    Careful checksum author lock post' inside x p := by
  induction h with
  | done h => exact .done fun y hy hxy => himp _ _ y hy (h y hy hxy)
  | quiet request hquiet _ ih => exact .quiet request hquiet ih
  | enter _ ih => exact .enter ih
  | leave _ ih => exact .leave ih
  | matchHash _ ih => exact .matchHash ih
  | commit hlength hlock _ hsound _ ihfailed ihstored =>
    exact .commit hlength hlock ihfailed hsound ihstored

end Careful

end ContentVault
