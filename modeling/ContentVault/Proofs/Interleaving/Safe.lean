import ContentVault.Proofs.Content.Pieces
import ContentVault.Proofs.Interleaving.System
import ContentVault.Proofs.Store.Reads
set_option autoImplicit false

/-!
# Programs that keep a store sound while others meddle

What is seen of a store is completed by a record of authors: whoever has chunks in the store
wrote them for one draft.  A program is safe if every step of it keeps the store sound and
leaves the drafts of others alone, whatever others, who do likewise, did since its step
before.
-/

namespace ContentVault.Interleaving

/-! ## Drafts and views -/

/-- A payload and the pieces into which it is cut. -/
structure Draft where
  record : ContentRecord
  size : Nat
  pieces : List Chunk
  cut : Chunk.IsCut record.content size pieces

/-- The description fits the draft. -/
structure Draft.Describes (d : Draft) (m : StoreMeta) : Prop where
  contentType : m.contentType = d.record.contentType
  fileSize : m.fileSize = d.record.fileSize
  chunkCount : m.chunkCount.toNat = d.pieces.length

/-- A store with the calls that were carried out, and the drafts whose chunks are in it. -/
structure View where
  store : ChunkedStore
  history : List Outcome
  author : Owner → Option Draft

namespace View

/-- The view after a step. -/
def after (x : View) (store : ChunkedStore) (author : Owner → Option Draft) : View :=
  { x with store, author }

/-- The view when a call was carried out. -/
def log (x : View) (o : Outcome) : View := { x with history := o :: x.history }

/-- The committed record of the owner's identifier was written by the owner. -/
def CommittedBy (x : View) (owner : Owner) : Prop :=
  ∃ m, x.store.meta? owner.1 = some m ∧ m.writer = owner.2

end View

/-! ## Soundness -/

/-- The record has content, content type and size of the payload. -/
structure IsCopy (record payload : ContentRecord) : Prop where
  content : record.content = payload.content
  contentType : record.contentType = payload.contentType
  fileSize : record.fileSize = payload.fileSize

/-- What a call read are copies of the payloads that were committed. -/
def Genuine (history : List Outcome) (o : Outcome) : Prop :=
  ∀ record ∈ o.call.records o.answer,
    o.call.Covers record.id ∧
      ∃ payload, winners record.id history = [payload] ∧ IsCopy record payload

/-- Every chunk is a piece of its author's draft, every committed identifier has the draft of its
writer as its only winner, and all that was read is genuine. -/
structure Sound (x : View) : Prop where
  authored : ∀ key doc, x.store.chunks.find key = some doc →
    ∃ d, x.author (key.store, key.writer) = some d ∧ doc.toChunk key ∈ d.pieces
  described : ∀ id m, x.store.meta? id = some m →
    ∃ d, x.author (id, m.writer) = some d ∧ d.Describes m ∧ winners id x.history = [d.record]
  unwon : ∀ id, x.store.meta? id = none → winners id x.history = []
  genuine : ∀ o ∈ x.history, Genuine x.history o

theorem Sound.winners_length_le {x : View} (h : Sound x) (id : StoreId) :
    (winners id x.history).length ≤ 1 := by
  cases hmeta : x.store.meta? id with
  | none =>
    rw [h.unwon id hmeta]
    exact Nat.zero_le 1
  | some m =>
    obtain ⟨d, _, _, hwinners⟩ := h.described id m hmeta
    rw [hwinners]
    exact Nat.le_refl 1

/-! ## What a step may change -/

/-- Committed records stay, with another status at most. -/
def Grows (x y : View) : Prop :=
  ∀ id m, x.store.meta? id = some m → ∃ status, y.store.meta? id = some { m with status }

/-- The owner's draft stays what it is, and nobody else commits it. -/
structure Spares (owner : Owner) (x y : View) : Prop where
  author_eq : y.author owner = x.author owner
  uncommitted : y.CommittedBy owner → x.CommittedBy owner

/-- What the others may do while a call writes chunks for `owner?`. -/
structure Rely (owner? : Option Owner) (x y : View) : Prop where
  grows : Grows x y
  spares : ∀ owner, owner? = some owner → Spares owner x y

/-- What a call that writes chunks for `owner?` may do. -/
structure Guarantee (owner? : Option Owner) (x y : View) : Prop where
  grows : Grows x y
  spares : ∀ owner, owner? ≠ some owner → Spares owner x y

theorem Grows.refl (x : View) : Grows x x := fun _ m h => ⟨m.status, h⟩

theorem Grows.trans {x y z : View} (h : Grows x y) (h' : Grows y z) : Grows x z := by
  intro id m hm
  obtain ⟨status, hy⟩ := h id m hm
  exact h' id { m with status } hy

theorem Grows.committedBy {x y : View} (h : Grows x y) {owner : Owner}
    (hx : x.CommittedBy owner) : y.CommittedBy owner := by
  obtain ⟨m, hm, hwriter⟩ := hx
  obtain ⟨status, hy⟩ := h owner.1 m hm
  exact ⟨_, hy, hwriter⟩

theorem Spares.refl (owner : Owner) (x : View) : Spares owner x x := ⟨rfl, id⟩

theorem Spares.trans {owner : Owner} {x y z : View} (h : Spares owner x y)
    (h' : Spares owner y z) : Spares owner x z :=
  ⟨h'.author_eq.trans h.author_eq, fun hz => h.uncommitted (h'.uncommitted hz)⟩

theorem Guarantee.refl (owner? : Option Owner) (x : View) : Guarantee owner? x x :=
  ⟨.refl x, fun owner _ => .refl owner x⟩

theorem Rely.refl (owner? : Option Owner) (x : View) : Rely owner? x x :=
  ⟨.refl x, fun owner _ => .refl owner x⟩

theorem Rely.trans {owner? : Option Owner} {x y z : View} (h : Rely owner? x y)
    (h' : Rely owner? y z) : Rely owner? x z :=
  ⟨h.grows.trans h'.grows, fun owner ho => (h.spares owner ho).trans (h'.spares owner ho)⟩

theorem Rely.log (owner? : Option Owner) (x : View) (o : Outcome) : Rely owner? x (x.log o) :=
  ⟨.refl x, fun _ _ => ⟨rfl, id⟩⟩

/-- What one call may do, another may rely on, unless both write chunks for one owner. -/
theorem Guarantee.rely {owner? other? : Option Owner} {x y : View} (h : Guarantee owner? x y)
    (hapart : ∀ owner, other? = some owner → owner? ≠ some owner) : Rely other? x y :=
  ⟨h.grows, fun owner ho => h.spares owner (hapart owner ho)⟩

/-! ## Safe programs -/

/-- From the view `x` on, every step of the program does what it may, and its answer finds `post`
fulfilled.  Before each step, others may have done what they may. -/
def Safe (owner? : Option Owner) {α : Type} (post : α → View → Prop) :
    ChunkedStore.Client α → View → Prop
  | .done a, x => post a x
  | .ask request next, x =>
    Sound x ∧ ∀ y, Sound y → Rely owner? x y → ∀ clock : Clock, ∃ author,
      Guarantee owner? y (y.after (request ⟨y.store, clock⟩).2.state author) ∧
      Safe owner? post (next (request ⟨y.store, clock⟩).1)
        (y.after (request ⟨y.store, clock⟩).2.state author)

namespace Safe

variable {owner? : Option Owner} {α β : Type}

theorem bind {post : β → View → Prop} {p : ChunkedStore.Client α}
    {f : α → ChunkedStore.Client β} {x : View}
    (h : Safe owner? (fun a y => Safe owner? post (f a) y) p x) :
    Safe owner? post (p.bind f) x := by
  induction p generalizing x with
  | done a => exact h
  | ask request next ih =>
    refine ⟨h.1, fun y hy hxy clock => ?_⟩
    obtain ⟨author, hguarantee, hnext⟩ := h.2 y hy hxy clock
    exact ⟨author, hguarantee, ih _ hnext⟩

theorem weaken {post post' : α → View → Prop} {p : ChunkedStore.Client α} {x : View}
    (h : Safe owner? post p x) (himp : ∀ a y, post a y → post' a y) : Safe owner? post' p x := by
  induction p generalizing x with
  | done a => exact himp a x h
  | ask request next ih =>
    refine ⟨h.1, fun y hy hxy clock => ?_⟩
    obtain ⟨author, hguarantee, hnext⟩ := h.2 y hy hxy clock
    exact ⟨author, hguarantee, ih _ hnext⟩

/-- A call that waits for its next step stays safe whatever the others do. -/
theorem rely {post : α → View → Prop} {request : Atomic (Clocked ChunkedStore) β}
    {next : β → ChunkedStore.Client α} {x y : View}
    (h : Safe owner? post (.ask request next) x) (hy : Sound y) (hxy : Rely owner? x y) :
    Safe owner? post (.ask request next) y :=
  ⟨hy, fun z hz hyz clock => h.2 z hz (hxy.trans hyz) clock⟩

/-- A step that changes nothing. -/
theorem look {post : α → View → Prop} {request : Atomic (Clocked ChunkedStore) β}
    {next : β → ChunkedStore.Client α} {x : View} (hx : Sound x)
    (hstate : ∀ s, (request s).2.state = s.state)
    (hnext : ∀ y, Sound y → Rely owner? x y → ∀ clock,
      Safe owner? post (next (request ⟨y.store, clock⟩).1) y) :
    Safe owner? post (.ask request next) x := by
  refine ⟨hx, fun y hy hxy clock => ⟨y.author, ?_⟩⟩
  have hafter : y.after (request ⟨y.store, clock⟩).2.state y.author = y := by
    rw [hstate]
    rfl
  rw [hafter]
  exact ⟨.refl owner? y, hnext y hy hxy clock⟩

/-- A step that is carried out alone. -/
theorem request {post : α → View → Prop} {p : ChunkedStore.Client β}
    {next : β → ChunkedStore.Client α} {x : View} (hp : ∃ action, p = .request action)
    (hx : Sound x)
    (hnext : ∀ y, Sound y → Rely owner? x y → ∀ clock : Clock, ∃ author,
      Guarantee owner? y (y.after (p.alone ⟨y.store, clock⟩).2.state author) ∧
      Safe owner? post (next (p.alone ⟨y.store, clock⟩).1)
        (y.after (p.alone ⟨y.store, clock⟩).2.state author)) :
    Safe owner? post (p.bind next) x := by
  obtain ⟨action, rfl⟩ := hp
  exact ⟨hx, hnext⟩

end Safe

end ContentVault.Interleaving
