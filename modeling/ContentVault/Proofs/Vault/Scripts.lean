import ContentVault.Proofs.Vault.Performing
set_option autoImplicit false

/-!
# Scripts carried out

Every script that is carried out on an empty backend shows what the catalogue of its limits shows,
and gives identifiers as the catalogue gives numbers.  So it shows the same whichever stamps and
tokens are drawn.
-/

namespace ContentVault

/-- A backend, and the replies to the lines so far; a line that was passed over has none. -/
structure Performance (σ : Type) where
  backend : σ
  replies : List (Option Reply) := []

namespace Performance

section

variable {σ : Type} [Backend σ] (s : ContentStore)

/-- The identifiers that the lines so far were given. -/
def ids (p : Performance σ) : List (Option StoreId) := p.replies.map (·.bind Reply.id?)

/-- The identifier that a line was given. -/
def named? (p : Performance σ) (source : Nat) : Option StoreId := p.ids[source]?.join

/-- What was shown by the lines so far. -/
def shown (p : Performance σ) : List (Option Shown) := p.replies.map (·.map Reply.shown)

/-- Carries a line out, unless the line that it names did not ingest. -/
def advance [Codec] (around : Nat → World Unit) (p : Performance σ) (line : Line Nat) :
    Performance σ :=
  match line.resolve p.named? with
  | none => { p with replies := p.replies ++ [none] }
  | some line =>
    let out := amid around (line.procedure s) p.backend
    ⟨out.2, p.replies ++ [some out.1]⟩

/-- Carries out a script; the line number `n` is carried out amid `around n`. -/
def run [Codec] (around : Nat → Nat → World Unit) (script : List (Line Nat)) (b : σ) :
    Performance σ :=
  script.foldl (fun p line => p.advance s (around p.replies.length) line) ⟨b, []⟩

/-- The same is shown, and the same lines were given the same identifier. -/
structure Alike (p p' : Performance σ) : Prop where
  shown_eq : p.shown = p'.shown
  named?_eq_iff : ∀ i j, p.named? i = p.named? j ↔ p'.named? i = p'.named? j

end

/-- At each line the clocks stand as they do at its moment. -/
def Stands (clock : ClockKind) (moment : Nat → Moment) (script : List (Line Nat))
    (around : Nat → Nat → World Unit) : Prop :=
  ∀ n line, script[n]? = some line → ∀ k, StandsAt clock line.deadline (moment n) (around n k)

/-! ## Performances and catalogues -/

/-- Names that are related line by line are related for each line. -/
theorem rel_join {α β : Type} {r : α → β → Prop} {l : List (Option α)} {l' : List (Option β)}
    (h : List.Forall₂ (Option.Rel r) l l') (n : Nat) : Option.Rel r l[n]?.join l'[n]?.join := by
  induction h generalizing n with
  | nil => exact .none
  | cons hhead _ ih =>
    cases n with
    | zero => exact hhead
    | succ n => exact ih n

variable {σ : Type} [Codec] [Backend σ] [LimitedBackend σ] {s : ContentStore} {limits : Limits}
  {contents : List Bytes}

/-- The performance has come as far as the catalogue. -/
inductive Tracks (s : ContentStore) (limits : Limits) (contents : List Bytes) (c : Catalogue)
    (p : Performance σ) : Prop where
  | intro {m : MemoryStore} {records : List ContentRecord}
    (limited : LimitedBackend.Limited limits p.backend m) (lists : Lists records m)
    (blobs_eq : records.map ContentRecord.unstamped = c.blobs)
    (distinct : Catalogue.Distinct s.checksum contents c.blobs)
    (names : List.Forall₂ (Option.Rel (Numbers records)) c.names p.ids)
    (shown_eq : p.shown = c.shown)

variable {c : Catalogue} {p : Performance σ}

/-- Nothing has been carried out. -/
theorem tracks_nil {b : σ} (hlimited : LimitedBackend.Limited limits b .empty) :
    Tracks s limits contents {} ⟨b, []⟩ :=
  .intro hlimited .empty rfl (Catalogue.distinct_nil _ _) .nil rfl

/-- Each line keeps up with the catalogue. -/
theorem Tracks.advance (h : Tracks s limits contents c p)
    (hfew : ∀ hash, (contents.filter (s.checksum · == hash)).dedup.length
      ≤ min s.reserver.policy.maxAttempts.toNat 65536)
    {line : Line Nat} (hline : ∀ data ∈ line.contents, data ∈ contents ∧
      Faithful s.compressionLevel data)
    {t : Moment} {around : Nat → World Unit}
    (hstands : ∀ k, StandsAt s.reserver.clock line.deadline t (around k)) :
    Tracks s limits contents (c.advance s limits t line) (p.advance s around line) := by
  obtain @⟨m, records, hlimited, hlists, hblobs, hdistinct, hnames, hshown⟩ := h
  have hresolve := Line.rel_resolve (rel_join hnames) line
  have happend : ∀ {r : List ContentRecord} {name? : Option Nat} {reply? : Option Reply},
      records.map (·.id) <+: r.map (·.id) →
      Option.Rel (Numbers r) name? (reply?.bind Reply.id?) →
        List.Forall₂ (Option.Rel (Numbers r)) (c.names ++ [name?])
          ((p.replies ++ [reply?]).map (·.bind Reply.id?)) := by
    intro r name? reply? hprefix hname
    rw [List.map_append, List.map_singleton]
    refine List.rel_append (hnames.imp fun name? id? hrel => ?_) (.cons hname .nil)
    cases hrel with
    | none => exact .none
    | some hid =>
      obtain ⟨hn, hget⟩ := List.getElem?_eq_some_iff.mp hid
      exact .some ((List.prefix_iff_getElem?.mp hprefix _ hn).trans (congrArg some hget))
  unfold Catalogue.advance Performance.advance
  change Option.Rel _ (line.resolve c.named?) (line.resolve p.named?) at hresolve
  cases hresolved : line.resolve c.named? with
  | none =>
    rw [hresolved] at hresolve
    generalize line.resolve p.named? = line' at hresolve ⊢
    cases hresolve
    refine .intro hlimited hlists hblobs hdistinct (happend List.prefix_rfl .none) ?_
    rw [shown, List.map_append, List.map_singleton, ← hshown]
    rfl
  | some lineN =>
    rw [hresolved] at hresolve
    generalize line.resolve p.named? = line' at hresolve ⊢
    cases hresolve with
    | some hrel =>
      rename_i lineId
      rw [← Line.contents_resolve hresolved] at hline
      rw [← Line.deadline_resolve hresolved] at hstands
      have hplays := (plays_procedure s hlimited hlists (hblobs ▸ hdistinct) hfew hrel
        hline).amid hstands
      rw [hblobs] at hplays
      obtain @⟨m', records', hlimited', hlists', hblobs', hprefix, hname, hreply⟩ := hplays
      refine .intro hlimited' hlists' hblobs' (hdistinct.answer t hline) (happend hprefix hname) ?_
      rw [shown, List.map_append, List.map_singleton, ← hshown]
      exact congrArg (p.shown ++ [some ·]) hreply

/-- A script keeps up with the catalogue to its end. -/
theorem Tracks.run (h : Tracks s limits contents c p)
    (hfew : ∀ hash, (contents.filter (s.checksum · == hash)).dedup.length
      ≤ min s.reserver.policy.maxAttempts.toNat 65536)
    {script : List (Line Nat)} (hscript : ∀ data ∈ scriptContents script, data ∈ contents ∧
      Faithful s.compressionLevel data)
    {moment : Nat → Moment} {around : Nat → Nat → World Unit}
    (hstands : Stands s.reserver.clock (fun n => moment (p.replies.length + n)) script
      fun n => around (p.replies.length + n)) :
    Tracks s limits contents
      (script.foldl (fun c line => c.advance s limits (moment c.shown.length) line) c)
      (script.foldl (fun p line => p.advance s (around p.replies.length) line) p) := by
  induction script generalizing c p with
  | nil => exact h
  | cons line script ih =>
    have hlength : c.shown.length = p.replies.length := by
      obtain ⟨_, _, _, _, _, hshown⟩ := h
      rw [← hshown, shown, List.length_map]
    have hnext : (p.advance s (around p.replies.length) line).replies.length
        = p.replies.length + 1 := by
      unfold Performance.advance
      split
      · exact List.length_append
      · exact List.length_append
    have hline : ∀ data ∈ line.contents, data ∈ contents ∧ Faithful s.compressionLevel data :=
      fun data hdata => hscript data (List.mem_append_left _ hdata)
    rw [List.foldl_cons, List.foldl_cons, hlength]
    refine ih (h.advance hfew hline (hstands 0 line rfl)) (fun data hdata =>
      hscript data (List.mem_append_right _ hdata)) fun n line' hline' k => ?_
    have hnumber : p.replies.length + 1 + n = p.replies.length + (n + 1) := by omega
    simp only [hnext, hnumber]
    exact hstands (n + 1) line' hline' k

/-- Lines were given the same identifier if the catalogue gave them the same number. -/
theorem Tracks.named?_eq_iff (h : Tracks s limits contents c p) (i j : Nat) :
    p.named? i = p.named? j ↔ c.named? i = c.named? j := by
  obtain @⟨m, records, _, hlists, _, _, hnames, _⟩ := h
  have hi : Option.Rel (Numbers records) (c.named? i) (p.named? i) := rel_join hnames i
  have hj : Option.Rel (Numbers records) (c.named? j) (p.named? j) := rel_join hnames j
  generalize c.named? i = n at hi ⊢
  generalize p.named? i = id at hi ⊢
  generalize c.named? j = n' at hj ⊢
  generalize p.named? j = id' at hj ⊢
  cases hi with
  | none =>
    cases hj with
    | none => exact iff_of_true rfl rfl
    | some hid => exact iff_of_false (fun heq => by cases heq) fun heq => by cases heq
  | some hid =>
    cases hj with
    | none => exact iff_of_false (fun heq => by cases heq) fun heq => by cases heq
    | some hid' =>
      obtain ⟨hn, _⟩ := List.getElem?_eq_some_iff.mp hid
      rw [Option.some_inj, Option.some_inj, ← List.getElem?_inj hn hlists.nodup, hid, hid',
        Option.some_inj]

/-- Two performances that have come as far as one catalogue are alike. -/
theorem Tracks.alike (h : Tracks s limits contents c p) {p' : Performance σ}
    (h' : Tracks s limits contents c p') : Alike p p' := by
  refine ⟨?_, fun i j => (h.named?_eq_iff i j).trans (h'.named?_eq_iff i j).symm⟩
  obtain ⟨_, _, _, _, _, hshown⟩ := h
  obtain ⟨_, _, _, _, _, hshown'⟩ := h'
  exact hshown.trans hshown'.symm

end Performance

open Performance (Alike Stands run)

/-- With any codec, a script that is carried out twice from the beginning, with the clocks standing
alike at each line, shows the same, whatever stamps and tokens are drawn: if no checksum is that of
more contents than there are attempts or stamps. -/
theorem stamps_and_tokens_do_not_show [Codec] (s : ContentStore) (script : List (Line Nat))
    (hfaithful : ∀ data ∈ scriptContents script, Faithful s.compressionLevel data)
    (hfew : ∀ hash, ((scriptContents script).filter (s.checksum · == hash)).dedup.length
      ≤ min s.reserver.policy.maxAttempts.toNat 65536)
    (moment : Nat → Moment) (around around' : Nat → Nat → World Unit)
    (hstands : Stands s.reserver.clock moment script around)
    (hstands' : Stands s.reserver.clock moment script around') :
    Alike (run s around script MemoryStore.empty) (run s around' script MemoryStore.empty) ∧
    ∀ config created, ChunkedStore.create config = .ok created →
      Alike (run s around script created) (run s around' script created) := by
  have hrun : ∀ {σ : Type} [Backend σ] [LimitedBackend σ] {limits : Limits} {b : σ},
      LimitedBackend.Limited limits b .empty →
        Alike (run s around script b) (run s around' script b) := by
    intro σ _ _ limits b hlimited
    have htracks : ∀ {around : Nat → Nat → World Unit},
        Stands s.reserver.clock moment script around →
          Performance.Tracks s limits (scriptContents script)
            (Catalogue.run s limits moment script) (run s around script b) := by
      intro around hstands
      refine (Performance.tracks_nil hlimited).run hfew (fun data hdata =>
        ⟨hdata, hfaithful data hdata⟩) fun n line hline k => ?_
      simp only [List.length_nil, Nat.zero_add]
      exact hstands n line hline k
    exact (htracks hstands).alike (htracks hstands')
  have hmemory : LimitedBackend.Limited Limits.unlimited MemoryStore.empty .empty := ⟨rfl, rfl⟩
  refine ⟨hrun hmemory, fun config created hcreate => ?_⟩
  obtain ⟨rfl, husable⟩ := ChunkedStore.usable_of_create hcreate
  have hchunked : LimitedBackend.Limited config.limits (ChunkedStore.empty config) .empty :=
    ⟨config, rfl, rfl, ChunkedStore.models_empty husable⟩
  exact hrun hchunked

/-- Two contents of one checksum, the first of them ingested twice.  In one run both ingests draw
one stamp, so the second content is moved on to the next; in the other run they draw two.  The
identifiers differ, and what is shown does not. -/
theorem stamps_and_tokens_do_not_show_of_collision :
    let _ : Codec := Compression.codec
    let s : ContentStore := ⟨⟨{ ReservationPolicy.standard with maxAttempts := 2 }, .manual⟩, 3,
      fun _ => 7⟩
    let script : List (Line Nat) := [.ingest [1, 2, 3] "text/plain" .never,
      .ingest [4, 4, 4] "text/plain" (.fixed 50), .ingest [1, 2, 3] "image/png" .never,
      .updateStatus 1 .ok .never, .get 1 .never, .matchHash 7 .never]
    let around (token : UInt64) (stamp : Nat → UInt16) (n _k : Nat) : World Unit := {
      backend := (), manual := .still 100, system := .still 0, timer := n,
      tokens := ⟨fun _ => token, 0⟩, stamps := ⟨fun _ => stamp n, 0⟩,
      stampBytes := ⟨fun _ => 0, 0⟩, jitters := ⟨fun _ => 0, 0⟩, today := default }
    let one := around 5 fun _ => 9
    let other := around 6 fun n => UInt16.ofNat n
    let config : ChunkedConfig := ⟨8, 128, 2⟩
    let p := run s one script MemoryStore.empty
    let p' := run s other script MemoryStore.empty
    p.ids.take 3 = [some ⟨7, 9⟩, some ⟨7, 10⟩, some ⟨7, 9⟩] ∧
      p'.ids.take 3 = [some ⟨7, 0⟩, some ⟨7, 1⟩, some ⟨7, 0⟩] ∧
      p.shown[4]? = some (some (.retrieved 7 [4, 4, 4] "text/plain" 3 .ok)) ∧ Alike p p' ∧
      ChunkedStore.create config = .ok (.empty config) ∧
      Alike (run s one script (ChunkedStore.empty config))
        (run s other script (ChunkedStore.empty config)) := by
  intro _ s script around one other config p p'
  have hfirst : Faithful 3 [1, 2, 3] := ⟨by decide +kernel, by decide, by decide +kernel⟩
  have hsecond : Faithful 3 [4, 4, 4] := ⟨by decide +kernel, by decide, by decide +kernel⟩
  have hfaithful : ∀ data ∈ scriptContents script, Faithful s.compressionLevel data := by
    intro data hdata
    have hcases : data = [1, 2, 3] ∨ data = [4, 4, 4] ∨ data = [1, 2, 3] := by
      simpa [scriptContents, script, Line.contents] using hdata
    rcases hcases with rfl | rfl | rfl
    · exact hfirst
    · exact hsecond
    · exact hfirst
  have hfew : ∀ hash, ((scriptContents script).filter (s.checksum · == hash)).dedup.length
      ≤ min s.reserver.policy.maxAttempts.toNat 65536 := by
    intro hash
    by_cases hhash : hash = 7
    · subst hhash
      decide
    · have hnone : (scriptContents script).filter (s.checksum · == hash) = [] :=
        List.filter_eq_nil_iff.mpr fun _ _ h => hhash (beq_iff_eq.mp h).symm
      rw [hnone]
      exact Nat.zero_le _
  have hstands : ∀ token stamp, Stands s.reserver.clock (fun n => ⟨100, n⟩) script
      (around token stamp) := fun token stamp n line _ k => ⟨rfl, rfl⟩
  have hcreate : ChunkedStore.create config = .ok (.empty config) := rfl
  have halike := stamps_and_tokens_do_not_show s script hfaithful hfew (fun n => ⟨100, n⟩) one other
    (hstands 5 fun _ => 9) (hstands 6 fun n => UInt16.ofNat n)
  exact ⟨by decide +kernel, by decide +kernel, by decide +kernel, halike.1, hcreate,
    halike.2 config _ hcreate⟩

end ContentVault
