import ContentVault.Proofs.Ident.Tokens
import ContentVault.Proofs.Json.Fields
import ContentVault.Proofs.Json.RoundTrip
import ContentVault.Record.ContentRecord
set_option autoImplicit false

/-!
# Stored types in JSON

What is written for a stored blob, its status or an identifier is read back as what it was.  The
fields may stand in any order beside others, but none of them may be missing or doubled.
-/

namespace ContentVault

open Json (Value Arranges Gives)

/-! ## Values of fields -/

namespace Json

theorem natBelow?_ofNat {n bound : Nat} (h : n < bound) :
    (Value.ofNat n).natBelow? bound = some n := if_pos h

theorem bytes?_ofBytes (bs : Bytes) : (Value.ofBytes bs).bytes? = some bs := by
  change (bs.map fun b => Value.ofNat b.toNat).mapM _ = _
  induction bs with
  | nil => rfl
  | cons b bs ih =>
    rw [List.map_cons, List.mapM_cons, ih, natBelow?_ofNat b.toNat_lt]
    simp

theorem isExact_ofNat {n : Nat} (h : n < UInt64.size) : (Value.ofNat n).IsExact :=
  .number (n := .natural n) h

theorem isExact_ofText (s : String) : (Value.ofText s).IsExact := .string s

theorem isExact_ofBytes (bs : Bytes) : (Value.ofBytes bs).IsExact := by
  refine .array fun v hv => ?_
  obtain ⟨b, _, rfl⟩ := List.mem_map.mp hv
  exact isExact_ofNat (Nat.lt_trans b.toNat_lt (by decide))

theorem isExact_ofMembers (fields : List (String × Value)) (h : ∀ e ∈ fields, e.2.IsExact) :
    (Value.ofMembers fields).IsExact := by
  refine .object (fun e he => ?_) fun e he => ?_
  · obtain ⟨_, _, rfl⟩ := List.mem_map.mp he
    rfl
  · obtain ⟨d, hd, rfl⟩ := List.mem_map.mp he
    exact h d hd

/-- The fields as they are written are an arrangement of themselves. -/
theorem arranges_self (fields : List (String × Value)) :
    Arranges fields [] (fields.map fun (k, v) => (some k, v)) := by
  refine ⟨?_, fun e he => absurd he List.not_mem_nil⟩
  rw [List.append_nil]

end Json

open Json

/-! ## Identifiers of blobs -/

namespace StoreId

/-- The fields of an identifier. -/
def jsonFields (id : StoreId) : List (String × Value) :=
  [("hash", .ofNat id.hash.toNat), ("stamp", .ofNat id.stamp.toNat)]

theorem isExact_toJson (id : StoreId) : id.toJson.IsExact := by
  have hhash := Nat.lt_trans id.hash.toNat_lt (show 2 ^ 32 < UInt64.size by decide)
  have hstamp := Nat.lt_trans id.stamp.toNat_lt (show 2 ^ 16 < UInt64.size by decide)
  refine isExact_ofMembers id.jsonFields ?_
  simp only [jsonFields, List.forall_mem_cons]
  exact ⟨isExact_ofNat hhash, isExact_ofNat hstamp, fun e he => absurd he List.not_mem_nil⟩

/-- An object with the fields of an identifier is read as the identifier, and as nothing if one of
them is missing or doubled. -/
structure ReadsObject (members : Json.Members) (read? : Option StoreId) : Prop where
  arranged : ∀ id others, Arranges id.jsonFields others members → read? = some id
  once : ∀ name ∈ ["hash", "stamp"], members.countP (·.1 == some name) ≠ 1 → read? = none

theorem readsObject (members : Json.Members) : ReadsObject members (ofJson? (.object members)) := by
  refine ⟨fun id others h => ?_, fun name hname hcount => ?_⟩
  · have hnodup : (id.jsonFields.map (·.1)).Nodup := show ["hash", "stamp"].Nodup by decide
    have hfields : (Value.object members).fields? ["hash", "stamp"]
      = some [some (.ofNat id.hash.toNat), some (.ofNat id.stamp.toNat)] := h.fields?_eq hnodup
    have hhash : (Value.ofNat id.hash.toNat).natBelow? UInt32.size = some id.hash.toNat :=
      natBelow?_ofNat id.hash.toNat_lt
    have hstamp : (Value.ofNat id.stamp.toNat).natBelow? UInt16.size = some id.stamp.toNat :=
      natBelow?_ofNat id.stamp.toNat_lt
    rw [ofJson?, hfields]
    simp only [hhash, hstamp, UInt32.ofNat_toNat, UInt16.ofNat_toNat]
  · refine eq_none_of_countP_ne (fun id h => ?_) hcount
    unfold ofJson? at h
    split at h
    next hash stamp hfields =>
      obtain ⟨v, _, hgives⟩ := exists_gives_of_fields? [hash, stamp] hfields name hname
      exact ⟨v, hgives⟩
    · cases h

end StoreId

/-! ## Status -/

namespace Status

/-- The fields of a status beside its name. -/
def details : Status → List (String × Value)
  | .failed code message => [("code", .ofNat code.toNat), ("message", .ofText message)]
  | _ => []

/-- The fields of a status. -/
def jsonFields (s : Status) : List (String × Value) := ("state", .ofText s.tag) :: s.details

theorem toJson_eq (s : Status) : s.toJson = .ofMembers s.jsonFields := by
  cases s <;> rfl

theorem nodup_jsonFields (s : Status) : (s.jsonFields.map (·.1)).Nodup := by
  cases s with
  | ok => exact show ["state"].Nodup by decide
  | inProgress => exact show ["state"].Nodup by decide
  | failed code message => exact show ["state", "code", "message"].Nodup by decide

theorem isExact_jsonFields (s : Status) : ∀ e ∈ s.jsonFields, e.2.IsExact := by
  have hstate := isExact_ofText s.tag
  cases s with
  | ok =>
    simp only [jsonFields, details, List.forall_mem_singleton]
    exact hstate
  | inProgress =>
    simp only [jsonFields, details, List.forall_mem_singleton]
    exact hstate
  | failed code message =>
    have hcode := Nat.lt_trans code.toNat_lt (show 2 ^ 16 < UInt64.size by decide)
    simp only [jsonFields, details, List.forall_mem_cons]
    exact ⟨hstate, isExact_ofNat hcode, isExact_ofText message,
      fun e he => absurd he List.not_mem_nil⟩

theorem isExact_toJson (s : Status) : s.toJson.IsExact :=
  s.toJson_eq ▸ isExact_ofMembers s.jsonFields s.isExact_jsonFields

/-- Code, message and name may be read in front of anything. -/
theorem fits_jsonFields (s : Status) (levels : Nat) :
    ∀ e ∈ s.jsonFields, e.2.fits levels = true := by
  have hnumber : ∀ n, (Value.ofNat n).fits levels = true := by
    intro n
    cases levels <;> rfl
  have htext : ∀ t, (Value.ofText t).fits levels = true := by
    intro t
    cases levels <;> rfl
  cases s with
  | ok => simp [jsonFields, details, htext]
  | inProgress => simp [jsonFields, details, htext]
  | failed code message => simp [jsonFields, details, htext, hnumber]

/-- The details of a status are read from what its object holds beside the name. -/
theorem ofTagged?_of_arranges {s : Status} {others : List (String × Value)} {members : Json.Members}
    (h : Arranges s.details others members) :
    ofTagged? (.ofText s.tag) (.object members) = some s := by
  cases s with
  | ok => rfl
  | inProgress => rfl
  | failed code message =>
    have hnodup : ((Status.failed code message).details.map (·.1)).Nodup :=
      show ["code", "message"].Nodup by decide
    have hfields : (Value.object members).fields? ["code", "message"]
      = some [some (.ofNat code.toNat), some (.ofText message)] := h.fields?_eq hnodup
    have hcode : (Value.ofNat code.toNat).natBelow? UInt16.size = some code.toNat :=
      natBelow?_ofNat code.toNat_lt
    change failedOfJson? (.object members) = _
    rw [failedOfJson?, hfields]
    simp only [hcode, Value.text?, Value.ofText, UInt16.ofNat_toNat]

/-- A status is read under its own name. -/
theorem tag_of_ofTagged? {tag content : Value} {s : Status} (h : ofTagged? tag content = some s) :
    tag = .ofText s.tag := by
  have hunit : ∀ t : Status, ofTagged?.unit content t = some s → s = t := by
    intro t hunit
    unfold ofTagged?.unit at hunit
    split at hunit
    · cases hunit
    · exact (Option.some.inj hunit).symm
  have hstring : ∀ t, tag.text? = some t → tag = .ofText t := by
    intro t htext
    unfold Value.text? at htext
    split at htext
    · rw [htext]
      rfl
    · cases htext
  unfold ofTagged? at h
  split at h
  next htext => rw [hunit _ h, hstring _ htext]; rfl
  next htext => rw [hunit _ h, hstring _ htext]; rfl
  next htext =>
    obtain ⟨code, message, rfl⟩ : ∃ code message, s = .failed code message := by
      unfold failedOfJson? at h
      split at h
      · split at h
        · exact ⟨_, _, (Option.some.inj h).symm⟩
        · cases h
      · cases h
    exact hstring _ htext
  · cases h

theorem exists_gives_of_ofTagged? {s : Status} {members : Json.Members}
    (h : ofTagged? (.ofText s.tag) (.object members) = some s) :
    ∀ name ∈ s.details.map (·.1), ∃ v, Gives members name v := by
  cases s with
  | ok => exact fun name hname => absurd hname List.not_mem_nil
  | inProgress => exact fun name hname => absurd hname List.not_mem_nil
  | failed code message =>
    change failedOfJson? (.object members) = _ at h
    unfold failedOfJson? at h
    split at h
    next code message hfields =>
      intro name hname
      obtain ⟨v, _, hgives⟩ :=
        exists_gives_of_fields? [code, message] hfields name hname
      exact ⟨v, hgives⟩
    · cases h

theorem ofJson?_object (levels : Nat) (members : Json.Members) :
    ofJson? levels (.object members) = match members.filter (·.1 == some "state") with
      | [(_, tag)] =>
        if (members.filter (·.1 != some "state")).all fun (k, v) => k.isSome && v.fits levels
        then ofTagged? tag (.object (members.filter (·.1 != some "state"))) else none
      | _ => none := rfl

/-- The object of a name is read if all else in it can be taken in. -/
theorem ofJson?_of_gives {members : Json.Members} {tag : Value}
    (hstate : Gives members "state" tag) (levels : Nat) :
    ofJson? levels (.object members)
      = if (members.filter (·.1 != some "state")).all fun (k, v) => k.isSome && v.fits levels
        then ofTagged? tag (.object (members.filter (·.1 != some "state"))) else none := by
  rw [ofJson?_object, hstate]

theorem names_eq_of_tag_eq {s t : Status} (h : s.tag = t.tag) :
    s.jsonFields.map (·.1) = t.jsonFields.map (·.1) := by
  cases s <;> cases t <;> simp_all [tag, jsonFields, details]

theorem exists_gives_of_ofJson? {members : Json.Members} {levels : Nat} {s : Status}
    (h : ofJson? levels (.object members) = some s) :
    Gives members "state" (.ofText s.tag) ∧
      ∀ name ∈ s.jsonFields.map (·.1), ∃ v, Gives members name v := by
  have hfound : ∃ tag, Gives members "state" tag := by
    rw [ofJson?_object] at h
    split at h
    next k tag hfilter =>
      have hmem : (k, tag) ∈ members.filter (·.1 == some "state") := by
        rw [hfilter]
        exact List.mem_singleton_self _
      obtain rfl : k = some "state" := by simpa using (List.mem_filter.mp hmem).2
      exact ⟨tag, hfilter⟩
    · cases h
  obtain ⟨tag, hstate⟩ := hfound
  rw [ofJson?_of_gives hstate] at h
  split at h
  · obtain rfl := tag_of_ofTagged? h
    refine ⟨hstate, List.forall_mem_cons.mpr ⟨⟨_, hstate⟩, fun name hname => ?_⟩⟩
    obtain ⟨v, hgives⟩ := exists_gives_of_ofTagged? h name hname
    have hne : name ≠ "state" := by
      rintro rfl
      exact (List.nodup_cons.mp s.nodup_jsonFields).1 hname
    exact ⟨v, (gives_filter_ne_iff hne).mp hgives⟩
  · cases h

/-- An object with the fields of a status is read as the status if all else in it can be taken in,
and as nothing otherwise, or if one of the fields is missing or doubled. -/
structure ReadsObject (levels : Nat) (members : Json.Members) (read? : Option Status) : Prop where
  arranged : ∀ (s : Status) others, Arranges s.jsonFields others members →
    (∀ e ∈ others, e.2.fits levels = true) → read? = some s
  unfit : ∀ (s : Status) others, Arranges s.jsonFields others members →
    ∀ e ∈ others, e.2.fits levels = false → read? = none
  tagged : members.countP (·.1 == some "state") ≠ 1 → read? = none
  once : ∀ s : Status, Gives members "state" (.ofText s.tag) →
    ∀ name ∈ s.jsonFields.map (·.1), members.countP (·.1 == some name) ≠ 1 → read? = none

theorem readsObject (levels : Nat) (members : Json.Members) :
    ReadsObject levels members (ofJson? levels (.object members)) := by
  have hnotag : ∀ s : Status, "state" ∉ s.details.map (·.1) := fun s =>
    (List.nodup_cons.mp s.nodup_jsonFields).1
  refine ⟨fun s others h hfits => ?_, fun s others h e he hunfit => ?_, fun hcount => ?_,
    fun s hstate name hname hcount => ?_⟩
  · have hall : (members.filter (·.1 != some "state")).all
        (fun (k, v) => k.isSome && v.fits levels) = true := by
      rw [List.all_eq_true]
      intro e he
      obtain ⟨d, hd, rfl⟩ := List.mem_map.mp (h.1.mem_iff.mp (List.mem_filter.mp he).1)
      rcases List.mem_append.mp hd with hd | hd
      · exact s.fits_jsonFields levels d hd
      · exact hfits d hd
    rw [ofJson?_of_gives (h.gives s.nodup_jsonFields List.mem_cons_self), if_pos hall]
    exact ofTagged?_of_arranges (h.filter_ne (hnotag s))
  · have hmem : (some e.1, e.2) ∈ members :=
      h.1.mem_iff.mpr (List.mem_map.mpr ⟨e, List.mem_append_right _ he, rfl⟩)
    have hother : e.1 ≠ "state" := fun hname => h.2 e he (hname ▸ List.mem_cons_self)
    have hall : ¬ (members.filter (·.1 != some "state")).all
        (fun (k, v) => k.isSome && v.fits levels) = true := by
      rw [List.all_eq_true]
      intro hall
      have hfits := hall _ (List.mem_filter.mpr ⟨hmem, by simpa using hother⟩)
      simp [hunfit] at hfits
    rw [ofJson?_of_gives (h.gives s.nodup_jsonFields List.mem_cons_self), if_neg hall]
  · exact eq_none_of_countP_ne (fun s h => ⟨_, (exists_gives_of_ofJson? h).1⟩) hcount
  · refine eq_none_of_countP_ne (fun t h => ?_) hcount
    obtain ⟨htag, hall⟩ := exists_gives_of_ofJson? h
    have htags : s.tag = t.tag := by
      have hvalue := htag.eq_of_mem hstate.mem
      simpa [Value.ofText] using hvalue
    rw [names_eq_of_tag_eq htags] at hname
    exact hall name hname

end Status

/-! ## Identifiers of files -/

namespace FileId

/-- The token of an identifier is read as the identifier, unless its stamp is empty. -/
theorem ofJson?_toJson (id : FileId) :
    ofJson? id.toJson = if id.stamp = [] then none else some id := by
  have hread : ofJson? id.toJson = (ofToken id.token).toOption := rfl
  rw [hread]
  by_cases hstamp : id.stamp = []
  · have hrefused : ∀ other, ofToken id.token ≠ .ok other := by
      intro other h
      obtain ⟨hdecode, hother⟩ := ofToken_eq_ok_iff.mp h
      have hbytes : id.toBytes = other.toBytes :=
        Except.ok.inj ((Hex.decode_encode id.toBytes).symm.trans hdecode)
      have hlength := congrArg List.length hbytes
      rw [length_toBytes, length_toBytes, hstamp, List.length_nil] at hlength
      exact hother (List.eq_nil_of_length_eq_zero (by omega))
    rw [if_pos hstamp]
    cases htoken : ofToken id.token with
    | error e => rfl
    | ok other => exact absurd htoken (hrefused other)
  · have htoken : ofToken id.token = .ok id :=
      ofToken_eq_ok_iff.mpr ⟨Hex.decode_encode id.toBytes, hstamp⟩
    rw [if_neg hstamp, htoken]
    rfl

end FileId

/-! ## Stored blobs -/

namespace ContentRecord

/-- The fields of a blob, with its identifier and status as they are spelled. -/
def jsonFields (r : ContentRecord) (id status : Value) : List (String × Value) :=
  [("id", id), ("content", .ofBytes r.content), ("content_type", .ofText r.contentType),
    ("file_size", .ofNat r.fileSize.toNat), ("status", status)]

/-- The names of the fields of a blob. -/
def jsonNames : List String := ["id", "content", "content_type", "file_size", "status"]

theorem isExact_toJson (r : ContentRecord) : r.toJson.IsExact := by
  refine isExact_ofMembers (r.jsonFields r.id.toJson r.status.toJson) ?_
  simp only [jsonFields, List.forall_mem_cons]
  exact ⟨r.id.isExact_toJson, isExact_ofBytes r.content, isExact_ofText r.contentType,
    isExact_ofNat r.fileSize.toNat_lt, r.status.isExact_toJson,
    fun e he => absurd he List.not_mem_nil⟩

/-- An object with the fields of a blob is read as the blob, however its identifier and status are
spelled, and as nothing if one of these is refused or one of the fields is missing or doubled. -/
structure ReadsObject (members : Json.Members) (read? : Option ContentRecord) : Prop where
  arranged : ∀ (r : ContentRecord) id status others, StoreId.ofJson? id = some r.id →
    Status.ofJson? (maxLevels - 2) status = some r.status →
    Arranges (r.jsonFields id status) others members → read? = some r
  once : ∀ name ∈ jsonNames, members.countP (·.1 == some name) ≠ 1 → read? = none
  id : ∀ v, Gives members "id" v → StoreId.ofJson? v = none → read? = none
  status : ∀ v, Gives members "status" v → Status.ofJson? (maxLevels - 2) v = none → read? = none

theorem ofJson?_of_arranges {r : ContentRecord} {id status : Value} {others : List (String × Value)}
    {members : Json.Members} (hid : StoreId.ofJson? id = some r.id)
    (hstatus : Status.ofJson? (maxLevels - 2) status = some r.status)
    (h : Arranges (r.jsonFields id status) others members) :
    ofJson? (.object members) = some r := by
  have hnodup : ((r.jsonFields id status).map (·.1)).Nodup := show jsonNames.Nodup by decide
  have hfields : (Value.object members).fields? jsonNames = some [some id,
      some (.ofBytes r.content), some (.ofText r.contentType), some (.ofNat r.fileSize.toNat),
      some status] := h.fields?_eq hnodup
  have hsize : (Value.ofNat r.fileSize.toNat).natBelow? UInt64.size = some r.fileSize.toNat :=
    natBelow?_ofNat r.fileSize.toNat_lt
  have htext : (Value.ofText r.contentType).text? = some r.contentType := rfl
  rw [jsonNames] at hfields
  rw [ofJson?, hfields]
  simp only [hid, hstatus, hsize, htext, bytes?_ofBytes, Option.bind_eq_bind, Option.bind_some,
    UInt64.ofNat_toNat]

/-- What is read gives every field, and an identifier and a status that are read. -/
theorem exists_gives_of_ofJson? {r : ContentRecord} {members : Json.Members}
    (h : ofJson? (.object members) = some r) :
    (∀ name ∈ jsonNames, ∃ v, Gives members name v) ∧
      (∃ id, Gives members "id" id ∧ StoreId.ofJson? id = some r.id) ∧
      ∃ status, Gives members "status" status ∧
        Status.ofJson? (maxLevels - 2) status = some r.status := by
  unfold ofJson? at h
  split at h
  next id content contentType fileSize status hfields =>
    obtain ⟨_, hgives⟩ :=
      (fields?_object_iff [id, content, contentType, fileSize, status]).mp hfields
    simp only [Option.bind_eq_bind, Option.bind_eq_some_iff, Option.some.injEq] at h
    obtain ⟨_, hid, _, _, _, _, _, _, _, hstatus, rfl⟩ := h
    simp only [List.forall₂_cons] at hgives
    refine ⟨fun name hname => ?_, ⟨id, hgives.1, hid⟩, status, hgives.2.2.2.2.1, hstatus⟩
    obtain ⟨v, _, hv⟩ :=
      exists_gives_of_fields? [id, content, contentType, fileSize, status] hfields
        name hname
    exact ⟨v, hv⟩
  · cases h

theorem readsObject (members : Json.Members) : ReadsObject members (ofJson? (.object members)) := by
  refine ⟨fun r id status others hid hstatus h => ofJson?_of_arranges hid hstatus h,
    fun name hname hcount => ?_, fun v hv hrefused => ?_, fun v hv hrefused => ?_⟩
  · exact eq_none_of_countP_ne (fun r h => (exists_gives_of_ofJson? h).1 name hname) hcount
  · refine hv.eq_none_of_refused hrefused fun r h => ?_
    obtain ⟨id, hgives, hid⟩ := (exists_gives_of_ofJson? h).2.1
    exact ⟨id, r.id, hgives, hid⟩
  · refine hv.eq_none_of_refused hrefused fun r h => ?_
    obtain ⟨status, hgives, hstatus⟩ := (exists_gives_of_ofJson? h).2.2
    exact ⟨status, r.status, hgives, hstatus⟩

end ContentRecord

/-! ## Texts -/

/-- The text of a blob, a status or an identifier is read as what it was written for, but for a file
with an empty stamp.  Objects are read by their fields in any order, and not without one of them or
with one of them twice.  Beside the fields of a status, only what can be taken in may stand. -/
theorem stored_types_read_back :
    (∀ r : ContentRecord, (read r.toJson.text).bind ContentRecord.ofJson? = some r) ∧
    (∀ (s : Status) levels, (read s.toJson.text).bind (Status.ofJson? levels) = some s) ∧
    (∀ id : StoreId, (read id.toJson.text).bind StoreId.ofJson? = some id) ∧
    (∀ id : FileId, (read id.toJson.text).bind FileId.ofJson?
      = if id.stamp = [] then none else some id) ∧
    (∀ members, (Value.object members).IsExact →
      read (Value.object members).text = some (.object members)) ∧
    ∀ members,
      ContentRecord.ReadsObject members (ContentRecord.ofJson? (.object members)) ∧
      (∀ levels, Status.ReadsObject levels members (Status.ofJson? levels (.object members))) ∧
      StoreId.ReadsObject members (StoreId.ofJson? (.object members)) := by
  have hid : ∀ id : StoreId, StoreId.ofJson? id.toJson = some id := fun id =>
    (StoreId.readsObject _).arranged id [] (arranges_self id.jsonFields)
  have hstatus : ∀ (s : Status) levels, Status.ofJson? levels s.toJson = some s := by
    intro s levels
    rw [s.toJson_eq]
    exact (Status.readsObject levels _).arranged s [] (arranges_self s.jsonFields)
      fun e he => absurd he List.not_mem_nil
  have hrecord : ∀ r : ContentRecord, ContentRecord.ofJson? r.toJson = some r := fun r =>
    ContentRecord.ofJson?_of_arranges (hid r.id) (hstatus r.status _)
      (arranges_self (r.jsonFields r.id.toJson r.status.toJson))
  refine ⟨fun r => ?_, fun s levels => ?_, fun id => ?_, fun id => ?_, fun members h => h.read_text,
    fun members => ⟨ContentRecord.readsObject members,
      fun levels => Status.readsObject levels members, StoreId.readsObject members⟩⟩
  · rw [r.isExact_toJson.read_text, Option.bind_some, hrecord]
  · rw [s.isExact_toJson.read_text, Option.bind_some, hstatus]
  · rw [id.isExact_toJson.read_text, Option.bind_some, hid]
  · have hexact : id.toJson.IsExact := isExact_ofText id.token
    rw [hexact.read_text, Option.bind_some, id.ofJson?_toJson]

/-- A failure whose fields stand backwards after an unknown one. -/
theorem failed_status_read_backwards :
    let status : Status := .failed 500 "disk \"full\""
    let others : List (String × Value) := [("since", .array [.ofNat 18446744073709551615, .null])]
    let members : Json.Members := [(some "since", .array [.ofNat 18446744073709551615, .null]),
      (some "message", .ofText "disk \"full\""), (some "code", .ofNat 500),
      (some "state", .ofText "failed")]
    (Value.object members).text
        = "\x7b\"since\":[18446744073709551615,null],\"message\":\"disk \\\"full\\\"\","
          ++ "\"code\":500,\"state\":\"failed\"\x7d" ∧
      Arranges status.jsonFields others members ∧ (Value.object members).IsExact ∧
      (read (Value.object members).text).bind (Status.ofJson? (maxLevels - 1)) = some status := by
  intro status others members
  have harranges : Arranges status.jsonFields others members :=
    ⟨(List.reverse_perm members).symm, by decide⟩
  have hexact : (Value.object members).IsExact := by
    have harray : (Value.array [.ofNat 18446744073709551615, .null]).IsExact := by
      refine .array (List.forall_mem_cons.mpr ⟨isExact_ofNat (by decide), ?_⟩)
      exact List.forall_mem_singleton.mpr .null
    refine .object (by decide) ?_
    simp only [members, List.forall_mem_cons]
    exact ⟨harray, isExact_ofText _, isExact_ofNat (by decide), isExact_ofText _,
      fun e he => absurd he List.not_mem_nil⟩
  have hread := stored_types_read_back.2.2.2.2
  have hfits : ∀ e ∈ others, e.2.fits (maxLevels - 1) = true := by decide
  refine ⟨by decide +kernel, harranges, hexact, ?_⟩
  rw [hread.1 members hexact]
  exact ((hread.2 members).2.1 _).arranged status others harranges hfits

/-- Beside the name of a status, a number beyond the doubles is not passed over. -/
theorem status_beside_number_too_large :
    let others : List (String × Value) := [("x", .number (.tooLarge "1e309"))]
    let members : Json.Members := [(some "state", .ofText "ok"),
      (some "x", .number (.tooLarge "1e309"))]
    let text := "\x7b\"state\":\"ok\",\"x\":1e309\x7d"
    Arranges Status.ok.jsonFields others members ∧ (Value.object members).text = text ∧
      (read Status.ok.toJson.text).bind (Status.ofJson? (maxLevels - 1)) = some .ok ∧
      (read text).bind (Status.ofJson? (maxLevels - 1)) = none := by
  exact ⟨⟨.refl _, by decide⟩, by decide +kernel, by decide +kernel, by decide +kernel⟩

end ContentVault
