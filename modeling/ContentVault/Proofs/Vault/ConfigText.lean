import ContentVault.Proofs.Toml.Lines
import ContentVault.Vault.Config
set_option autoImplicit false

/-!
# Configurations as text

A text of lines that give numbers to fields, in any order, is read as the default configuration with
these fields replaced.  So what is written for a configuration is read as the configuration.
-/

namespace ContentVault.StoreConfig

/-! ## Fields -/

/-- A configuration is known by its fields. -/
theorem eq_of_fields_eq {c d : StoreConfig} (h : c.fields = d.fields) : c = d := by
  obtain ⟨_, _, _, _, _, _, _, _, _⟩ := c
  obtain ⟨_, _, _, _, _, _, _, _, _⟩ := d
  simpa only [fields, List.cons.injEq, Prod.mk.injEq, Int.natCast_inj, UInt64.toNat_inj,
    UInt32.toNat_inj, Int32.toInt_inj, true_and, and_true, mk.injEq] using h

theorem map_fields_eq_names (c : StoreConfig) : c.fields.map (·.1) = names := rfl

theorem nodup_names : names.Nodup := by decide

theorem isBare_of_mem_names {name : String} (h : name ∈ names) : Toml.IsBare name := by
  have hall : (names.all fun name => name != "" && name.toList.all Toml.isKeyChar) = true := by
    decide
  have hname := List.all_eq_true.mp hall name h
  rw [Bool.and_eq_true, bne_iff_ne, List.all_eq_true] at hname
  exact ⟨hname.1, hname.2⟩

/-- The number is one that the field may have. -/
def Admits (name : String) (n : Int) : Prop := ∃ c : StoreConfig, (name, n) ∈ c.fields

theorem Admits.mem_names {name : String} {n : Int} (h : Admits name n) : name ∈ names := by
  obtain ⟨c, hc⟩ := h
  exact c.map_fields_eq_names ▸ List.mem_map_of_mem (f := (·.1)) hc

/-- The compression level has a sign, the number of attempts 32 bits, and all others have 64. -/
theorem Admits.range {name : String} {n : Int} (h : Admits name n) :
    if name = "compression_level" then -0x80000000 ≤ n ∧ n < 0x80000000
    else if name = "max_reserve_attempts" then 0 ≤ n ∧ n < UInt32.size
    else 0 ≤ n ∧ n < UInt64.size := by
  obtain ⟨c, hc⟩ := h
  have hword : ∀ w : UInt64, 0 ≤ (w.toNat : Int) ∧ (w.toNat : Int) < UInt64.size := fun w =>
    ⟨Int.natCast_nonneg _, Int.ofNat_lt.mpr w.toNat_lt⟩
  simp only [fields, List.mem_cons, List.not_mem_nil, or_false, Prod.mk.injEq] at hc
  rcases hc with ⟨rfl, rfl⟩ | ⟨rfl, rfl⟩ | ⟨rfl, rfl⟩ | ⟨rfl, rfl⟩ | ⟨rfl, rfl⟩ | ⟨rfl, rfl⟩ |
    ⟨rfl, rfl⟩ | ⟨rfl, rfl⟩ | ⟨rfl, rfl⟩
  · exact hword c.chunkSize
  · exact hword c.maxRecordBytes
  · exact hword c.writeParallelism
  · exact ⟨c.compressionLevel.le_toInt, c.compressionLevel.toInt_lt⟩
  · exact hword c.reservationTtlSecs
  · exact ⟨Int.natCast_nonneg _, Int.ofNat_lt.mpr c.maxReserveAttempts.toNat_lt⟩
  · exact hword c.backoffBaseMicros
  · exact hword c.backoffMaxMillis
  · exact hword c.operationTimeoutMillis

/-! ## Reading fields -/

/-- A field without sign that is given or has a default. -/
def word? {α : Type} (size : Nat) (ofNat : Nat → α) (given : Option Int) (default : α) : Option α :=
  match given with
  | none => some default
  | some n => (wordBelow? size n).map ofNat

/-- The compression level that is given, or its default. -/
def level? (given : Option Int) (default : Int32) : Option Int32 :=
  match given with
  | none => some default
  | some n => if -0x80000000 ≤ n ∧ n < 0x80000000 then some (Int32.ofInt n) else none

theorem exists_word? {α : Type} {size : Nat} {ofNat : Nat → α} (toNat : α → Nat)
    (hofNat : ∀ n < size, toNat (ofNat n) = n) {given : Option Int}
    (h : ∀ n ∈ given, 0 ≤ n ∧ n < size) (default : α) :
    ∃ w, word? size ofNat given default = some w ∧
      (toNat w : Int) = given.getD (toNat default) := by
  cases given with
  | none => exact ⟨default, rfl, rfl⟩
  | some n =>
    obtain ⟨hzero, hbound⟩ := h n rfl
    refine ⟨ofNat n.toNat, ?_, ?_⟩
    · rw [word?, wordBelow?, if_pos ⟨hzero, hbound⟩]
      rfl
    · rw [hofNat n.toNat (by omega)]
      exact Int.toNat_of_nonneg hzero

theorem exists_level? {given : Option Int} (h : ∀ n ∈ given, -0x80000000 ≤ n ∧ n < 0x80000000)
    (default : Int32) :
    ∃ level, level? given default = some level ∧ level.toInt = given.getD default.toInt := by
  cases given with
  | none => exact ⟨default, rfl, rfl⟩
  | some n =>
    refine ⟨Int32.ofInt n, ?_, ?_⟩
    · rw [level?, if_pos (h n rfl)]
    · exact Int32.toInt_ofInt_of_le (h n rfl).1 (h n rfl).2

theorem ofFields?_eq (get : String → Option Int) :
    ofFields? get = (do
      let base : StoreConfig := {}
      let word64? := word? UInt64.size UInt64.ofNat
      let chunkSize ← word64? (get "chunk_size") base.chunkSize
      let maxRecordBytes ← word64? (get "max_record_bytes") base.maxRecordBytes
      let writeParallelism ← word64? (get "write_parallelism") base.writeParallelism
      let compressionLevel ← level? (get "compression_level") base.compressionLevel
      let reservationTtlSecs ← word64? (get "reservation_ttl_secs") base.reservationTtlSecs
      let maxReserveAttempts ←
        word? UInt32.size UInt32.ofNat (get "max_reserve_attempts") base.maxReserveAttempts
      let backoffBaseMicros ← word64? (get "backoff_base_micros") base.backoffBaseMicros
      let backoffMaxMillis ← word64? (get "backoff_max_millis") base.backoffMaxMillis
      let operationTimeoutMillis ←
        word64? (get "operation_timeout_millis") base.operationTimeoutMillis
      some ⟨chunkSize, maxRecordBytes, writeParallelism, compressionLevel, reservationTtlSecs,
        maxReserveAttempts, backoffBaseMicros, backoffMaxMillis, operationTimeoutMillis⟩) := by
  unfold ofFields? level?
  cases get "compression_level" with
  | none => cases get "max_reserve_attempts" <;> rfl
  | some n =>
    by_cases hn : -0x80000000 ≤ n ∧ n < 0x80000000
    · simp only [hn, and_self, if_true]
      cases get "max_reserve_attempts" <;> rfl
    · simp only [hn, if_false]
      cases get "max_reserve_attempts" <;> rfl

/-- Numbers that the fields may have are taken in, each in its field. -/
theorem exists_ofFields? {get : String → Option Int} (h : ∀ name, ∀ n ∈ get name, Admits name n) :
    ∃ c, ofFields? get = some c ∧
      c.fields = ({} : StoreConfig).fields.map fun (name, n) => (name, (get name).getD n) := by
  have hword : ∀ name, name ≠ "compression_level" → name ≠ "max_reserve_attempts" →
      ∀ default : UInt64, ∃ w, word? UInt64.size UInt64.ofNat (get name) default = some w ∧
        (w.toNat : Int) = (get name).getD default.toNat := by
    intro name hlevel hattempts default
    refine exists_word? UInt64.toNat (fun n hn => ?_) (fun n hn => ?_) default
    · rw [UInt64.toNat_ofNat', Nat.mod_eq_of_lt hn]
    · have hrange := (h name n hn).range
      rwa [if_neg hlevel, if_neg hattempts] at hrange
  have hlevel : ∀ default : Int32, ∃ level, level? (get "compression_level") default = some level ∧
      level.toInt = (get "compression_level").getD default.toInt :=
    exists_level? fun n hn => (h _ n hn).range
  have hattempts : ∀ default : UInt32, ∃ w,
      word? UInt32.size UInt32.ofNat (get "max_reserve_attempts") default = some w ∧
        (w.toNat : Int) = (get "max_reserve_attempts").getD default.toNat :=
    exists_word? UInt32.toNat
      (fun n hn => by rw [UInt32.toNat_ofNat', Nat.mod_eq_of_lt hn]) fun n hn => (h _ n hn).range
  let base : StoreConfig := {}
  obtain ⟨chunkSize, hsize, hsize'⟩ := hword "chunk_size" (by decide) (by decide) base.chunkSize
  obtain ⟨maxRecordBytes, hrecord, hrecord'⟩ :=
    hword "max_record_bytes" (by decide) (by decide) base.maxRecordBytes
  obtain ⟨writeParallelism, hlanes, hlanes'⟩ :=
    hword "write_parallelism" (by decide) (by decide) base.writeParallelism
  obtain ⟨compressionLevel, hcompression, hcompression'⟩ := hlevel base.compressionLevel
  obtain ⟨reservationTtlSecs, hlease, hlease'⟩ :=
    hword "reservation_ttl_secs" (by decide) (by decide) base.reservationTtlSecs
  obtain ⟨maxReserveAttempts, hattempt, hattempt'⟩ := hattempts base.maxReserveAttempts
  obtain ⟨backoffBaseMicros, hbase, hbase'⟩ :=
    hword "backoff_base_micros" (by decide) (by decide) base.backoffBaseMicros
  obtain ⟨backoffMaxMillis, hmax, hmax'⟩ :=
    hword "backoff_max_millis" (by decide) (by decide) base.backoffMaxMillis
  obtain ⟨operationTimeoutMillis, htimeout, htimeout'⟩ :=
    hword "operation_timeout_millis" (by decide) (by decide) base.operationTimeoutMillis
  refine ⟨⟨chunkSize, maxRecordBytes, writeParallelism, compressionLevel, reservationTtlSecs,
    maxReserveAttempts, backoffBaseMicros, backoffMaxMillis, operationTimeoutMillis⟩, ?_, ?_⟩
  · rw [ofFields?_eq]
    simp only [base] at hsize hrecord hlanes hcompression hlease hattempt hbase hmax htimeout
    simp only [hsize, hrecord, hlanes, hcompression, hlease, hattempt, hbase, hmax, htimeout,
      Option.bind_eq_bind, Option.bind_some]
  · simp only [fields, List.map_cons, List.map_nil]
    rw [hsize', hrecord', hlanes', hcompression', hlease', hattempt', hbase', hmax', htimeout']

/-! ## Reading lines -/

theorem get?_integers (settings : List (String × Int)) (name : String) :
    (Toml.integers settings).get? name = (settings.lookup name).map .integer := by
  induction settings with
  | nil => rfl
  | cons e settings ih =>
    obtain ⟨key, n⟩ := e
    by_cases hkey : key = name
    · subst hkey
      simp [Toml.integers, Toml.Members.get?]
    · have hfind : (Toml.integers ((key, n) :: settings)).get? name
          = (Toml.integers settings).get? name := by
        simp [Toml.integers, Toml.Members.get?, hkey]
      have hlookup : ((key, n) :: settings).lookup name = settings.lookup name := by
        rw [List.lookup_cons, beq_false_of_ne (Ne.symm hkey)]
      rw [hfind, hlookup, ih]

theorem numbers?_integers (settings : List (String × Int)) :
    numbers? (Toml.integers settings) = some fun name => settings.lookup name := by
  unfold numbers?
  simp only [get?_integers]
  rw [if_pos]
  · refine congrArg some (funext fun name => ?_)
    cases settings.lookup name <;> rfl
  · rw [List.all_eq_true]
    intro name _
    cases settings.lookup name <;> rfl

/-- If a chunk and what stands beside it can be counted, settings that are not accepted are refused
for a reason. -/
theorem exists_reason_of_validate {c : StoreConfig} {failure : Failure VaultError}
    (hexact : c.chunkSize.toNat + 64 < UInt64.size) (h : c.validate = .error failure) :
    ∃ reason, failure = .answered (.invalidConfig reason) := by
  unfold validate at h
  split at h
  next chunkedFailure hchunked =>
    cases chunkedFailure with
    | answered e => exact ⟨_, (Except.error.inj h).symm⟩
    | panicked =>
      have hlarge := (c.chunked.validate_eq_panicked_iff.mp hchunked).2
      exact absurd hexact (Nat.not_lt.mpr hlarge)
  · split at h
    · exact ⟨_, (Except.error.inj h).symm⟩
    · split at h
      · exact ⟨_, (Except.error.inj h).symm⟩
      · split at h
        · exact ⟨_, (Except.error.inj h).symm⟩
        · split at h
          · exact ⟨_, (Except.error.inj h).symm⟩
          · cases h

/-- The fields of the default configuration, with those that are given replaced. -/
def replacing (settings : List (String × Int)) : List (String × Int) :=
  ({} : StoreConfig).fields.map fun (name, n) => (name, (settings.lookup name).getD n)

/-- All fields of a configuration replace all those of the default one. -/
theorem replacing_fields (c : StoreConfig) : replacing c.fields = c.fields := rfl

theorem mem_of_lookup {settings : List (String × Int)} {name : String} {n : Int}
    (h : settings.lookup name = some n) : (name, n) ∈ settings := by
  obtain ⟨before, after, rfl, _⟩ := List.lookup_eq_some_iff.mp h
  exact List.mem_append_right before List.mem_cons_self

/-- No line gives a chunk more bytes than can be counted with those beside it. -/
theorem chunkSize_add_lt {settings : List (String × Int)} {c : StoreConfig}
    (hfields : c.fields = replacing settings)
    (hvalues : ∀ e ∈ settings, Admits e.1 e.2 ∧ e.2 < 0x8000000000000000) :
    c.chunkSize.toNat + 64 < UInt64.size := by
  have hsize : (c.chunkSize.toNat : Int) = (settings.lookup "chunk_size").getD 15728640 :=
    Option.some.inj (congrArg (fun fields => fields.head?.map (·.2)) hfields)
  rw [UInt64.size]
  cases hlookup : settings.lookup "chunk_size" with
  | none =>
    rw [hlookup, Option.getD_none] at hsize
    omega
  | some n =>
    have hn := (hvalues _ (mem_of_lookup hlookup)).2
    rw [hlookup, Option.getD_some] at hsize
    omega

/-- Lines are read as the default configuration with the given fields replaced, which is then
checked. -/
theorem exists_ofToml_lines {settings : List (String × Int)}
    (hnames : (settings.map (·.1)).Nodup)
    (hvalues : ∀ e ∈ settings, Admits e.1 e.2 ∧ e.2 < 0x8000000000000000) :
    ∃ c : StoreConfig, c.fields = replacing settings ∧
      ofToml (String.join (settings.map Toml.line)) = match c.validate with
        | .error failure => .error failure
        | .ok () => .ok c := by
  have hwords : ∀ e ∈ settings, Toml.IsWord e.2 := by
    intro e he
    have hrange := (hvalues e he).1.range
    refine ⟨?_, (hvalues e he).2⟩
    split at hrange
    · omega
    · split at hrange
      · omega
      · omega
  have hread := Toml.read_lines (fun e he => isBare_of_mem_names (hvalues e he).1.mem_names)
    hwords hnames
  have hadmits : ∀ name, ∀ n ∈ settings.lookup name, Admits name n := fun name n hn =>
    (hvalues _ (mem_of_lookup hn)).1
  obtain ⟨c, hc, hfields⟩ := exists_ofFields? hadmits
  refine ⟨c, hfields, ?_⟩
  cases hcheck : c.validate <;>
    simp only [ofToml, hread, Option.bind_some, numbers?_integers, hc, hcheck]

/-! ## Writing -/

theorem toToml?_eq_some {c : StoreConfig} (h : ∀ e ∈ c.fields, e.2 < 0x8000000000000000) :
    c.toToml? = some (String.join (c.fields.map Toml.line)) := by
  refine if_pos (List.all_eq_true.mpr fun e he => ?_)
  exact decide_eq_true (h e he)

theorem toToml?_eq_none_iff (c : StoreConfig) :
    c.toToml? = none ↔ ∃ e ∈ c.fields, 0x8000000000000000 ≤ e.2 := by
  by_cases h : ∀ e ∈ c.fields, e.2 < 0x8000000000000000
  · rw [toToml?_eq_some h]
    simp only [reduceCtorEq, false_iff, not_exists, not_and, Int.not_le]
    exact h
  · have hnone : c.toToml? = none := by
      refine if_neg fun hall => h fun e he => ?_
      exact of_decide_eq_true (List.all_eq_true.mp hall e he)
    simp only [hnone, true_iff]
    simpa only [not_forall, Int.not_lt, exists_prop] using h

/-- A text of lines, each giving a field a number of its type below 2^63, is read as the default
configuration with these fields replaced, or refused as an invalid configuration.  Written and read,
a valid configuration is what it was; only a larger number is not written. -/
theorem lines_mean_fields :
    (∀ settings : List (String × Int), (settings.map (·.1)).Nodup →
      (∀ e ∈ settings, Admits e.1 e.2 ∧ e.2 < 0x8000000000000000) →
      ∃ c : StoreConfig, c.fields = replacing settings ∧
        (c.validate = .ok () → ofToml (String.join (settings.map Toml.line)) = .ok c) ∧
        (c.validate ≠ .ok () → ∃ reason,
          ofToml (String.join (settings.map Toml.line))
            = .error (.answered (.invalidConfig reason)))) ∧
    (∀ c : StoreConfig, (∀ e ∈ c.fields, e.2 < 0x8000000000000000) → c.validate = .ok () →
      ∃ text, c.toToml? = some text ∧ ofToml text = .ok c) ∧
    ∀ c : StoreConfig, c.toToml? = none ↔ ∃ e ∈ c.fields, 0x8000000000000000 ≤ e.2 := by
  refine ⟨fun settings hnames hvalues => ?_, fun c hsmall hvalid => ?_, toToml?_eq_none_iff⟩
  · obtain ⟨c, hfields, hread⟩ := exists_ofToml_lines hnames hvalues
    refine ⟨c, hfields, fun hvalid => ?_, fun hinvalid => ?_⟩
    · rw [hread, hvalid]
    · cases hvalidate : c.validate with
      | ok _ => exact absurd hvalidate hinvalid
      | error failure =>
        obtain ⟨reason, rfl⟩ :=
          exists_reason_of_validate (chunkSize_add_lt hfields hvalues) hvalidate
        rw [hread, hvalidate]
        exact ⟨reason, rfl⟩
  · have hnames : (c.fields.map (·.1)).Nodup := nodup_names
    obtain ⟨d, hfields, hread⟩ :=
      exists_ofToml_lines hnames fun e he => ⟨⟨c, he⟩, hsmall e he⟩
    obtain rfl := eq_of_fields_eq (hfields.trans (replacing_fields c))
    rw [hvalid] at hread
    exact ⟨_, toToml?_eq_some hsmall, hread⟩

/-- Two fields, against their order and at the end of the range. -/
theorem two_lines_mean_fields :
    let settings : List (String × Int) :=
      [("operation_timeout_millis", 9223372036854775807), ("chunk_size", 1024)]
    let c : StoreConfig := { chunkSize := 1024, operationTimeoutMillis := 9223372036854775807 }
    (settings.map (·.1)).Nodup ∧
      (∀ e ∈ settings, Admits e.1 e.2 ∧ e.2 < 0x8000000000000000) ∧ c.validate = .ok () ∧
      ofToml "operation_timeout_millis = 9223372036854775807\nchunk_size = 1024\n" = .ok c ∧
      (∀ e ∈ c.fields, e.2 < 0x8000000000000000) ∧
      ∃ text, c.toToml? = some text ∧ ofToml text = .ok c := by
  intro settings c
  have hnames : (settings.map (·.1)).Nodup := by decide
  have hvalues : ∀ e ∈ settings, Admits e.1 e.2 ∧ e.2 < 0x8000000000000000 := by
    refine List.forall_mem_cons.mpr ⟨⟨⟨c, by decide⟩, by decide⟩, ?_⟩
    exact List.forall_mem_singleton.mpr ⟨⟨c, by decide⟩, by decide⟩
  have hvalid : c.validate = .ok () := by decide +kernel
  have hsmall : ∀ e ∈ c.fields, e.2 < 0x8000000000000000 := by decide
  obtain ⟨d, hfields, hread, _⟩ := lines_mean_fields.1 settings hnames hvalues
  obtain rfl : d = c := eq_of_fields_eq hfields
  exact ⟨hnames, hvalues, hvalid, hread hvalid, hsmall, lines_mean_fields.2.1 c hsmall hvalid⟩

end ContentVault.StoreConfig
