import HistoryBackendMem.System.Flush
import HistoryBackendMem.System.Config

/-!
# System — the host's calls never fault

`Booted` is the set of states a boot reaches and then a run of host calls.
Unlike a state of `Reachable`, whose records are arbitrary, its records are
the ones `MOD_TEST`, the post-test and the run hooks leave: the timer's cursor
is inside the table and the test record has a `master.db` path (`BootInv`).

From such a state no call of the host faults (`host_calls_never_fault`):
adds with named tags, limits, requests, destroys, `+P` changes and rehashes
always go through, and a timer call goes through when `persist` is off or the
live record can write. What remains is the boot-time load, and a timer call
that must write with a live record that cannot.

Each function has its lemma: the object it works on (`withObject_isSome`),
the configuration hooks (`checkRound_isSome`, `configRunRound_isSome`), and
the timer's loops, one object, one chain, one body, one call, as in
`System.Flush`.
-/

namespace HistoryBackendMem

variable (H : Host)

/-- The states a boot reaches, then a run of operations allowed by `ok`. -/
inductive Booted (ok : Op → Prop) : Sys → Prop where
  | boot {disk : Disk} {entries : List ConfigEntry} {io : PosttestIO} {s : Sys} :
      boot H disk entries io = some s → Booted ok s
  | tail {s s' : Sys} {op : Op} : Booted ok s → ok op → step H s op = some s' → Booted ok s'

variable {H}

/-- A booted state is reachable: the boot leaves the table empty. -/
theorem Booted.reachable {ok : Op → Prop} {s : Sys} (hb : Booted H ok s) : Reachable H ok s := by
  induction hb with
  | boot h =>
    obtain ⟨r, -, rfl⟩ := Option.map_eq_some'.mp h
    exact .init _ rfl
  | tail _ hop hst ih => exact .tail ih hop hst

/-! ## The records of a booted state -/

/-- What a boot sets up and every step keeps: the timer's cursor is inside the
table, and the test record has a `master.db` path. -/
structure BootInv (s : Sys) : Prop where
  cursor : s.hashnum < hashTableSize
  masterdb : s.test.masterdb.isSome

theorem setcfg_masterdb (c : CfgStruct) : (setcfg H c).masterdb.isSome := rfl

/-- The post-test resets the test record with `setcfg`, which sets its path. -/
theorem checkRound_masterdb {test cfg : CfgStruct} {disk : Disk} {entries : List ConfigEntry}
    {io : PosttestIO} {r : Bool × Posttest} (h : checkRound H test cfg disk entries io = some r) :
    r.2.test.masterdb.isSome := by
  obtain ⟨p, hp, rfl⟩ := Option.map_eq_some'.mp h
  obtain ⟨_, -, rfl⟩ := Option.map_eq_some'.mp hp
  exact setcfg_masterdb _

/-- One call of the timer moves the cursor to a bucket of the table. -/
theorem historyMemClean_cursor {cfg : CfgStruct} {chanP : List Char → Bool} {now : Int}
    {io : Fin hashTableSize → Nat → WriteIO} {hashnum n : Nat} {tb tb' : Table} {disk d : Disk}
    (hh : hashnum < hashTableSize)
    (h : historyMemClean H cfg chanP now io hashnum tb disk = some (n, tb', d)) :
    n < hashTableSize := by
  rw [historyMemClean_eq H cfg chanP now io hh] at h
  obtain ⟨_, -, hr⟩ := Option.map_eq_some'.mp h
  cases hr
  exact Nat.mod_lt _ (by decide)

theorem BootInv.boot {disk : Disk} {entries : List ConfigEntry} {io : PosttestIO} {s : Sys}
    (h : boot H disk entries io = some s) : BootInv s := by
  obtain ⟨⟨cfg, test, d⟩, hb, rfl⟩ := Option.map_eq_some'.mp h
  obtain ⟨r, hc, hrun⟩ := Option.bind_eq_some.mp hb
  split at hrun
  · cases hrun
  · obtain ⟨_, -, hr⟩ := Option.map_eq_some'.mp hrun
    cases hr
    exact ⟨show 0 < hashTableSize by decide, checkRound_masterdb hc⟩

theorem BootInv.step {s s' : Sys} {op : Op} (hi : BootInv s) (hst : step H s op = some s') :
    BootInv s' := by
  cases op with
  | tick now io =>
    obtain ⟨⟨n, tb', d⟩, h, rfl⟩ := Option.map_eq_some'.mp hst
    exact ⟨historyMemClean_cursor hi.cursor h, hi.masterdb⟩
  | rehash entries io =>
    obtain ⟨⟨cfg', test', d⟩, h, rfl⟩ := Option.map_eq_some'.mp hst
    obtain ⟨r, hc, hrun⟩ := Option.bind_eq_some.mp h
    refine ⟨hi.cursor, ?_⟩
    split at hrun
    · cases hrun; exact checkRound_masterdb hc
    · obtain ⟨_, -, hr⟩ := Option.map_eq_some'.mp hrun
      cases hr; exact checkRound_masterdb hc
  | setModeP chname => cases hst; exact ⟨hi.cursor, hi.masterdb⟩
  | _ =>
    rw [HistoryBackendMem.step] at hst
    obtain ⟨_, -, rfl⟩ := Option.map_eq_some'.mp hst
    exact ⟨hi.cursor, hi.masterdb⟩

theorem Booted.inv {ok : Op → Prop} {s : Sys} (hb : Booted H ok s) : BootInv s := by
  induction hb with
  | boot h => exact .boot h
  | tail _ _ hst ih => exact ih.step hst

/-! ## The store's calls -/

/-- `withObject` goes through when `f` does on the object found or the new
one: the position `hbm_find_or_add_object` returns is always in the chain. -/
theorem withObject_isSome {tb : Table} {object : String}
    {f : HistoryLogObject → Option HistoryLogObject}
    (hf : ∀ h, h ∈ tb (hbmHash H object) ∨ h = .new (strlcpyName H object) → (f h).isSome) :
    (withObject H tb object f).isSome := by
  simp only [withObject, hbmFindOrAddObject]
  cases hfind : (tb (hbmHash H object)).findIdx? (fun x => strcasecmp object x.name) with
  | none =>
    obtain ⟨h', hh'⟩ := Option.isSome_iff_exists.mp (hf _ (.inr rfl))
    simp [hh']
  | some i =>
    obtain ⟨hlt, -, -⟩ := List.findIdx?_eq_some_iff_getElem.mp hfind
    obtain ⟨h', hh'⟩ := Option.isSome_iff_exists.mp (hf _ (.inl (List.getElem_mem hlt)))
    simp [List.getElem?_eq_getElem hlt, hh']

/-- The object `hbm_find_or_add_object` returns is well formed: one of the
table, or a new one. -/
theorem objOk_or_new {tb : Table} (hok : tb.All (ObjOk H)) {object : String}
    {h : HistoryLogObject} (hh : h ∈ tb (hbmHash H object) ∨ h = .new (strlcpyName H object)) :
    ∃ cells, LogOk H h cells ∧ 0 ≤ h.maxLines := by
  rcases hh with hh | rfl
  · obtain ⟨⟨cells, hl⟩, hm⟩ := hok _ h hh
    exact ⟨cells, hl, by omega⟩
  · exact ⟨[], LogOk.new H _, le_refl _⟩

theorem hbmHistoryAdd_isSome {tb : Table} (hok : tb.All (ObjOk H)) (object : String)
    {mtags : List MessageTag} (hn : TagsNamed mtags) (line clock : String) :
    (hbmHistoryAdd H tb object mtags line clock).isSome :=
  withObject_isSome fun h hh => by
    obtain ⟨cells, hl, hm⟩ := objOk_or_new hok hh
    obtain ⟨e, he⟩ := Option.isSome_iff_exists.mp (newEntry_isSome H hn line clock)
    obtain ⟨h', hrun, -⟩ := addToObject_spec H hl.inv hm he
    simp [hrun]

/-- `hbm_history_set_limit` goes through whatever the limits: the cleanup ends
on any well-formed chain. -/
theorem hbmHistorySetLimit_isSome {tb : Table} (hok : tb.All (ObjOk H)) (object : String)
    (maxLines maxTime now : Int) : (hbmHistorySetLimit H tb object maxLines maxTime now).isSome :=
  withObject_isSome fun h hh => by
    obtain ⟨cells, hl, -⟩ := objOk_or_new hok hh
    obtain ⟨h', hrun, -⟩ := hbmHistoryCleanup_spec (hl.inv.setLimits maxLines maxTime) now
    simp [hrun]

theorem hbmHistoryRequest_isSome {tb : Table} (hok : tb.All (ObjOk H)) (object : String)
    (filter : Option HistoryFilter) (now : Int) (clock : String) :
    (hbmHistoryRequest H tb object filter now clock).isSome := by
  cases hf : hbmFindObject H tb object with
  | none => simp [hbmHistoryRequest_of_none H hf]
  | some h =>
    obtain ⟨cells, hl⟩ := (hok _ h (hbmFindObject_mem hf)).log
    simp [hbmHistoryRequest_eq H hf hl.inv hl.timed]

theorem hbmModecharDel_isSome (cfg : CfgStruct) (tb : Table) (disk : Disk) (chname : String)
    (modechar : Char) : (hbmModecharDel H cfg tb disk chname modechar).isSome := by
  unfold hbmModecharDel
  split
  · split
    · rfl
    · rename_i h _
      simpa using hbmDeleteDb_isSome H cfg disk h.name
  · rfl

/-! ## A rehash -/

/-- The test hooks keep a `master.db` path: only `directory` sets a new one. -/
theorem hbmConfigTest_masterdb {test : CfgStruct} (h : test.masterdb.isSome) (type : ConfigType)
    (ce : ConfigEntry) : (hbmConfigTest H test type ce).2.1.masterdb.isSome := by
  unfold hbmConfigTest
  repeat' split
  all_goals first | exact h | rfl

theorem configTestRound_masterdb {test : CfgStruct} (h : test.masterdb.isSome)
    (entries : List ConfigEntry) : (configTestRound H test entries).1.masterdb.isSome := by
  suffices ∀ (entries : List ConfigEntry) (acc : CfgStruct × Bool × List ConfigMsg),
      acc.1.masterdb.isSome → (entries.foldl (configTestStep H) acc).1.masterdb.isSome from
    this entries _ h
  intro entries
  induction entries with
  | nil => exact fun _ h => h
  | cons ce rest ih => exact fun acc h => ih _ (hbmConfigTest_masterdb h _ ce)

/-- **A `persist` entry without a value fails the round**: its test hook
reports the missing parameter. -/
theorem configTestRound_fails {test : CfgStruct} {entries : List ConfigEntry} {ce : ConfigEntry}
    (hce : ce ∈ entries) (hp : ce.varname = some "persist") (hv : ce.vardata = none) :
    (configTestRound H test entries).2.1 = true := by
  suffices ∀ (entries : List ConfigEntry) (acc : CfgStruct × Bool × List ConfigMsg),
      (acc.2.1 = true ∨ ce ∈ entries) → (entries.foldl (configTestStep H) acc).2.1 = true from
    this entries _ (.inr hce)
  intro entries
  induction entries with
  | nil => exact fun _ h => h.resolve_right (List.not_mem_nil _)
  | cons c rest ih =>
    intro acc h
    refine ih _ ?_
    rcases h with h | hc
    · exact .inl (by simp [configTestStep, h])
    · rcases List.mem_cons.mp hc with rfl | hc
      · exact .inl (by simp [configTestStep, hbmConfigTest, hp, hv])
      · exact .inr hc

/-- A check whose test hooks failed fails. -/
theorem checkRound_fails {test cfg : CfgStruct} {disk : Disk} {entries : List ConfigEntry}
    {io : PosttestIO} {r : Bool × Posttest} (h : checkRound H test cfg disk entries io = some r)
    (hf : (configTestRound H test entries).2.1 = true) : r.1 = true := by
  obtain ⟨p, -, rfl⟩ := Option.map_eq_some'.mp h
  simp [hf]

/-- The post-test never faults when the test record has a `master.db` path:
`hbm_write_masterdb`'s `abort()` on a NULL secret is behind the check that
the secret is set. -/
theorem posttestChecks_isSome {test : CfgStruct} (hm : test.masterdb.isSome) (cfg : CfgStruct)
    (disk : Disk) (io : PosttestIO) : (posttestChecks test cfg disk io).isSome := by
  obtain ⟨path, hpath⟩ := Option.isSome_iff_exists.mp hm
  unfold posttestChecks
  split
  · rfl
  · rfl
  · rename_i secret hsec _
    split
    · rfl
    · split
      · simp only [hbmReadMasterdb, hpath, Option.some_bind]
        split
        · simp [hbmWriteMasterdb, hsec]
        · split <;> rfl
      · rfl
  · rfl

theorem checkRound_isSome {test : CfgStruct} (hm : test.masterdb.isSome) (cfg : CfgStruct)
    (disk : Disk) (entries : List ConfigEntry) (io : PosttestIO) :
    (checkRound H test cfg disk entries io).isSome := by
  obtain ⟨r, hr⟩ := Option.isSome_iff_exists.mp
    (posttestChecks_isSome (@configTestRound_masterdb H test hm entries) cfg disk io)
  simp [checkRound, hbmConfigPosttest, hr]

/-- A run hook faults only on a `persist` entry without a value
(`config_checkval(NULL, ...)`). -/
theorem hbmConfigRun_isSome (cfg : CfgStruct) (type : ConfigType) {ce : ConfigEntry}
    (h : ce.varname = some "persist" → ce.vardata.isSome) : (hbmConfigRun H cfg type ce).isSome := by
  unfold hbmConfigRun
  split
  · rename_i v hv
    split
    · rename_i hp
      subst hp
      simpa using h hv
    · split
      · rfl
      · split <;> rfl
  · rfl

theorem configRunRound_isSome :
    ∀ (cfg : CfgStruct) (entries : List ConfigEntry),
      (∀ ce ∈ entries, ce.varname = some "persist" → ce.vardata.isSome) →
      (configRunRound H cfg entries).isSome
  | _, [], _ => rfl
  | cfg, ce :: rest, h => by
    obtain ⟨r, hr⟩ := Option.isSome_iff_exists.mp
      (hbmConfigRun_isSome cfg .setHistoryChannel (h ce (List.mem_cons_self _ _)))
    rw [configRunRound, hr, Option.some_bind]
    exact configRunRound_isSome _ rest fun c hc => h c (List.mem_cons_of_mem _ hc)

/-- **A rehash never faults** when the test record has a `master.db` path:
the run hooks only see a round whose test hooks all passed. -/
theorem rehashRound_isSome {cfg test : CfgStruct} (hm : test.masterdb.isSome) (disk : Disk)
    (entries : List ConfigEntry) (io : PosttestIO) :
    (rehashRound H cfg test disk entries io).isSome := by
  obtain ⟨r, hr⟩ := Option.isSome_iff_exists.mp (checkRound_isSome hm cfg disk entries io)
  rw [rehashRound, hr, Option.some_bind]
  split
  · rfl
  · rename_i hpass
    have hval : ∀ ce ∈ entries, ce.varname = some "persist" → ce.vardata.isSome := by
      intro ce hce hp
      cases hv : ce.vardata with
      | none => exact absurd (checkRound_fails hr (configTestRound_fails hce hp hv)) hpass
      | some _ => rfl
    simpa using configRunRound_isSome (hbmRehash H r.2.cfg) entries hval

/-! ## A timer call -/

/-- `hbm_write_db` never faults when the live record can write and the chain
ends, whatever its file calls answer. -/
theorem hbmWriteDb_isSome {cfg : CfgStruct} (hw : cfg.Writes) (chanP : List Char → Bool)
    (io : WriteIO) (disk : Disk) {h : HistoryLogObject} (hc : h.chain.isSome) :
    (hbmWriteDb H cfg chanP io disk h).isSome := by
  obtain ⟨secret, hsec⟩ := Option.isSome_iff_exists.mp hw.secret
  obtain ⟨pre, hpre⟩ := Option.isSome_iff_exists.mp hw.prehash
  obtain ⟨post, hpost⟩ := Option.isSome_iff_exists.mp hw.posthash
  obtain ⟨cells, hcells⟩ := Option.isSome_iff_exists.mp hc
  unfold hbmWriteDb
  simp only [hsec, Option.some_bind]
  split
  · simp only [hbmHistoryFilename, hpre, hpost, Option.some_bind, hcells, Option.map_some']
    split <;> rfl
  · rfl

section Timer

variable {cfg : CfgStruct} (hcfg : cfg.persist = false ∨ cfg.Writes) (chanP : List Char → Bool)
  (now : Int)
include hcfg

/-- A timer visit of a well-formed log goes through and leaves it well formed
when nothing is written or the live record can write. -/
theorem ObjOk.tickObject_some {io : WriteIO} {disk : Disk} {h : HistoryLogObject}
    (ho : ObjOk H h) :
    ∃ h' d, HistoryBackendMem.tickObject H cfg chanP now io disk h = some (h', d) ∧ ObjOk H h' := by
  obtain ⟨cells, hl⟩ := ho.log
  obtain ⟨h₁, hc, hs⟩ := hbmHistoryCleanup_spec hl.inv now
  suffices (HistoryBackendMem.tickObject H cfg chanP now io disk h).isSome by
    obtain ⟨⟨h', d⟩, ht⟩ := Option.isSome_iff_exists.mp this
    exact ⟨h', d, ht, ho.tickObject ht⟩
  rw [HistoryBackendMem.tickObject, hc, Option.some_bind]
  split
  · rename_i hpd
    have hw : cfg.Writes := hcfg.resolve_left (by simp [hpd.1])
    simpa using hbmWriteDb_isSome hw chanP io disk (by simp [hs.inv.chain_eq])
  · rfl

theorem cleanBucket_some :
    ∀ (io : Nat → WriteIO) (disk : Disk) (l : List HistoryLogObject), (∀ h ∈ l, ObjOk H h) →
      ∃ l' d, cleanBucket H cfg chanP now io disk l = some (l', d) ∧ ∀ h ∈ l', ObjOk H h
  | _, disk, [], _ => ⟨[], disk, rfl, fun _ h => nomatch h⟩
  | io, disk, h :: l, hl => by
    obtain ⟨h', d, ht, hok⟩ := (hl h (List.mem_cons_self _ _)).tickObject_some hcfg chanP now
    obtain ⟨l', d', hc, hall⟩ :=
      cleanBucket_some (fun k => io (k + 1)) d l fun x hx => hl x (List.mem_cons_of_mem _ hx)
    refine ⟨h' :: l', d', ?_, List.forall_mem_cons.mpr ⟨hok, hall⟩⟩
    rw [cleanBucket, ht, Option.some_bind]
    exact congrArg (Option.map _) hc

theorem cleanBody_some (io : Fin hashTableSize → Nat → WriteIO) {hashnum : Nat}
    (hh : hashnum < hashTableSize) (tb : Table) (disk : Disk) (hok : tb.All (ObjOk H)) :
    ∃ tb' d, cleanBody H cfg chanP now io hashnum tb disk = some (tb', d) ∧ tb'.All (ObjOk H) := by
  obtain ⟨l', d, hc, hall⟩ :=
    cleanBucket_some hcfg chanP now (io ⟨hashnum, hh⟩) disk (tb ⟨hashnum, hh⟩) (hok _)
  refine ⟨Function.update tb ⟨hashnum, hh⟩ l', d, by simp [cleanBody, hh, hc], fun b x hx => ?_⟩
  by_cases hb : b = ⟨hashnum, hh⟩
  · subst hb; exact hall x (by simpa using hx)
  · exact hok b x (by simpa [Function.update_noteq hb] using hx)

theorem cleanBodies_some (io : Fin hashTableSize → Nat → WriteIO) :
    ∀ (bs : List Nat) (tb : Table) (disk : Disk), (∀ b ∈ bs, b < hashTableSize) →
      tb.All (ObjOk H) → (cleanBodies H cfg chanP now io bs tb disk).isSome
  | [], _, _, _, _ => rfl
  | c :: bs, tb, disk, hbs, hok => by
    obtain ⟨tb₁, d₁, hbody, hok₁⟩ :=
      cleanBody_some hcfg chanP now io (hbs c (List.mem_cons_self _ _)) tb disk hok
    rw [cleanBodies, hbody, Option.some_bind]
    exact cleanBodies_some io bs tb₁ d₁ (fun b hb => hbs b (List.mem_cons_of_mem _ hb)) hok₁

/-- **A timer call never faults** on a table of well-formed logs with the
cursor inside it, when nothing is written or the live record can write. -/
theorem historyMemClean_isSome (io : Fin hashTableSize → Nat → WriteIO) {hashnum : Nat}
    (hh : hashnum < hashTableSize) (tb : Table) (disk : Disk) (hok : tb.All (ObjOk H)) :
    (historyMemClean H cfg chanP now io hashnum tb disk).isSome := by
  rw [historyMemClean_eq H cfg chanP now io hh]
  simpa using cleanBodies_some hcfg chanP now io _ tb disk
    (by simp only [List.mem_map]; rintro _ ⟨i, -, rfl⟩; exact Nat.mod_lt _ (by decide)) hok

end Timer

/-! ## Every call -/

/-- **The host's calls never fault**: in a state a boot and then a run of host
calls reach (boot-time loads included), an add with named tags, a limit
(whatever its values), a request, a destroy, a change of `+P` and a rehash all
go through; a timer call goes through when `persist` is off or the live record
can write (its db-secret and both salts are set). -/
theorem host_calls_never_fault {s : Sys} (hb : Booted H Op.HostOk s) :
    (∀ object mtags line clock, TagsNamed mtags → (step H s (.add object mtags line clock)).isSome) ∧
    (∀ object maxLines maxTime now, (step H s (.setLimit object maxLines maxTime now)).isSome) ∧
    (∀ object filter now clock, (step H s (.request object filter now clock)).isSome) ∧
    (∀ object, (step H s (.destroy object)).isSome) ∧
    (∀ chname, (step H s (.setModeP chname)).isSome ∧ (step H s (.unsetModeP chname)).isSome) ∧
    (∀ entries io, (step H s (.rehash entries io)).isSome) ∧
    (s.cfg.persist = false ∨ s.cfg.Writes → ∀ now io, (step H s (.tick now io)).isSome) := by
  have hok := reachable_objOk (fun _ h => h) hb.reachable
  have hi := hb.inv
  refine ⟨fun object mtags line clock hn => ?_, fun object maxLines maxTime now => ?_,
    fun object filter now clock => ?_, fun object => ?_, fun chname => ⟨rfl, ?_⟩,
    fun entries io => ?_, fun hcfg now io => ?_⟩
  · simpa [step] using hbmHistoryAdd_isSome hok object hn line clock
  · simpa [step] using hbmHistorySetLimit_isSome hok object maxLines maxTime now
  · simpa [step] using hbmHistoryRequest_isSome hok object filter now clock
  · simpa [step] using hbmHistoryDestroy_isSome H s.cfg s.table s.disk object
  · simpa [step] using hbmModecharDel_isSome s.cfg s.table s.disk chname 'P'
  · simpa [step] using rehashRound_isSome hi.masterdb s.disk entries io
  · simpa [step] using historyMemClean_isSome hcfg s.chanP now io hi.cursor s.table s.disk hok

theorem host_calls_never_fault_boot :
    Booted Host.sample Op.HostOk persistBoot ∧
    (∀ object mtags line clock, TagsNamed mtags →
      (step Host.sample persistBoot (.add object mtags line clock)).isSome) ∧
    (∀ object maxLines maxTime now,
      (step Host.sample persistBoot (.setLimit object maxLines maxTime now)).isSome) ∧
    (∀ object filter now clock,
      (step Host.sample persistBoot (.request object filter now clock)).isSome) ∧
    (∀ object, (step Host.sample persistBoot (.destroy object)).isSome) ∧
    (∀ chname, (step Host.sample persistBoot (.setModeP chname)).isSome ∧
      (step Host.sample persistBoot (.unsetModeP chname)).isSome) ∧
    (∀ entries io, (step Host.sample persistBoot (.rehash entries io)).isSome) ∧
    (persistBoot.cfg.persist = false ∨ persistBoot.cfg.Writes →
      ∀ now io, (step Host.sample persistBoot (.tick now io)).isSome) :=
  have hb : Booted Host.sample Op.HostOk persistBoot :=
    .boot (show boot Host.sample (fun _ => none) persistEntries okIO = some persistBoot from rfl)
  ⟨hb, host_calls_never_fault hb⟩

/-! ## What a rehash leaves live -/

/-- `c'` is `c` with, at most, other salts. -/
def CfgStruct.SaltsOnly (c c' : CfgStruct) : Prop :=
  c' = { c with prehash := c'.prehash, posthash := c'.posthash }

theorem CfgStruct.SaltsOnly.refl (c : CfgStruct) : c.SaltsOnly c := rfl

theorem CfgStruct.SaltsOnly.persist {c c' : CfgStruct} (h : c.SaltsOnly c') :
    c'.persist = c.persist := by
  unfold CfgStruct.SaltsOnly at h; rw [h]

theorem hbmWriteMasterdb_saltsOnly {test cfg : CfgStruct} {path : String} {disk : Disk}
    {io : PosttestIO} {r : Bool × CfgStruct × Disk × List ConfigMsg}
    (h : hbmWriteMasterdb test cfg path disk io = some r) : cfg.SaltsOnly r.2.1 := by
  obtain ⟨_, -, rfl⟩ := Option.map_eq_some'.mp h
  split
  · exact .refl _
  all_goals rfl

theorem hbmReadMasterdb_saltsOnly {test cfg : CfgStruct} {disk : Disk} {io : PosttestIO}
    {r : Bool × CfgStruct × Disk × List ConfigMsg} (h : hbmReadMasterdb test cfg disk io = some r) :
    cfg.SaltsOnly r.2.1 := by
  obtain ⟨path, -, h⟩ := Option.bind_eq_some.mp h
  split at h
  · obtain ⟨w, hw, rfl⟩ := Option.map_eq_some'.mp h
    exact (hbmWriteMasterdb_saltsOnly hw :)
  · split at h
    · cases h; exact .refl _
    · cases h
      unfold readMasterValues
      split <;> rfl

/-- **The post-test changes no field of the live record but the salts** it
reads from, or writes to, `master.db`. -/
theorem posttestChecks_saltsOnly {test cfg : CfgStruct} {disk : Disk} {io : PosttestIO}
    {r : Nat × CfgStruct × Disk × List ConfigMsg} (h : posttestChecks test cfg disk io = some r) :
    cfg.SaltsOnly r.2.1 := by
  unfold posttestChecks at h
  repeat' split at h
  all_goals first
    | (cases h; exact .refl _)
    | (obtain ⟨m, hm, rfl⟩ := Option.map_eq_some'.mp h; exact hbmReadMasterdb_saltsOnly hm)

theorem checkRound_saltsOnly {test cfg : CfgStruct} {disk : Disk} {entries : List ConfigEntry}
    {io : PosttestIO} {r : Bool × Posttest} (h : checkRound H test cfg disk entries io = some r) :
    cfg.SaltsOnly r.2.cfg := by
  obtain ⟨p, hp, rfl⟩ := Option.map_eq_some'.mp h
  obtain ⟨q, hq, rfl⟩ := Option.map_eq_some'.mp hp
  exact posttestChecks_saltsOnly hq

/-- A run hook for another variable than `persist` and `db-secret` changes
neither. -/
theorem hbmConfigRun_persist_secret {cfg cfg' : CfgStruct} {type : ConfigType} {ce : ConfigEntry}
    {ret : Int} (hno : ce.varname ≠ some "persist" ∧ ce.varname ≠ some "db-secret")
    (h : hbmConfigRun H cfg type ce = some (ret, cfg')) :
    cfg'.persist = cfg.persist ∧ cfg'.dbSecret = cfg.dbSecret := by
  unfold hbmConfigRun at h
  split at h
  · rename_i v hv
    split at h
    · rename_i hp; subst hp; exact absurd hv hno.1
    · split at h
      · cases h; exact ⟨rfl, rfl⟩
      · split at h
        · rename_i hs; subst hs; exact absurd hv hno.2
        · cases h; exact ⟨rfl, rfl⟩
  · cases h; exact ⟨rfl, rfl⟩

theorem configRunRound_persist_secret {cfg cfg' : CfgStruct} :
    ∀ {entries : List ConfigEntry},
      (∀ ce ∈ entries, ce.varname ≠ some "persist" ∧ ce.varname ≠ some "db-secret") →
      configRunRound H cfg entries = some cfg' →
      cfg'.persist = cfg.persist ∧ cfg'.dbSecret = cfg.dbSecret
  | [], _, h => by cases h; exact ⟨rfl, rfl⟩
  | ce :: rest, hno, h => by
    obtain ⟨⟨ret, c⟩, hc, hr⟩ := Option.bind_eq_some.mp h
    obtain ⟨h₁, h₂⟩ := hbmConfigRun_persist_secret (hno ce (List.mem_cons_self _ _)) hc
    obtain ⟨h₃, h₄⟩ := configRunRound_persist_secret (fun c hc => hno c (List.mem_cons_of_mem _ hc)) hr
    exact ⟨h₃.trans h₁, h₄.trans h₂⟩

/-- With `persist` on and a NULL `db-secret`, the timer's visit of a dirty log
faults: the cleanup keeps it dirty, and `hbm_write_db` aborts. -/
theorem tickObject_dirty_without_secret {cfg : CfgStruct} (hp : cfg.persist = true)
    (hs : cfg.dbSecret = none) (chanP : List Char → Bool) (now : Int) (io : WriteIO) (disk : Disk)
    {g : HistoryLogObject} (hg : ObjOk H g) (hd : g.dirty = true) :
    tickObject H cfg chanP now io disk g = none := by
  obtain ⟨cells, hl⟩ := hg.log
  obtain ⟨g₁, hc, hsw⟩ := hbmHistoryCleanup_spec hl.inv now
  have hd₁ : g₁.dirty = true := by rw [hsw.dirty, hd, Bool.true_or]
  simp [tickObject, hc, hp, hd₁, hbmWriteDb, hs]

section Abort

variable {cfg : CfgStruct} (hp : cfg.persist = true) (hs : cfg.dbSecret = none)
  {chanP : List Char → Bool} {now : Int} {g : HistoryLogObject} (hg : ObjOk H g)
  (hd : g.dirty = true)
include hp hs hg hd

/-- The `for` over a bucket chain that holds a dirty log faults. -/
theorem cleanBucket_dirty_without_secret :
    ∀ (io : Nat → WriteIO) (disk : Disk) (l : List HistoryLogObject), g ∈ l →
      cleanBucket H cfg chanP now io disk l = none
  | _, _, [], hl => nomatch hl
  | io, disk, h :: l, hl => by
    rw [cleanBucket]
    rcases List.mem_cons.mp hl with rfl | hl
    · rw [tickObject_dirty_without_secret hp hs chanP now _ disk hg hd]; rfl
    · cases tickObject H cfg chanP now (io 0) disk h with
      | none => rfl
      | some r =>
        rw [Option.some_bind, cleanBucket_dirty_without_secret _ _ l hl]; rfl

/-- Bodies on distinct buckets, one of which holds a dirty log, fault: the
bodies before it leave its bucket as it is. -/
theorem cleanBodies_dirty_without_secret (io : Fin hashTableSize → Nat → WriteIO) :
    ∀ (bs : List Nat) (tb : Table) (disk : Disk) (b : Fin hashTableSize), bs.Nodup →
      b.val ∈ bs → g ∈ tb b → cleanBodies H cfg chanP now io bs tb disk = none
  | [], _, _, _, _, hb, _ => nomatch hb
  | c :: bs, tb, disk, b, hnd, hb, hgb => by
    rw [cleanBodies, cleanBody]
    rcases List.mem_cons.mp hb with rfl | hb
    · have hc : cleanBucket H cfg chanP now (io b) disk (tb ⟨b.val, b.isLt⟩) = none :=
        cleanBucket_dirty_without_secret hp hs hg hd _ _ _ hgb
      rw [dif_pos b.isLt, hc]; rfl
    · split
      · rename_i hc
        cases hcb : cleanBucket H cfg chanP now (io ⟨c, hc⟩) disk (tb ⟨c, hc⟩) with
        | none => rfl
        | some r =>
          have hbc : b ≠ ⟨c, hc⟩ := fun h => (List.nodup_cons.mp hnd).1 (by subst h; exact hb)
          rw [Option.map_some', Option.some_bind]
          exact cleanBodies_dirty_without_secret io bs _ _ b (List.nodup_cons.mp hnd).2 hb
            (by dsimp only; rw [Function.update_noteq hbc]; exact hgb)
      · rfl

end Abort

/-- The buckets one timer call visits are distinct. -/
theorem cursors_nodup (hashnum : Nat) :
    ((List.range (historyCleanPerLoop + 1)).map fun i => (hashnum + i) % hashTableSize).Nodup := by
  refine (List.nodup_range _).map_on fun i hi j hj hij => ?_
  simp only [List.mem_range, historyCleanPerLoop, historySpread, hashTableSize] at hi hj hij
  omega

/-- **A rehash keeps `persist` but drops the secret**: `hbm_rehash` frees the
live record's strings and never resets `persist`, so a round the check accepts
with neither a `persist` nor a `db-secret` entry leaves `persist` on, when it
was on, with a NULL `db-secret`. From then on every timer visit of a dirty log
reaches the `abort()` of `hbm_write_db`, whatever its channel. -/
theorem rehash_keeps_persist_drops_secret {s s' : Sys} {entries : List ConfigEntry}
    {io : PosttestIO} (hpers : s.cfg.persist = true)
    (hno : ∀ ce ∈ entries, ce.varname ≠ some "persist" ∧ ce.varname ≠ some "db-secret")
    (hpass : ∃ r, checkRound H s.test s.cfg s.disk entries io = some (false, r))
    (h : step H s (.rehash entries io) = some s') :
    s'.cfg.persist = true ∧ s'.cfg.dbSecret = none ∧
    (∀ chanP now wio disk (g : HistoryLogObject), ObjOk H g → g.dirty = true →
      tickObject H s'.cfg chanP now wio disk g = none) ∧
    ∀ now wio (b : Fin hashTableSize) (g : HistoryLogObject), s'.hashnum < hashTableSize →
      (∃ i < historyCleanPerLoop + 1, b.val = (s'.hashnum + i) % hashTableSize) →
      g ∈ s'.table b → ObjOk H g → g.dirty = true → step H s' (.tick now wio) = none := by
  obtain ⟨⟨cfg', test', d'⟩, hr, rfl⟩ := Option.map_eq_some'.mp h
  obtain ⟨r, hcheck⟩ := hpass
  simp only [rehashRound, hcheck, Option.some_bind, Bool.false_eq_true, if_false,
    Option.map_eq_some'] at hr
  obtain ⟨c, hc, hce⟩ := hr
  cases hce
  obtain ⟨h₁, h₂⟩ := configRunRound_persist_secret hno hc
  have hp : cfg'.persist = true := by
    rw [h₁, hbmRehash, setcfg_persist, freecfg_persist, (checkRound_saltsOnly hcheck).persist]
    exact hpers
  have hs : cfg'.dbSecret = none := by rw [h₂, hbmRehash, setcfg_dbSecret, freecfg_dbSecret]
  refine ⟨hp, hs, fun chanP now wio disk g hg hd =>
    tickObject_dirty_without_secret hp hs chanP now wio disk hg hd,
    fun now wio b g hh ⟨i, hi, hb⟩ hgb hg hd => ?_⟩
  rw [step_tick H hh, cleanBodies_dirty_without_secret hp hs hg hd wio _ _ _ b (cursors_nodup _)
    (List.mem_map.mpr ⟨i, List.mem_range.mpr hi, hb.symm⟩) hgb]
  rfl

/-- `persist no` with a `db-secret`: the check refuses it. -/
def refusedEntries : List ConfigEntry :=
  [⟨some "persist", some "no", "unrealircd.conf", 1⟩,
    ⟨some "db-secret", some "s3cret", "unrealircd.conf", 2⟩]

/-- The boot with persistence on, then a rehash the check refuses: the live
record stays as the boot left it, the test record now has `persist` off. -/
def refusedRehash : Sys := after Host.sample persistBoot [.rehash refusedEntries okIO]

theorem rehash_keeps_persist_drops_secret_sample :
    refusedRehash.cfg.persist = true ∧
    (∀ ce ∈ ([] : List ConfigEntry), ce.varname ≠ some "persist" ∧ ce.varname ≠ some "db-secret") ∧
    (∃ r, checkRound Host.sample refusedRehash.test refusedRehash.cfg refusedRehash.disk [] okIO =
      some (false, r)) ∧
    step Host.sample refusedRehash (.rehash [] okIO) =
      some (after Host.sample refusedRehash [.rehash [] okIO]) ∧
    ((after Host.sample refusedRehash [.rehash [] okIO]).cfg.persist = true ∧
    (after Host.sample refusedRehash [.rehash [] okIO]).cfg.dbSecret = none ∧
    (∀ chanP now wio disk (g : HistoryLogObject), ObjOk Host.sample g → g.dirty = true →
      tickObject Host.sample (after Host.sample refusedRehash [.rehash [] okIO]).cfg chanP now wio
        disk g = none) ∧
    ∀ now wio (b : Fin hashTableSize) (g : HistoryLogObject),
      (after Host.sample refusedRehash [.rehash [] okIO]).hashnum < hashTableSize →
      (∃ i < historyCleanPerLoop + 1,
        b.val = ((after Host.sample refusedRehash [.rehash [] okIO]).hashnum + i) % hashTableSize) →
      g ∈ (after Host.sample refusedRehash [.rehash [] okIO]).table b → ObjOk Host.sample g →
      g.dirty = true →
      step Host.sample (after Host.sample refusedRehash [.rehash [] okIO]) (.tick now wio) = none) :=
  have hpers : refusedRehash.cfg.persist = true := by decide
  have hno : ∀ ce ∈ ([] : List ConfigEntry),
      ce.varname ≠ some "persist" ∧ ce.varname ≠ some "db-secret" := fun _ h => nomatch h
  have hpass : ∃ r, checkRound Host.sample refusedRehash.test refusedRehash.cfg refusedRehash.disk
      [] okIO = some (false, r) := ⟨_, rfl⟩
  have hstep := step_after Host.sample (by decide :
    (step Host.sample refusedRehash (.rehash [] okIO)).isSome)
  ⟨hpers, hno, hpass, hstep, rehash_keeps_persist_drops_secret hpers hno hpass hstep⟩

end HistoryBackendMem
