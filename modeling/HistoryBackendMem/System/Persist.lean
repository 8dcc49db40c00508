import HistoryBackendMem.System.Invariant

/-!
# System — what the files hold

A log that a run reaches is written by `hbm_write_db` as the values of
`hbmWriteDbValues`, which `hbm_read_db` reads back into an empty object of the
same name as the same entries, clean (`write_read_roundtrip`). What makes it
work is that no tag a run stores is the `(NULL, NULL)` pair that ends a
frame's tags (`EntriesWritable`): the host passes named tags, the one
`hbm_duplicate_mtags` adds is named `time`, and a boot load stops at that
pair.
-/

namespace HistoryBackendMem

variable {H : Host}

/-! ## Tags a file can carry -/

/-- No tag of any entry is the `(NULL, NULL)` pair. -/
def EntriesWritable (h : HistoryLogObject) : Prop := ∀ e ∈ h.entries, TagsWritable e.mtags

theorem newEntry_writable {m : List MessageTag} {line clock : String} {e : Entry}
    (hm : TagsWritable m) (he : newEntry H m line clock = some e) : TagsWritable e.mtags := by
  rcases (newEntry_line_mtags H he).2 with h | h <;> rw [h]
  · exact hm
  · intro n hn
    rcases List.mem_cons.mp hn with rfl | hn
    · exact .inl rfl
    · exact hm n hn

theorem EntriesWritable.new (n : String) : EntriesWritable (.new n) := by
  intro e he
  rw [(LogInv.new n).entries_eq] at he
  cases he

theorem EntriesWritable.addToObject {h h' : HistoryLogObject} {cells : List (Nat × Entry)}
    (hl : LogOk H h cells) (hm : 0 ≤ h.maxLines) (hn : EntriesWritable h)
    {mtags : List MessageTag} {line clock : String} (hmt : TagsWritable mtags)
    (hadd : addToObject H mtags line clock h = some h') : EntriesWritable h' := by
  obtain ⟨e, he, hent⟩ := addToObject_entries_of_some hl hm hadd
  intro x hx
  rw [hent, pushBounded] at hx
  rcases List.mem_append.mp hx with hx | hx
  · split at hx
    · exact hn x (List.mem_of_mem_tail hx)
    · exact hn x hx
  · rw [List.mem_singleton.mp hx]
    exact newEntry_writable hmt he

theorem EntriesWritable.cleanup {h h' : HistoryLogObject} {cells : List (Nat × Entry)}
    (hi : LogInv h cells) (hn : EntriesWritable h) {now : Int}
    (hc : hbmHistoryCleanup now h = some h') : EntriesWritable h' := by
  obtain ⟨h'', hrun, hsub⟩ := hbmHistoryCleanup_entries hi now
  cases hc.symm.trans hrun
  exact fun x hx => hn x (hsub.subset hx)

/-- `hbm_history_add` with tags a file can carry keeps a log well formed with
such tags. -/
theorem ObjOk.addToObject_writable {h h' : HistoryLogObject}
    (ho : (ObjOk H h ∧ EntriesWritable h) ∨ ∃ n, h = .new n) {mtags : List MessageTag}
    {line clock : String} (hmt : TagsWritable mtags)
    (hadd : HistoryBackendMem.addToObject H mtags line clock h = some h') :
    ObjOk H h' ∧ EntriesWritable h' := by
  refine ⟨ObjOk.addToObject (ho.imp And.left id) hadd, ?_⟩
  rcases ho with ⟨⟨⟨cells, hl⟩, hm⟩, hn⟩ | ⟨n, rfl⟩
  · exact hn.addToObject hl (by omega) hmt hadd
  · exact (EntriesWritable.new n).addToObject (LogOk.new H n) (le_refl _) hmt hadd

/-- **The invariant of every run, boot loads included**: every log is well
formed, and no tag is the `(NULL, NULL)` pair. The host passes named tags, the
one `hbm_duplicate_mtags` adds is named `time`, and a load stops a frame's tags
at that pair. -/
theorem reachable_entriesWritable {s : Sys} (hr : Reachable H Op.HostOk s) :
    s.table.All fun h => ObjOk H h ∧ EntriesWritable h := by
  refine Reachable.induct' H (fun _ hs => hs ▸ Table.All.empty _) (fun _ _ op hP hop hst => ?_) hr
  by_cases hl : op.NoLoad
  · refine hP.step_of_noLoad (fun ho hmt hadd => ObjOk.addToObject_writable ho hmt.writable hadd)
      ?_ (fun d ho => ⟨ho.1.setDirty d, ho.2⟩) ?_ hop hl hst
    · -- the cleanup of `hbm_history_set_limit`
      intro h h' maxLines maxTime now ho hm hc
      refine ⟨ObjOk.setLimit (ho.imp And.left id) hm hc, ?_⟩
      rcases ho with ⟨⟨⟨cells, hl⟩, -⟩, hn⟩ | ⟨n, rfl⟩
      · exact EntriesWritable.cleanup (hl.inv.setLimits maxLines maxTime) hn hc
      · exact EntriesWritable.cleanup ((LogInv.new n).setLimits maxLines maxTime)
          (EntriesWritable.new n) hc
    · -- a timer step
      intro cfg chanP now io disk h h' d ho ht
      refine ⟨ho.1.tickObject ht, ?_⟩
      obtain ⟨h₁, hc, hw⟩ := tickObject_cases H ht
      obtain ⟨cells, hl⟩ := ho.1.log
      have hn₁ := ho.2.cleanup hl.inv hc
      rcases hw with rfl | rfl <;> exact hn₁
  · -- a boot load: adds with the tags of a file, then `dirty = 0`
    obtain ⟨fname, clock, rfl⟩ := Op.eq_load_of_not_noLoad hl
    exact hP.step_load (fun ho hmt hadd => ObjOk.addToObject_writable ho hmt hadd)
      (fun d ho => ⟨ho.1.setDirty d, ho.2⟩) hst

/-! ## Writing and reading back -/

/-- **A log written and read back is the same log**: for every log of a state
that a run of `hbm_history_add`, `hbm_history_set_limit`, timer ticks and the
other operations but boot loads reaches, whose channel has `+P`, with
`db_secret` and both salts set, `hbm_write_db` completes, and the file it
leaves holds `hbmWriteDbValues` of the log's entries; `hbm_read_db` reads it
with the same salts into a table where an object of the log's name has an
empty log and the same `max_lines`, returns `1`, and leaves that object clean
with the same entries (times, tags with their possibly NULL values, lines), in
order. -/
theorem write_read_roundtrip {s : Sys} (hr : Reachable H (fun op => op.HostOk ∧ op.NoLoad) s)
    {b : Fin hashTableSize} {h : HistoryLogObject} (hh : h ∈ s.table b) {secret pre post : String}
    (hsec : s.cfg.dbSecret = some secret) (hpre : s.cfg.prehash = some pre)
    (hpost : s.cfg.posthash = some post) (hP : s.chanP (foldCase h.name) = true) (disk : Disk)
    (clock : Nat → String) {tb : Table} {g : HistoryLogObject}
    (hf : hbmFindObject H tb h.name = some g) (hg : LogInv g []) (hgm : g.maxLines = h.maxLines) :
    ∃ real disk', hbmHistoryFilename H s.cfg h.name = some real ∧
      hbmWriteDb H s.cfg s.chanP .ok disk h = some (1, { h with dirty := false }, disk') ∧
      disk' real = some (hbmWriteDbValues (some pre) (some post) h h.entries) ∧
      ∃ tb' g', hbmReadDb H clock (some pre) (some post) tb (disk' real) = some ⟨1, tb', false⟩ ∧
        hbmFindObject H tb' h.name = some g' ∧ g'.entries = h.entries ∧ g'.dirty = false := by
  obtain ⟨⟨⟨cells, hl⟩, hlim⟩, hn⟩ := reachable_entriesWritable (hr.mono _ fun _ h => h.1) b h hh
  obtain ⟨real, hreal, hw⟩ := hbmWriteDb_ok H hsec hP hpre hpost hl.inv.chain_eq
  have hent := hl.inv.entries_eq
  have hlen : (h.entries.length : Int) ≤ addLimit g := by
    rw [addLimit, if_neg (by omega), hgm, hent, List.length_map, ← hl.inv.numLines]
    rcases hl.bound with hb | hb <;> omega
  have hes : ∀ e ∈ h.entries, e.WellTimed H ∧ TagsWritable e.mtags := fun e he => by
    refine ⟨?_, hn e he⟩
    rw [hent] at he
    obtain ⟨c, hc, rfl⟩ := List.mem_map.mp he
    exact hl.timed c hc
  obtain ⟨tb', g', hread, hf', hent', hd', -⟩ :=
    hbmReadDb_written H clock pre post h h.entries hes hf ⟨hg, by simp, .inr hg.numLines⟩ hlen
  refine ⟨real, _, hreal, hw, by rw [Function.update_same, hent], tb', g', ?_, hf', hent', hd'⟩
  rw [Function.update_same, ← hent]
  exact hread

/-- A table to read into: `#a` with an empty log and the sample log's limits. -/
def sampleReader : Table := fun _ => [{ HistoryLogObject.new "#a" with maxLines := 2, maxTime := 86400 }]

theorem write_read_roundtrip_sample :
    Reachable Host.sample (fun op => op.HostOk ∧ op.NoLoad) sampleRun ∧
    ∃ real disk', hbmHistoryFilename Host.sample sampleRun.cfg sampleLog.name = some real ∧
      hbmWriteDb Host.sample sampleRun.cfg sampleRun.chanP .ok sampleRun.disk sampleLog =
        some (1, { sampleLog with dirty := false }, disk') ∧
      disk' real = some (hbmWriteDbValues (some "pre") (some "post") sampleLog sampleLog.entries) ∧
      ∃ tb' g', hbmReadDb Host.sample (fun _ => "x") (some "pre") (some "post") sampleReader
          (disk' real) = some ⟨1, tb', false⟩ ∧
        hbmFindObject Host.sample tb' sampleLog.name = some g' ∧ g'.entries = sampleLog.entries ∧
        g'.dirty = false :=
  have hr := sampleRun_reachable.mono _ fun _ h => ⟨h.1, h.2.1⟩
  ⟨hr, write_read_roundtrip hr
    (hbmFindObject_mem (rfl : hbmFindObject Host.sample sampleRun.table "#a" = some sampleLog))
    rfl rfl rfl (by decide) _ _ rfl ((LogInv.new "#a").setLimits 2 86400) (by decide)⟩

/-! ## Limits -/

/-- **`hbm_history_set_limit` leaves a clean log clean**: when the new limits
delete no line, the log keeps its lines, takes the new limits and stays clean,
and no file changes, so the file the last write left still holds the old
limits. -/
theorem setLimit_leaves_clean {s s' : Sys} {n : String} {h : HistoryLogObject}
    {cells : List (Nat × Entry)} (hf : hbmFindObject H s.table n = some h) (hi : LogInv h cells)
    (hd : h.dirty = false) {m t now : Int} (hage : ∀ e ∈ h.entries, now - t ≤ e.t)
    (hcount : h.numLines ≤ m) (hst : step H s (.setLimit n m t now) = some s') :
    ∃ h', hbmFindObject H s'.table n = some h' ∧ h'.dirty = false ∧ h'.maxLines = m ∧
      h'.maxTime = t ∧ h'.entries = h.entries ∧ s'.disk = s.disk := by
  obtain ⟨tb, hw, rfl⟩ := Option.map_eq_some'.mp hst
  have hi' := hi.setLimits m t
  obtain ⟨h', hrun, hs⟩ := hbmHistoryCleanup_spec hi' now
  have hage' : ∀ c ∈ cells, now - t ≤ c.2.t := fun c hc =>
    hage c.2 (hi.entries_eq ▸ List.mem_map_of_mem _ hc)
  rw [cleanupCells_eq_self hi' hage' hcount] at hs
  obtain ⟨i, -, -, htb, hfind⟩ := @withObject_of_found H s.table n h h'
    (fun x => hbmHistoryCleanup now { x with maxLines := m, maxTime := t }) hf hrun hs.name
  cases hw.symm.trans htb
  refine ⟨h', hfind, ?_, hs.maxLines, hs.maxTime, ?_, rfl⟩
  · rw [hs.dirty]; simpa using hd
  · rw [hs.inv.entries_eq, hi.entries_eq]

/-- `#a` with `+P`, a limit of ten lines and one line, dirty. -/
def dirtyRun : Sys :=
  after Host.sample (Sys.init CfgStruct.sample CfgStruct.zero (fun _ => none)
    fun c => decide (c = foldCase "#a"))
    [.setLimit "#a" 10 86400 0, .add "#a" [timeTag "100"] "hello" "x"]

/-- The timer call at `200` after it, whose writes complete: it writes the file
of `#a`, with its limit of ten lines, and marks `#a` clean. -/
def cleanRun : Sys := after Host.sample dirtyRun [.tick 200 fun _ _ => .ok]

/-- The log of `#a` after the timer call. -/
def cleanLog : HistoryLogObject := (hbmFindObject Host.sample cleanRun.table "#a").getD (.new "#a")

/-- A limit of twenty lines on the clean `#a` leaves it clean while its file
still says ten. -/
theorem setLimit_leaves_clean_sample :
    Reachable Host.sample Op.HostOk cleanRun ∧
    hbmFindObject Host.sample cleanRun.table "#a" = some cleanLog ∧ cleanLog.dirty = false ∧
    (∀ e ∈ cleanLog.entries, 200 - 86400 ≤ e.t) ∧ cleanLog.numLines ≤ 20 ∧
    ((hbmHistoryFilename Host.sample cleanRun.cfg "#a").bind cleanRun.disk).map (List.take 7) =
      some [.int32 magicFileStart, .int32 5000, .str (some "pre"), .str (some "post"),
        .str (some "#a"), .int64 10, .int64 86400] ∧
    ∃ h', hbmFindObject Host.sample
        (after Host.sample cleanRun [.setLimit "#a" 20 86400 200]).table "#a" = some h' ∧
      h'.dirty = false ∧ h'.maxLines = 20 ∧ h'.maxTime = 86400 ∧ h'.entries = cleanLog.entries ∧
      (after Host.sample cleanRun [.setLimit "#a" 20 86400 200]).disk = cleanRun.disk := by
  have hdirty : Reachable Host.sample Op.HostOk dirtyRun :=
    Reachable.after _ (.init _ rfl) (by simp [Op.HostOk, TagsNamed, timeTag]) (by decide)
  have htick : step Host.sample dirtyRun (.tick 200 fun _ _ => .ok) = some cleanRun :=
    step_after _ (by rw [step_tick _ (by decide)]; decide)
  have hr : Reachable Host.sample Op.HostOk cleanRun := .tail hdirty (by trivial) htick
  have hfacts : (hbmFindObject Host.sample cleanRun.table "#a").isSome ∧ cleanLog.dirty = false ∧
      (∀ e ∈ cleanLog.entries, 200 - 86400 ≤ e.t) ∧ cleanLog.numLines ≤ 20 ∧
      (step Host.sample cleanRun (.setLimit "#a" 20 86400 200)).isSome ∧
      ((hbmHistoryFilename Host.sample cleanRun.cfg "#a").bind cleanRun.disk).map (List.take 7) =
        some [.int32 magicFileStart, .int32 5000, .str (some "pre"), .str (some "post"),
          .str (some "#a"), .int64 10, .int64 86400] := by
    rw [cleanLog, cleanRun, after_singleton, step_tick _ (by decide)]
    decide
  obtain ⟨hsome, hd, hage, hcount, hst, hfile⟩ := hfacts
  have hf : hbmFindObject Host.sample cleanRun.table "#a" = some cleanLog := by
    rw [cleanLog, ← @Option.get_eq_getD _ _ _ hsome, Option.some_get]
  obtain ⟨⟨cells, hl⟩, -⟩ := reachable_objOk (fun _ h => h) hr _ cleanLog (hbmFindObject_mem hf)
  exact ⟨hr, hf, hd, hage, hcount, hfile,
    setLimit_leaves_clean hf hl.inv hd hage hcount (step_after _ hst)⟩

end HistoryBackendMem
