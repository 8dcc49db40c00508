import HistoryBackendMem.System.Isolation
import HistoryBackendMem.System.Persist

/-!
# Restart

The module's comment on `EVENT(history_mem_init)` fixes the load order: the
channel database comes first, and its `+H` modes call
`hbm_history_set_limit`, which leaves each channel's object with an empty log
and the channel's limits; then `hbm_read_dbs()` reads the directory. For the
files `hbm_write_db` wrote with the salts `master.db` gives back, the read puts
every log back: each object holds the log's lines as they were, clean, no file
is moved or deleted, and no other channel's object changes.

The one-file step is `hbm_read_db` of a written file with its frame
(`hbmReadDb_restores`); the directory loop follows by induction over
the listing (`hbmReadDbs_restores`).
-/

namespace HistoryBackendMem

/-- The disk holds, at the path `hbm_read_dbs` builds for `fname`, what
`hbm_write_db` writes for the lines of `h` with the configured salts. -/
def HoldsWritten (cfg : CfgStruct) (disk : Disk) (fname : String) (h : HistoryLogObject) : Prop :=
  disk (snprintf 512 (showStr cfg.directory ++ "/" ++ fname)) =
    some (hbmWriteDbValues cfg.prehash cfg.posthash h h.entries)

variable {H : Host}

/-! ## One file -/

/-- **A read of a file whose header names `object`** adds to `object` alone:
the table it leaves is reached by `hbm_history_add(object, ...)`, cleaned or
not. -/
theorem hbmReadDb_of_header {clock : Nat → String} {pre post : Option String} {tb : Table}
    {vals rest : List DbValue} {object : String} {out : ReadOutcome}
    (hh : readHeader pre post vals = some (.accept (some object) rest))
    (h : hbmReadDb H clock pre post tb (some vals) = some out) :
    ∃ tb₁, Relation.ReflTransGen (AddsTo H object) tb tb₁ ∧
      (out.table = tb₁ ∨ out.table = modifyObject H tb₁ object fun h => { h with dirty := false }) := by
  simp only [hbmReadDb, hh, Option.some_bind] at h
  split at h
  · cases h; exact ⟨tb, .refl, .inl rfl⟩
  · obtain ⟨⟨r, tb₁⟩, hrun, rfl⟩ := Option.map_eq_some'.mp h
    refine ⟨tb₁, readEntries_adds H object clock 0 tb rest hrun, ?_⟩
    dsimp only
    split
    · exact .inr rfl
    · exact .inl rfl

/-- **Adds to a held object change its key alone.** -/
theorem TableShape.addsTo_others {object : String} {tb tb' : Table}
    (hr : Relation.ReflTransGen (AddsTo H object) tb tb') (hs : TableShape H tb)
    (hf : (hbmFindObject H tb object).isSome) :
    TableShape H tb' ∧ (hbmFindObject H tb' object).isSome ∧
      ∀ k, k ≠ foldCase object → tb'.lookup k = tb.lookup k := by
  induction hr with
  | refl => exact ⟨hs, hf, fun _ _ => rfl⟩
  | tail _ hst ih =>
    obtain ⟨hs₁, hf₁, ho₁⟩ := ih
    obtain ⟨_, _, _, -, hadd⟩ := hst
    rcases withObject_eq H hadd with ⟨i, g, g', hi, hg, hg', rfl⟩ | ⟨hi, -⟩
    · obtain ⟨hu, hl⟩ := hs₁.setAt hi hg (addToObject_name H hg')
      exact ⟨hu.shape, by rw [hu.shape.findObject_eq_lookup, hl]; rfl,
        fun k hk => (hu.others k hk).trans (ho₁ k hk)⟩
    · rw [hbmFindObject_eq, hi] at hf₁; cases hf₁

/-- The lines of a well-formed log whose tags a file can carry fit an empty
object with the same `max_lines`: they are well timed, their tags can be
written, and they are no more than it takes. -/
theorem ObjOk.entries_fit {h g : HistoryLogObject} (hh : ObjOk H h ∧ EntriesWritable h)
    (hgm : g.maxLines = h.maxLines) :
    (∀ e ∈ h.entries, e.WellTimed H ∧ TagsWritable e.mtags) ∧
      (h.entries.length : Int) ≤ addLimit g := by
  obtain ⟨⟨⟨cells, hl⟩, hlim⟩, hn⟩ := hh
  have hent := hl.inv.entries_eq
  refine ⟨fun e he => ⟨?_, hn e he⟩, ?_⟩
  · rw [hent] at he
    obtain ⟨c, hc, rfl⟩ := List.mem_map.mp he
    exact hl.timed c hc
  · rw [addLimit, if_neg (by omega), hgm, hent, List.length_map, ← hl.inv.numLines]
    rcases hl.bound with hb | hb <;> omega

/-- **Reading back the file written for `h`** into a table where `h`'s object
has an empty log with `h`'s `max_lines`: `hbm_read_db` returns 1 and asks for
no unlink, the object then holds `h`'s lines, clean, and every other key keeps
its object. -/
theorem hbmReadDb_restores (clock : Nat → String) (pre post : String)
    {h : HistoryLogObject} (hh : ObjOk H h ∧ EntriesWritable h) {tb : Table} (hs : TableShape H tb)
    {g : HistoryLogObject} (hf : hbmFindObject H tb h.name = some g) (hg : LogInv g [])
    (hgm : g.maxLines = h.maxLines) :
    ∃ tb', hbmReadDb H clock (some pre) (some post) tb
        (some (hbmWriteDbValues (some pre) (some post) h h.entries)) = some ⟨1, tb', false⟩ ∧
      TableShape H tb' ∧
      (∃ g', hbmFindObject H tb' h.name = some g' ∧ g'.entries = h.entries ∧ g'.dirty = false) ∧
      ∀ k, k ≠ foldCase h.name → tb'.lookup k = tb.lookup k := by
  obtain ⟨hes, hlen⟩ := ObjOk.entries_fit hh hgm
  obtain ⟨tb', g', hread, hf', hent', hd', -⟩ :=
    hbmReadDb_written H clock pre post h h.entries hes hf ⟨hg, by simp, .inr hg.numLines⟩ hlen
  obtain ⟨tb₁, hadds, hout⟩ := hbmReadDb_of_header (readHeader_written pre post h h.entries) hread
  obtain ⟨hs₁, -, ho₁⟩ := hs.addsTo_others hadds (by rw [hf]; rfl)
  refine ⟨tb', hread, ?_, ⟨g', hf', hent', hd'⟩, ?_⟩ <;> dsimp only at hout <;>
    rcases hout with rfl | rfl
  · exact hs₁
  · exact hs₁.modifyObject h.name fun _ => rfl
  · exact ho₁
  · intro k hk
    rw [@TableShape.lookup_modifyObject H _ hs₁ h.name (fun h => { h with dirty := false })
      (fun _ => rfl) k, if_neg hk]
    exact ho₁ k hk

/-! ## The directory -/

/-- **Names the loop skips change nothing**: `hbm_read_dbs` over a listing is
`hbm_read_dbs` over its `.db` names other than `master.db`. -/
theorem hbmReadDbs_filter (cfg : CfgStruct) (clock : String → Nat → String) :
    ∀ (names : List String) (p : Table × Disk),
      hbmReadDbs H cfg clock names p =
        hbmReadDbs H cfg clock
          (names.filter fun f => decide (f.endsWith ".db" = true ∧ f ≠ "master.db")) p
  | [], _ => rfl
  | f :: names, p => by
    by_cases hf : f.endsWith ".db" = true ∧ f ≠ "master.db"
    · rw [@List.filter_cons_of_pos _ (fun f => decide (f.endsWith ".db" = true ∧ f ≠ "master.db"))
        f names (decide_eq_true hf), hbmReadDbs, hbmReadDbs]
      exact congrArg _ (funext fun q => hbmReadDbs_filter cfg clock names q)
    · rw [@List.filter_cons_of_neg _ (fun f => decide (f.endsWith ".db" = true ∧ f ≠ "master.db"))
        f names (by simpa using hf), hbmReadDbs, hbmReadDbsFile, if_neg hf, Option.some_bind]
      exact hbmReadDbs_filter cfg clock names p

/-- **The directory loop restores every listed log**: over `.db` names whose
files hold what `hbm_write_db` wrote for well-formed logs of distinct
channels, each with an empty object of its `max_lines` in the table, the loop
leaves the disk as it was, each log's object holding the log's lines, clean,
and every other key's object unchanged. -/
theorem hbmReadDbs_restores {cfg : CfgStruct} {pre post : String}
    (hpre : cfg.prehash = some pre) (hpost : cfg.posthash = some post)
    (clock : String → Nat → String) {disk : Disk} :
    ∀ {names : List String} {logs : List HistoryLogObject} {tb : Table},
      (∀ f ∈ names, f.endsWith ".db" = true ∧ f ≠ "master.db") →
      List.Forall₂ (HoldsWritten cfg disk) names logs →
      (∀ h ∈ logs, ObjOk H h ∧ EntriesWritable h) → (logs.map fun h => foldCase h.name).Nodup →
      TableShape H tb →
      (∀ h ∈ logs, ∃ g, hbmFindObject H tb h.name = some g ∧ LogInv g [] ∧
        g.maxLines = h.maxLines) →
      ∃ tb', hbmReadDbs H cfg clock names (tb, disk) = some (tb', disk) ∧ TableShape H tb' ∧
        (∀ h ∈ logs, ∃ g, hbmFindObject H tb' h.name = some g ∧ g.entries = h.entries ∧
          g.dirty = false) ∧
        ∀ k, k ∉ logs.map (fun h => foldCase h.name) → tb'.lookup k = tb.lookup k
  | _, _, tb, _, .nil, _, _, hs, _ => ⟨tb, rfl, hs, fun _ h => (nomatch h), fun _ _ => rfl⟩
  | f :: names, h :: logs, tb, hnames, .cons hdisk hrest, hok, hnd, hs, hempty => by
    rw [List.map_cons, List.nodup_cons] at hnd
    obtain ⟨g, hf, hg, hgm⟩ := hempty h (List.mem_cons_self _ _)
    obtain ⟨tb₁, hread, hs₁, ⟨g₁, hf₁, he₁, hd₁⟩, ho₁⟩ :=
      hbmReadDb_restores (clock f) pre post (hok h (List.mem_cons_self _ _)) hs hf hg hgm
    -- the file is read, returns 1, and stays where it is
    have hfile : hbmReadDbsFile H cfg (clock f) tb disk f = some (tb₁, disk) := by
      rw [HoldsWritten, hpre, hpost] at hdisk
      rw [hbmReadDbsFile, if_pos (hnames f (List.mem_cons_self _ _)), hdisk, hpre, hpost, hread]
      rfl
    -- the other logs' objects are still empty after it
    have hne : ∀ h' ∈ logs, foldCase h'.name ≠ foldCase h.name := fun h' hh' he =>
      hnd.1 (he ▸ List.mem_map_of_mem _ hh')
    have hempty₁ : ∀ h' ∈ logs, ∃ g, hbmFindObject H tb₁ h'.name = some g ∧ LogInv g [] ∧
        g.maxLines = h'.maxLines := fun h' hh' => by
      rw [hs₁.findObject_eq_lookup, ho₁ _ (hne h' hh'), ← hs.findObject_eq_lookup]
      exact hempty h' (List.mem_cons_of_mem _ hh')
    obtain ⟨tb', hrun, hs', hlogs', ho'⟩ := hbmReadDbs_restores hpre hpost clock
      (fun f' hf' => hnames f' (List.mem_cons_of_mem _ hf')) hrest
      (fun h' hh' => hok h' (List.mem_cons_of_mem _ hh')) hnd.2 hs₁ hempty₁
    refine ⟨tb', by rw [hbmReadDbs, hfile, Option.some_bind, hrun], hs', fun h' hh' => ?_,
      fun k hk => ?_⟩
    · rcases List.mem_cons.mp hh' with rfl | hh'
      · refine ⟨g₁, ?_, he₁, hd₁⟩
        rw [hs'.findObject_eq_lookup, ho' _ hnd.1, ← hs₁.findObject_eq_lookup, hf₁]
      · exact hlogs' h' hh'
    · rw [List.map_cons, List.mem_cons, not_or] at hk
      rw [ho' k hk.2, ho₁ k hk.1]

/-! ## The restart -/

/-- **A restart puts every written log back.** Take logs of distinct channels
in a state the host's calls reach, and a restart whose configuration has
`persist` on and the salts the files were written with. When the `.db` names
other than `master.db` that `readdir` lists are, in order, files holding what
`hbm_write_db` wrote for these logs, and the channel database has left each
log's channel an object with an empty log and the log's `max_lines`, then
`EVENT(history_mem_init)` moves and deletes no file, every log's object holds
the log's lines (times, tags, text) in order, clean, and no other channel's
object changes. -/
theorem restart_restores_logs {s : Sys} (hr : Reachable H Op.HostOk s)
    {logs : List HistoryLogObject} (hlogs : ∀ h ∈ logs, ∃ b, h ∈ s.table b)
    (hnd : (logs.map fun h => foldCase h.name).Nodup)
    {cfg : CfgStruct} {pre post : String} (hpersist : cfg.persist = true)
    (hpre : cfg.prehash = some pre) (hpost : cfg.posthash = some post)
    {disk : Disk} {listing : List String}
    (hfiles : List.Forall₂ (HoldsWritten cfg disk)
      (listing.filter fun f => decide (f.endsWith ".db" = true ∧ f ≠ "master.db")) logs)
    {tb : Table} (hs : TableShape H tb)
    (hempty : ∀ h ∈ logs, ∃ g, hbmFindObject H tb h.name = some g ∧ LogInv g [] ∧
      g.maxLines = h.maxLines)
    (clock : String → Nat → String) :
    ∃ tb', historyMemInit H false cfg clock (some listing) tb disk = some (true, tb', disk) ∧
      (∀ h ∈ logs, ∃ g, hbmFindObject H tb' h.name = some g ∧ g.entries = h.entries ∧
        g.dirty = false) ∧
      ∀ k, k ∉ logs.map (fun h => foldCase h.name) → tb'.lookup k = tb.lookup k := by
  have hok : ∀ h ∈ logs, ObjOk H h ∧ EntriesWritable h := fun h hh =>
    (hlogs h hh).elim fun b hb => reachable_entriesWritable hr b h hb
  obtain ⟨tb', hrun, -, hback, hframe⟩ := hbmReadDbs_restores hpre hpost clock
    (fun f hf => of_decide_eq_true (List.mem_filter.mp hf).2) hfiles hok hnd hs hempty
  refine ⟨tb', ?_, hback, hframe⟩
  simp only [historyMemInit, Bool.false_eq_true, if_false, hpersist, if_true]
  rw [hbmReadDbs_filter, hrun]
  rfl

/-- The sample's restart: the channel database gives `#a` back its `+H` limit
of two lines, on an empty log. -/
def restartBoot : Sys :=
  after Host.sample (Sys.init CfgStruct.sample CfgStruct.zero (fun _ => none)
    fun c => decide (c = foldCase "#a")) [.setLimit "#a" 2 86400 0]

/-- The history directory after the sample log was written: its file, under
the name `hbm_history_filename` gives `#a` on the sample host. -/
def restartDisk : Disk :=
  Function.update (fun _ => none)
    (snprintf 512 (showStr CfgStruct.sample.directory ++ "/" ++ "pre #a post.db"))
    (some (hbmWriteDbValues CfgStruct.sample.prehash CfgStruct.sample.posthash sampleLog
      sampleLog.entries))

unseal String.substrEq.loop in
theorem restart_restores_logs_sample :
    hbmHistoryFilename Host.sample CfgStruct.sample "#a" =
      some (snprintf 512 (showStr CfgStruct.sample.directory ++ "/" ++ "pre #a post.db")) ∧
    ∃ tb', historyMemInit Host.sample false CfgStruct.sample (fun _ _ => "x")
        (some ["master.db", "pre #a post.db"]) restartBoot.table restartDisk =
          some (true, tb', restartDisk) ∧
      (∀ h ∈ [sampleLog], ∃ g, hbmFindObject Host.sample tb' h.name = some g ∧
        g.entries = h.entries ∧ g.dirty = false) ∧
      ∀ k, k ∉ [sampleLog].map (fun h => foldCase h.name) →
        tb'.lookup k = restartBoot.table.lookup k := by
  have hr : Reachable Host.sample Op.HostOk sampleRun := sampleRun_reachable.mono _ fun _ h => h.1
  have hb : Reachable Host.sample (fun op => op.NoLoad ∧ op.NameFits 32) restartBoot :=
    Reachable.after _ (.init _ rfl) (by simp [Op.NoLoad, Op.NameFits]; decide) (by decide)
  have hlist : ["master.db", "pre #a post.db"].filter
      (fun f => decide (f.endsWith ".db" = true ∧ f ≠ "master.db")) = ["pre #a post.db"] := by
    decide
  have hfiles : List.Forall₂ (HoldsWritten CfgStruct.sample restartDisk)
      (["master.db", "pre #a post.db"].filter
        fun f => decide (f.endsWith ".db" = true ∧ f ≠ "master.db")) [sampleLog] := by
    rw [hlist]
    exact .cons (Function.update_same _ _ _) .nil
  have hempty : ∀ h ∈ [sampleLog], ∃ g, hbmFindObject Host.sample restartBoot.table h.name = some g ∧
      LogInv g [] ∧ g.maxLines = h.maxLines := fun h hh => by
    rw [List.mem_singleton.mp hh]
    exact ⟨_, (rfl : hbmFindObject Host.sample restartBoot.table sampleLog.name =
      some { HistoryLogObject.new "#a" with maxLines := 2, maxTime := 86400 }),
      (LogInv.new "#a").setLimits 2 86400, by decide⟩
  have hlogs : ∀ h ∈ [sampleLog], ∃ b, h ∈ sampleRun.table b := fun h hh => by
    rw [List.mem_singleton.mp hh]
    exact ⟨_, hbmFindObject_mem (rfl : hbmFindObject Host.sample sampleRun.table "#a" = some sampleLog)⟩
  have h₁ := restart_restores_logs hr hlogs (List.nodup_singleton _)
    (show CfgStruct.sample.persist = true from rfl) (show CfgStruct.sample.prehash = some "pre" from rfl)
    (show CfgStruct.sample.posthash = some "post" from rfl) hfiles
    (reachable_tableShape (fun _ h => h) hb) hempty (fun _ _ => "x")
  exact ⟨by decide, h₁⟩

end HistoryBackendMem
