import HistoryBackendMem.System.Service

/-!
# The boot-time load

`EVENT(history_mem_init)` reads the history directory once, when `persist` is
on; `hbm_read_dbs()` hands each `.db` file but `master.db` to `hbm_read_db()`,
and moves a file it refuses to `bad/`. The names `readdir` lists are the
host's, as is the wall clock of each entry read.

On the service of `System/Service.lean` the load is a run of adds, each to a
name that already holds a log: whatever the files hold, no log is created or
forgotten, and no log's limits change.
-/

namespace HistoryBackendMem

/-! ## The directory loop -/

section Defs

variable (H : Host)

/-- `hbm_read_dbs()` over the names `readdir` lists, in order. `clock fname`
is the wall clock of the entries read from `fname`. -/
def hbmReadDbs (cfg : CfgStruct) (clock : String → Nat → String) :
    List String → Table × Disk → Option (Table × Disk)
  | [], r => some r
  | fname :: rest, r =>
    (hbmReadDbsFile H cfg (clock fname) r.1 r.2 fname).bind (hbmReadDbs cfg clock rest)

/-- `EVENT(history_mem_init)`: `already_loaded` and what the call leaves. The
first call reads the directory when `persist` is on; `listing` is `none` when
`opendir` fails. -/
def historyMemInit (alreadyLoaded : Bool) (cfg : CfgStruct) (clock : String → Nat → String)
    (listing : Option (List String)) (tb : Table) (disk : Disk) : Option (Bool × Table × Disk) :=
  if alreadyLoaded then some (true, tb, disk)
  else if cfg.persist then
    match listing with
    | none => some (true, tb, disk)
    | some names => (hbmReadDbs H cfg clock names (tb, disk)).map fun r => (true, r)
  else some (true, tb, disk)

/-- An add of the service to a name that already holds a log. -/
def AppendStep (svc svc' : Service) : Prop :=
  ∃ object mtags line clock, (svc (foldCase object)).isSome ∧
    ServiceStep H svc (.add object mtags line clock) svc'

end Defs

variable {H : Host}

/-- **The directory loop is a run of the model's loads**, one `.load` step per
listed name. -/
theorem hbmReadDbs_run (clock : String → Nat → String) :
    ∀ (names : List String) (s : Sys),
      (hbmReadDbs H s.cfg clock names (s.table, s.disk)).map
          (fun r => { s with table := r.1, disk := r.2 }) =
        run H s (names.map fun f => .load f (clock f))
  | [], _ => rfl
  | f :: rest, s => by
    simp only [hbmReadDbs, List.map_cons, run, step]
    cases hbmReadDbsFile H s.cfg (clock f) s.table s.disk f with
    | none => rfl
    | some r => exact hbmReadDbs_run clock rest { s with table := r.1, disk := r.2 }

/-! ## The load on the service -/

/-- A log's limits: `max_lines` and `max_time`. -/
def Log.limits (l : Log) : Int × Int := (l.maxLines, l.maxTime)

/-- Each name holds a log in `svc'` exactly when it holds one in `svc`, with
the same limits. -/
def Service.SameLimits (svc svc' : Service) : Prop :=
  ∀ k, (svc' k).map Log.limits = (svc k).map Log.limits

theorem Service.SameLimits.refl (svc : Service) : svc.SameLimits svc := fun _ => rfl

theorem Service.SameLimits.trans {svc₁ svc₂ svc₃ : Service} (h₁ : svc₁.SameLimits svc₂)
    (h₂ : svc₂.SameLimits svc₃) : svc₁.SameLimits svc₃ :=
  fun k => (h₂ k).trans (h₁ k)

theorem Log.add_limits (e : Entry) {l : Log} (hm : l.maxLines ≠ 0) : (l.add e).limits = l.limits := by
  simp [Log.add, Log.limits, hm]

/-- **An add to an object the table holds** is the service's add to a name
that has a log, and keeps every name's limits. -/
theorem TableShape.hbmHistoryAdd_found {tb tb' : Table} (hs : TableShape H tb)
    (hok : tb.All (ObjOk H)) {object : String} (hf : (hbmFindObject H tb object).isSome)
    {mtags : List MessageTag} {line clock : String}
    (h : hbmHistoryAdd H tb object mtags line clock = some tb') :
    TableShape H tb' ∧ (hbmFindObject H tb' object).isSome ∧
      AppendStep H tb.service tb'.service ∧ tb.service.SameLimits tb'.service := by
  rcases withObject_eq H h with ⟨i, g, g', hi, hg, hadd, rfl⟩ | ⟨hi, -⟩
  · obtain ⟨hu, hl⟩ := hs.setAt hi hg (addToObject_name H hadd)
    have hsvc : tb.service (foldCase object) = some (Log.ofObject g) := by
      rw [Table.service, ← hs.findObject_eq_lookup, hbmFindObject_eq, hi]
      simp [hg]
    obtain ⟨⟨cells, hlog⟩, hlim⟩ := hok _ g (List.getElem?_mem hg)
    obtain ⟨e, he, heq⟩ := hlog.inv.addToObject_log (by omega) hadd
    refine ⟨hu.shape, by rw [hu.shape.findObject_eq_lookup, hl]; rfl,
      ⟨object, mtags, line, clock, by rw [hsvc]; rfl, ?_⟩, fun k => ?_⟩
    · have hget : (tb.service (foldCase object)).getD .empty = Log.ofObject g := by rw [hsvc]; rfl
      rw [hu.service hl, heq, ← hget]
      exact .add he
    · rw [hu.service hl, Function.update_apply]
      split
      · subst k
        rw [hsvc, heq, Option.map_some', Option.map_some',
          Log.add_limits e (show (Log.ofObject g).maxLines ≠ 0 by simp only [Log.ofObject]; omega)]
      · rfl
  · rw [hbmFindObject_eq, hi] at hf; cases hf

/-- **A run of adds to an object the table holds** is a run of the service's
adds to names that have a log, and keeps every name's limits. -/
theorem TableShape.addsTo_found {object : String} {tb tb' : Table}
    (hr : Relation.ReflTransGen (AddsTo H object) tb tb') (hs : TableShape H tb)
    (hok : tb.All (ObjOk H)) (hf : (hbmFindObject H tb object).isSome) :
    TableShape H tb' ∧ tb'.All (ObjOk H) ∧ (hbmFindObject H tb' object).isSome ∧
      Relation.ReflTransGen (AppendStep H) tb.service tb'.service ∧
      tb.service.SameLimits tb'.service := by
  induction hr with
  | refl => exact ⟨hs, hok, hf, .refl, .refl _⟩
  | tail _ hst ih =>
    obtain ⟨hs₁, hok₁, hf₁, hrun, hlim⟩ := ih
    obtain ⟨_, _, _, -, hadd⟩ := hst
    obtain ⟨hs₂, hf₂, happ, hlim₂⟩ := hs₁.hbmHistoryAdd_found hok₁ hf₁ hadd
    exact ⟨hs₂, hok₁.hbmHistoryAdd hadd, hf₂, hrun.tail happ, hlim.trans hlim₂⟩

/-- **`hbm_read_db` only appends**: whatever the file holds, the table keeps
its shape and its objects well formed, and its service moves by adds to names
that have a log, keeping every name's limits. -/
theorem TableShape.hbmReadDb_service {clock : Nat → String} {pre post : Option String}
    {tb : Table} {db : Option (List DbValue)} {out : ReadOutcome} (hs : TableShape H tb)
    (hok : tb.All (ObjOk H)) (h : hbmReadDb H clock pre post tb db = some out) :
    TableShape H out.table ∧ out.table.All (ObjOk H) ∧
      Relation.ReflTransGen (AppendStep H) tb.service out.table.service ∧
      tb.service.SameLimits out.table.service := by
  obtain ⟨object, tb₁, hadds, hf, hout⟩ := hbmReadDb_table H h
  obtain ⟨hs₁, hok₁, hrun, hlim⟩ : TableShape H tb₁ ∧ tb₁.All (ObjOk H) ∧
      Relation.ReflTransGen (AppendStep H) tb.service tb₁.service ∧
      tb.service.SameLimits tb₁.service := by
    rcases hf with hf | rfl
    · obtain ⟨hs₁, hok₁, -, hrun, hlim⟩ := hs.addsTo_found hadds hok hf
      exact ⟨hs₁, hok₁, hrun, hlim⟩
    · exact ⟨hs, hok, .refl, .refl _⟩
  rcases hout with hout | hout <;> rw [hout]
  · exact ⟨hs₁, hok₁, hrun, hlim⟩
  · have hsvc : (HistoryBackendMem.modifyObject H tb₁ object fun h => { h with dirty := false }).service =
        tb₁.service := hs₁.service_modifyObject object (fun _ => rfl) fun _ => rfl
    rw [hsvc]
    exact ⟨hs₁.modifyObject object fun _ => rfl, hok₁.modifyObject H _ fun _ ho => ho.setDirty false,
      hrun, hlim⟩

/-- One file of the directory: the table as `hbm_read_db` leaves it, or as it
was when the name is skipped. -/
theorem TableShape.hbmReadDbsFile {cfg : CfgStruct} {clock : Nat → String} {tb : Table}
    {disk : Disk} {fname : String} {r : Table × Disk} (hs : TableShape H tb)
    (hok : tb.All (ObjOk H)) (h : hbmReadDbsFile H cfg clock tb disk fname = some r) :
    TableShape H r.1 ∧ r.1.All (ObjOk H) ∧
      Relation.ReflTransGen (AppendStep H) tb.service r.1.service ∧
      tb.service.SameLimits r.1.service := by
  unfold HistoryBackendMem.hbmReadDbsFile at h
  split at h
  · obtain ⟨out, hread, rfl⟩ := Option.map_eq_some'.mp h
    have hr := hs.hbmReadDb_service hok hread
    dsimp only
    split <;> exact hr
  · cases h; exact ⟨hs, hok, .refl, .refl _⟩

theorem TableShape.hbmReadDbs {cfg : CfgStruct} {clock : String → Nat → String} :
    ∀ {names : List String} {p r : Table × Disk}, TableShape H p.1 → p.1.All (ObjOk H) →
      hbmReadDbs H cfg clock names p = some r →
      TableShape H r.1 ∧ r.1.All (ObjOk H) ∧
        Relation.ReflTransGen (AppendStep H) p.1.service r.1.service ∧
        p.1.service.SameLimits r.1.service
  | [], _, _, hs, hok, h => by cases h; exact ⟨hs, hok, .refl, .refl _⟩
  | _ :: _, _, _, hs, hok, h => by
    obtain ⟨p₁, h₁, h₂⟩ := Option.bind_eq_some.mp h
    obtain ⟨hs₁, hok₁, hrun₁, hlim₁⟩ := hs.hbmReadDbsFile hok h₁
    obtain ⟨hs₂, hok₂, hrun₂, hlim₂⟩ := TableShape.hbmReadDbs hs₁ hok₁ h₂
    exact ⟨hs₂, hok₂, hrun₁.trans hrun₂, hlim₁.trans hlim₂⟩

/-! ## Runs with loads -/

/-- **The table stays a map with loads in between**: in every state of a run of
the host's calls, boot loads included, on names that fit, the table is shaped
and its objects well formed. -/
theorem reachable_tableShape_load {s : Sys}
    (hr : Reachable H (fun op => op.HostOk ∧ op.NameFits H.objectLen) s) :
    TableShape H s.table ∧ s.table.All (ObjOk H) := by
  induction hr with
  | init s h0 => rw [h0]; exact ⟨TableShape.empty H, Table.All.empty _⟩
  | @tail s s' op _ hop hst ih =>
    refine ⟨?_, step_objOk ih.2 hop.1 hst⟩
    cases op with
    | load fname clock =>
      rw [step] at hst
      obtain ⟨r, h, rfl⟩ := Option.map_eq_some'.mp hst
      exact (ih.1.hbmReadDbsFile ih.2 h).1
    | _ => exact step_tableShape ih.1 ⟨by trivial, hop.2⟩ hst

/-- **The boot-time load only appends to logs that exist**: from every state of
a run of the host's calls, boot loads included, on names that fit,
`history_mem_init` reads the directory, whatever its files hold, and the
service after it is reached from the one before by adds of the service, each to
a name that already has a log. No log is created or forgotten, and every log
keeps its limits. -/
theorem historyMemInit_only_appends {s : Sys}
    (hr : Reachable H (fun op => op.HostOk ∧ op.NameFits H.objectLen) s) {loaded : Bool}
    {clock : String → Nat → String} {listing : Option (List String)} {r : Bool × Table × Disk}
    (h : historyMemInit H loaded s.cfg clock listing s.table s.disk = some r) :
    Relation.ReflTransGen (AppendStep H) s.table.service r.2.1.service ∧
      s.table.service.SameLimits r.2.1.service := by
  obtain ⟨hs, hok⟩ := reachable_tableShape_load hr
  unfold historyMemInit at h
  split at h
  · cases h; exact ⟨.refl, .refl _⟩
  · split at h
    · split at h
      · cases h; exact ⟨.refl, .refl _⟩
      · obtain ⟨p, hp, rfl⟩ := Option.map_eq_some'.mp h
        obtain ⟨-, -, hrun, hlim⟩ := TableShape.hbmReadDbs (p := (s.table, s.disk)) hs hok hp
        exact ⟨hrun, hlim⟩
    · cases h; exact ⟨.refl, .refl _⟩

/-- The sample run, as a run of the host's calls that may include loads. -/
theorem sampleRun_reachable_host :
    Reachable Host.sample (fun op => op.HostOk ∧ op.NameFits Host.sample.objectLen) sampleRun :=
  sampleRun_reachable.mono Host.sample fun (_ : Op) (h : _ ∧ _ ∧ _) => ⟨h.1, h.2.2⟩

/-- A directory `history` that holds the file of `#a` with one line of time
`90`, as a timer call with the salts `pre` and `post` writes it. -/
def savedDisk : Disk :=
  Function.update (fun _ => none) "history/pre #a post.db"
    (some (hbmWriteDbValues (some "pre") (some "post")
      { HistoryLogObject.new "#a" with maxLines := 2, maxTime := 86400 }
      [⟨90, [timeTag "90"], "earlier"⟩]))

/-- The sample run's calls on a start whose directory holds `savedDisk`. -/
def savedRun : Sys :=
  after Host.sample (Sys.init CfgStruct.sample CfgStruct.zero savedDisk
    fun c => decide (c = foldCase "#a"))
    [.setLimit "#a" 2 86400 0, .add "#a" [timeTag "100"] "hello" "x"]

unseal String.substrEq.loop readEntries in
/-- The load of the file appends its line to the log of `#a`. -/
theorem historyMemInit_only_appends_sample :
    Reachable Host.sample (fun op => op.HostOk ∧ op.NameFits Host.sample.objectLen) savedRun ∧
    ∃ r, historyMemInit Host.sample false savedRun.cfg (fun _ _ => "")
        (some ["pre #a post.db"]) savedRun.table savedRun.disk = some r ∧
      ((hbmFindObject Host.sample r.2.1 "#a").map fun h => h.entries.map Entry.t) =
        some [100, 90] ∧
      Relation.ReflTransGen (AppendStep Host.sample) savedRun.table.service r.2.1.service ∧
      savedRun.table.service.SameLimits r.2.1.service := by
  have hr : Reachable Host.sample (fun op => op.HostOk ∧ op.NameFits Host.sample.objectLen)
      savedRun :=
    Reachable.after _ (.init _ rfl) (by simp [Op.HostOk, Op.NameFits, TagsNamed, timeTag]; decide)
      (by decide)
  have hsome : (historyMemInit Host.sample false savedRun.cfg (fun _ _ => "")
      (some ["pre #a post.db"]) savedRun.table savedRun.disk).isSome := by decide
  have hts : ((historyMemInit Host.sample false savedRun.cfg (fun _ _ => "")
      (some ["pre #a post.db"]) savedRun.table savedRun.disk).map fun r =>
        (hbmFindObject Host.sample r.2.1 "#a").map fun h => h.entries.map Entry.t) =
      some (some [100, 90]) := by decide
  obtain ⟨r, hinit⟩ := Option.isSome_iff_exists.mp hsome
  rw [hinit, Option.map_some'] at hts
  exact ⟨hr, r, hinit, Option.some.inj hts, historyMemInit_only_appends hr hinit⟩

end HistoryBackendMem
