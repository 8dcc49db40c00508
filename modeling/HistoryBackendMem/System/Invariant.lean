import HistoryBackendMem.System.Step

/-!
# System — every log stays well formed

`ObjOk h`: the chain of `h` is well formed with its counters (`LogOk`), and
its limit is at least one line. Every operation keeps it of every object of
the table (`Table.All`), so it holds in every state a run reaches with the
host's guarantees (`reachable_objOk`): the memory backend's main invariant.

From it follow the operations' meaning on the abstract log: `hbm_history_add`
is a push onto a bounded queue, a cleanup keeps a subsequence, and a request
changes nothing and returns the suffix of the lines past its red line.
-/

namespace HistoryBackendMem

variable (H : Host)

/-- The invariant of an object in a run. -/
structure ObjOk (h : HistoryLogObject) : Prop where
  /-- A well-formed chain with its counters and its lines' times. -/
  log : ∃ cells, LogOk H h cells
  /-- A limit of at least one line. -/
  limit : 1 ≤ h.maxLines

variable {H}

/-! ## One object -/

/-- `addToObject` copies the tags whenever it succeeds. -/
theorem addToObject_newEntry {mtags : List MessageTag} {line clock : String}
    {h h' : HistoryLogObject} (hadd : addToObject H mtags line clock h = some h') :
    ∃ e, newEntry H mtags line clock = some e := by
  unfold addToObject at hadd
  obtain ⟨_, -, hl⟩ := Option.bind_eq_some.mp hadd
  obtain ⟨e, he, -⟩ := Option.map_eq_some'.mp hl
  exact ⟨e, he⟩

/-- `hbm_history_add` leaves an object of the run, or a new one, well formed. -/
theorem ObjOk.addToObject {h h' : HistoryLogObject} (ho : ObjOk H h ∨ ∃ n, h = .new n)
    {mtags : List MessageTag} {line clock : String}
    (hadd : addToObject H mtags line clock h = some h') : ObjOk H h' := by
  obtain ⟨e, he⟩ := addToObject_newEntry hadd
  obtain ⟨cells, hl, hm⟩ : ∃ cells, LogOk H h cells ∧ 0 ≤ h.maxLines := by
    rcases ho with ⟨⟨cells, hl⟩, hm⟩ | ⟨n, rfl⟩
    · exact ⟨cells, hl, by omega⟩
    · exact ⟨[], LogOk.new H n, le_refl _⟩
  obtain ⟨h'', hrun, -, hmax, -⟩ := addToObject_spec H hl.inv hm he
  cases hadd.symm.trans hrun
  refine ⟨⟨_, hl.addToObject he hrun⟩, ?_⟩
  rw [hmax, addLimit]; split <;> omega

/-- The cleanup of `hbm_history_set_limit` leaves it well formed under a limit
of at least one line. -/
theorem ObjOk.setLimit {h h' : HistoryLogObject} (ho : ObjOk H h ∨ ∃ n, h = .new n)
    {maxLines maxTime now : Int} (hm : 1 ≤ maxLines)
    (hc : hbmHistoryCleanup now { h with maxLines, maxTime } = some h') : ObjOk H h' := by
  obtain ⟨cells, hl⟩ : ∃ cells, LogOk H h cells := by
    rcases ho with ⟨hl, -⟩ | ⟨n, rfl⟩
    · exact hl
    · exact ⟨[], LogOk.new H n⟩
  have hi := hl.inv.setLimits maxLines maxTime
  obtain ⟨h'', hrun, hs⟩ := hbmHistoryCleanup_spec hi now
  cases hc.symm.trans hrun
  exact ⟨⟨_, LogOk.cleanup hi hl.timed hrun⟩, by rw [hs.maxLines]; exact hm⟩

theorem ObjOk.setDirty {h : HistoryLogObject} (ho : ObjOk H h) (d : Bool) :
    ObjOk H { h with dirty := d } :=
  ⟨ho.log.imp fun _ hl => hl.setDirty d, ho.limit⟩

/-- A timer step leaves an object well formed. -/
theorem ObjOk.tickObject {cfg : CfgStruct} {chanP : List Char → Bool} {now : Int}
    {io : WriteIO} {disk d : Disk} {h h' : HistoryLogObject} (ho : ObjOk H h)
    (ht : HistoryBackendMem.tickObject H cfg chanP now io disk h = some (h', d)) : ObjOk H h' := by
  obtain ⟨h₁, hc, hw⟩ := tickObject_cases H ht
  obtain ⟨cells, hl⟩ := ho.log
  obtain ⟨h'', hrun, hs⟩ := hbmHistoryCleanup_spec hl.inv now
  cases hc.symm.trans hrun
  have h₁ok : ObjOk H h₁ := ⟨⟨_, LogOk.cleanup hl.inv hl.timed hrun⟩, hs.maxLines ▸ ho.limit⟩
  rcases hw with rfl | rfl
  · exact h₁ok
  · exact h₁ok.setDirty false

/-! ## The table -/

/-- A property of objects that every timer step keeps holds of a table after
timer steps. -/
theorem Table.All.tickSteps {P : HistoryLogObject → Prop} {cfg : CfgStruct}
    {chanP : List Char → Bool} {now : Int}
    (hobj : ∀ io disk h h' d, P h → tickObject H cfg chanP now io disk h = some (h', d) → P h')
    {s s' : Table × Disk} (hr : Relation.ReflTransGen (TickStep H cfg chanP now) s s')
    (hP : s.1.All P) : s'.1.All P := by
  induction hr with
  | refl => exact hP
  | tail _ hst ih =>
    obtain ⟨b, i, h, io, h', d, hh, ht, rfl⟩ := hst
    exact ih.set b i (hobj io _ h h' d (ih b h (List.getElem?_mem hh)) ht)

/-- A property of tables that every `hbm_history_add` on `object` keeps holds
after a run of them. -/
theorem addsTo_preserves {Q : Table → Prop} {object : String}
    (hadd : ∀ tb tb', Q tb → AddsTo H object tb tb' → Q tb') {tb tb' : Table}
    (hr : Relation.ReflTransGen (AddsTo H object) tb tb') (hQ : Q tb) : Q tb' := by
  induction hr with
  | refl => exact hQ
  | tail _ hst ih => exact hadd _ _ ih hst

theorem Table.All.hbmHistoryAdd {tb tb' : Table} (hP : tb.All (ObjOk H)) {object : String}
    {mtags : List MessageTag} {line clock : String}
    (h : HistoryBackendMem.hbmHistoryAdd H tb object mtags line clock = some tb') :
    tb'.All (ObjOk H) :=
  hP.withObject H h fun _ _ hx hf =>
    ObjOk.addToObject (hx.imp (hP _ _) fun hx => ⟨_, hx⟩) hf

section Preserved

/-! ### A property every operation but a load keeps

What an operation can do to the objects is said once here; each invariant of
the objects then only has to survive the four object-level changes. -/

variable {P : HistoryLogObject → Prop}
  (hadd : ∀ {h h' : HistoryLogObject} {mtags line clock}, (P h ∨ ∃ n, h = .new n) →
    TagsNamed mtags → addToObject H mtags line clock h = some h' → P h')
  (hlimit : ∀ {h h' : HistoryLogObject} {maxLines maxTime now : Int}, (P h ∨ ∃ n, h = .new n) →
    1 ≤ maxLines → hbmHistoryCleanup now { h with maxLines, maxTime } = some h' → P h')
  (hdirty : ∀ {h : HistoryLogObject} (d : Bool), P h → P { h with dirty := d })
  (htick : ∀ {cfg chanP now io disk} {h h' : HistoryLogObject} {d},
    P h → tickObject H cfg chanP now io disk h = some (h', d) → P h')
include hadd hlimit hdirty htick

theorem Table.All.step_of_noLoad {s s' : Sys} {op : Op} (hP : s.table.All P) (hop : op.HostOk)
    (hl : op.NoLoad) (hs : step H s op = some s') : s'.table.All P := by
  cases op with
  | add object mtags line clock =>
    obtain ⟨tb, h, rfl⟩ := Option.map_eq_some'.mp hs
    exact hP.withObject H h fun _ _ hx hf => hadd (hx.imp (hP _ _) fun hx => ⟨_, hx⟩) hop hf
  | setLimit object maxLines maxTime now =>
    obtain ⟨tb, h, rfl⟩ := Option.map_eq_some'.mp hs
    exact hP.withObject H h fun _ _ hx hc => hlimit (hx.imp (hP _ _) fun hx => ⟨_, hx⟩) hop hc
  | request object filter now clock =>
    obtain ⟨_, -, rfl⟩ := Option.map_eq_some'.mp hs
    exact hP
  | destroy object =>
    obtain ⟨⟨r, tb', d⟩, h, rfl⟩ := Option.map_eq_some'.mp hs
    rcases hbmHistoryDestroy_eq H h with ⟨-, -, rfl, -⟩ | ⟨i, g, -, -, -, rfl, -⟩
    · exact hP
    · exact hP.eraseIdx _ i
  | setModeP chname => cases hs; exact hP
  | unsetModeP chname =>
    obtain ⟨⟨tb', d⟩, h, rfl⟩ := Option.map_eq_some'.mp hs
    rcases hbmModecharDel_table H h with rfl | rfl
    · exact hP
    · exact hP.modifyObject H _ fun _ => hdirty true
  | tick now io =>
    obtain ⟨r, h, rfl⟩ := Option.map_eq_some'.mp hs
    exact Table.All.tickSteps (fun _ _ _ _ _ => htick) (historyMemClean_steps H h) hP
  | load fname clock => exact hl.elim
  | rehash entries io =>
    obtain ⟨r, h, rfl⟩ := Option.map_eq_some'.mp hs
    exact hP

end Preserved

/-- A property of objects that `hbm_history_add` with tags a file can carry
and a change of `dirty` keep is kept by a boot load. -/
theorem Table.All.step_load {P : HistoryLogObject → Prop}
    (hadd : ∀ {h h' : HistoryLogObject} {mtags line clock}, (P h ∨ ∃ n, h = .new n) →
      TagsWritable mtags → addToObject H mtags line clock h = some h' → P h')
    (hdirty : ∀ {h : HistoryLogObject} (d : Bool), P h → P { h with dirty := d })
    {s s' : Sys} {fname : String} {clock : Nat → String} (hP : s.table.All P)
    (hs : HistoryBackendMem.step H s (.load fname clock) = some s') : s'.table.All P := by
  rw [HistoryBackendMem.step] at hs
  obtain ⟨r, h, rfl⟩ := Option.map_eq_some'.mp hs
  unfold hbmReadDbsFile at h
  split at h
  · obtain ⟨out, hread, rfl⟩ := Option.map_eq_some'.mp h
    obtain ⟨object, tb₁, hadds, -, htb⟩ := hbmReadDb_table H hread
    have h₁ : tb₁.All P := addsTo_preserves (fun _ _ hQ ⟨_, _, _, hw, ha⟩ =>
      hQ.withObject H ha fun _ _ hx hf => hadd (hx.imp (hQ _ _) fun hx => ⟨_, hx⟩) hw hf) hadds hP
    have hout : out.table.All P := by
      rcases htb with htb | htb <;> rw [htb]
      · exact h₁
      · exact h₁.modifyObject H _ fun _ ho => hdirty false ho
    dsimp only
    split <;> exact hout
  · cases h; exact hP

/-- **Every operation keeps every object well formed**, given the host's
guarantees. -/
theorem step_objOk {s s' : Sys} {op : Op} (hP : s.table.All (ObjOk H)) (hop : op.HostOk)
    (hs : step H s op = some s') : s'.table.All (ObjOk H) := by
  by_cases hl : op.NoLoad
  · exact hP.step_of_noLoad (fun ho _ hadd => ObjOk.addToObject ho hadd) (fun ho => ObjOk.setLimit ho)
      (fun d ho => ho.setDirty d) (fun ho ht => ho.tickObject ht) hop hl hs
  obtain ⟨fname, clock, rfl⟩ := Op.eq_load_of_not_noLoad hl
  exact hP.step_load (fun ho _ hadd => ObjOk.addToObject ho hadd) (fun d ho => ho.setDirty d) hs

/-- **The invariant holds in every state a run reaches.** -/
theorem reachable_objOk {ok : Op → Prop} (hok : ∀ op, ok op → op.HostOk) {s : Sys}
    (hr : Reachable H ok s) : s.table.All (ObjOk H) :=
  Reachable.induct' H (fun _ hs => hs ▸ Table.All.empty _)
    (fun _ _ _ hP hop hst => step_objOk hP (hok _ hop) hst) hr

/-! ## What the operations do to a log -/

theorem hbmFindObject_mem {tb : Table} {object : String} {h : HistoryLogObject}
    (hf : hbmFindObject H tb object = some h) : h ∈ tb (hbmHash H object) :=
  List.mem_of_find?_eq_some hf

/-- `hbm_history_add` on one log pushes onto the bounded queue of its entries. -/
theorem addToObject_entries {h : HistoryLogObject} {cells : List (Nat × Entry)}
    (hl : LogOk H h cells) (hm : 0 ≤ h.maxLines) {mtags : List MessageTag} {line clock : String}
    (hn : TagsNamed mtags) :
    ∃ e h', newEntry H mtags line clock = some e ∧ addToObject H mtags line clock h = some h' ∧
      h'.entries = pushBounded (addLimit h) h.entries e ∧ h'.maxLines = addLimit h := by
  obtain ⟨e, he⟩ := Option.isSome_iff_exists.mp (newEntry_isSome H hn line clock)
  obtain ⟨h', hrun, hi', hmax, -⟩ := addToObject_spec H hl.inv hm he
  refine ⟨e, h', he, hrun, ?_, hmax⟩
  rw [hi'.entries_eq, hl.inv.entries_eq, pushBounded_map]

/-- An `hbm_history_add` that goes through pushes the entry it made onto the
bounded queue of the entries. -/
theorem addToObject_entries_of_some {h h' : HistoryLogObject} {cells : List (Nat × Entry)}
    (hl : LogOk H h cells) (hm : 0 ≤ h.maxLines) {mtags : List MessageTag} {line clock : String}
    (hadd : addToObject H mtags line clock h = some h') :
    ∃ e, newEntry H mtags line clock = some e ∧ h'.entries = pushBounded (addLimit h) h.entries e := by
  obtain ⟨e, he⟩ := addToObject_newEntry hadd
  obtain ⟨h'', hrun, hi', -, -⟩ := addToObject_spec H hl.inv hm he
  cases hadd.symm.trans hrun
  exact ⟨e, he, by rw [hi'.entries_eq, hl.inv.entries_eq, pushBounded_map]⟩

/-- A cleanup keeps a subsequence of the entries. -/
theorem hbmHistoryCleanup_entries {h : HistoryLogObject} {cells : List (Nat × Entry)}
    (hi : LogInv h cells) (now : Int) :
    ∃ h', hbmHistoryCleanup now h = some h' ∧ h'.entries.Sublist h.entries := by
  obtain ⟨h', hrun, hs⟩ := hbmHistoryCleanup_spec hi now
  exact ⟨h', hrun, by rw [hs.inv.entries_eq, hi.entries_eq]; exact hs.sublist.map _⟩

/-- On a state a run reaches, a request never faults and changes nothing. -/
theorem step_request {s : Sys} (hr : Reachable H Op.HostOk s) (object : String)
    (filter : Option HistoryFilter) (now : Int) (clock : String) :
    step H s (.request object filter now clock) = some s := by
  cases hf : hbmFindObject H s.table object with
  | none => simp [step, hbmHistoryRequest_of_none H hf]
  | some h =>
    obtain ⟨cells, hl⟩ := (reachable_objOk (fun _ h => h) hr _ h (hbmFindObject_mem hf)).log
    simp [step, hbmHistoryRequest_eq H hf hl.inv hl.timed]

/-- **`hbm_history_request` in a run**: NULL when no object matches; otherwise,
while C's `long` and `int` hold the red line and `lines_to_skip`, the last
`max 0 (min last_lines |S|)` entries of the sequence `S` of the object's
entries at or past the red line, in log order. The request changes nothing. -/
theorem request_suffix {s : Sys} (hr : Reachable H Op.HostOk s) (object : String)
    (filter : Option HistoryFilter) (now : Int) (clock : String)
    (hfit : ∀ h, hbmFindObject H s.table object = some h → RequestFits h filter now) :
    hbmHistoryRequest H s.table object filter now clock =
      (match hbmFindObject H s.table object with
        | none => some none
        | some h => some (some ⟨object,
            let S := h.entries.filter fun e => exactRedline h filter now ≤ e.t
            S.drop (S.length - requestCount filter S.length)⟩)) ∧
    step H s (.request object filter now clock) = some s := by
  refine ⟨?_, step_request hr object filter now clock⟩
  cases hf : hbmFindObject H s.table object with
  | none => exact hbmHistoryRequest_of_none H hf filter now clock
  | some h =>
    obtain ⟨cells, hl⟩ := (reachable_objOk (fun _ h => h) hr _ h (hbmFindObject_mem hf)).log
    have hfit := hfit h hf
    have hlen : (h.entries.length : Int) = h.numLines := by
      rw [hl.inv.numLines, hl.inv.entries_eq, List.length_map]
    have hS : ∀ f, filter = some f →
        ((h.entries.filter fun e => exactRedline h filter now ≤ e.t).length : Int) - 2147483648 <
          f.lastLines := by
      intro f hf'
      have := hfit.2 f hf'
      have := List.length_filter_le (fun e => decide (exactRedline h filter now ≤ e.t)) h.entries
      omega
    rw [hbmHistoryRequest_eq H hf hl.inv hl.timed, requestRedline_of_fits hfit.1]
    simp only [drop_linesToSkip _ hS]

theorem request_suffix_sample :
    Reachable Host.sample Op.HostOk sampleRun ∧
    (∀ h, hbmFindObject Host.sample sampleRun.table "#a" = some h →
      RequestFits h (some ⟨1, 0⟩) 0) ∧
    (hbmHistoryRequest Host.sample sampleRun.table "#a" (some ⟨1, 0⟩) 0 "x" =
      (match hbmFindObject Host.sample sampleRun.table "#a" with
        | none => some none
        | some h => some (some ⟨"#a",
            let S := h.entries.filter fun e => exactRedline h (some ⟨1, 0⟩) 0 ≤ e.t
            S.drop (S.length - requestCount (some ⟨1, 0⟩) S.length)⟩)) ∧
    step Host.sample sampleRun (.request "#a" (some ⟨1, 0⟩) 0 "x") = some sampleRun) :=
  have hr := sampleRun_reachable.mono _ fun _ h => h.1
  have hfit : ∀ h, hbmFindObject Host.sample sampleRun.table "#a" = some h →
      RequestFits h (some ⟨1, 0⟩) 0 := fun h hh => by
    cases (rfl : hbmFindObject Host.sample sampleRun.table "#a" = some sampleLog).symm.trans hh
    exact ⟨⟨by decide, fun f hf => by cases hf; decide⟩, fun f hf => by cases hf; decide⟩
  ⟨hr, hfit, request_suffix hr "#a" (some ⟨1, 0⟩) 0 "x" hfit⟩

/-- **`last_lines = INT_MIN` sends every line**: `lines_sendable - last_lines`
wraps to a negative `lines_to_skip`, and the request returns the whole sample
log, where the last `max 0 (min last_lines |S|)` entries are none. -/
theorem request_int_min_sends_all :
    hbmHistoryRequest Host.sample sampleRun.table "#a" (some ⟨-2147483648, 0⟩) 0 "x" =
      some (some ⟨"#a", sampleLog.entries⟩) ∧ sampleLog.entries ≠ [] ∧
    (let S := sampleLog.entries.filter fun e => exactRedline sampleLog (some ⟨-2147483648, 0⟩) 0 ≤ e.t
     S.drop (S.length - requestCount (some ⟨-2147483648, 0⟩) S.length)) = [] := by
  decide

/-- **The memory backend's invariant, over every run**: every log's chain is
well formed with `0 ≤ num_lines ≤ max_lines`; `hbm_history_add` of a name that
fits never faults and pushes onto the bounded queue of the entries of the
object it names (its head goes exactly when the log is full, the new entry
goes last whatever its time), or creates that object with the one entry and
the default limits; a cleanup keeps a subsequence of the entries; a request
changes nothing. -/
theorem history_runs_wellformed {s : Sys} (hr : Reachable H Op.HostOk s) :
    s.table.All (fun h => (∃ cells, LogInv h cells) ∧ 0 ≤ h.numLines ∧ h.numLines ≤ h.maxLines) ∧
    (∀ object mtags line clock, TagsNamed mtags → object.length ≤ H.objectLen →
      ∃ e s' h', newEntry H mtags line clock = some e ∧
        step H s (.add object mtags line clock) = some s' ∧ hbmFindObject H s'.table object = some h' ∧
        match hbmFindObject H s.table object with
        | some h => h'.entries = pushBounded h.maxLines h.entries e ∧
            h'.maxLines = h.maxLines ∧ h'.maxTime = h.maxTime
        | none => h'.entries = [e] ∧ h'.maxLines = 50 ∧ h'.maxTime = 86400) ∧
    (∀ b, ∀ h ∈ s.table b, ∀ now,
      ∃ h', hbmHistoryCleanup now h = some h' ∧ h'.entries.Sublist h.entries) ∧
    (∀ object filter now clock, step H s (.request object filter now clock) = some s) := by
  have hP := reachable_objOk (fun _ h => h) hr
  refine ⟨fun b h hh => ?_, fun object mtags line clock hn hlen => ?_,
    fun b h hh now => ?_, step_request hr⟩
  · obtain ⟨⟨cells, hl⟩, hm⟩ := hP b h hh
    have := hl.inv.numLines_nonneg
    exact ⟨⟨cells, hl.inv⟩, this, by rcases hl.bound with hb | hb <;> omega⟩
  · cases hf : hbmFindObject H s.table object with
    | some h =>
      obtain ⟨⟨cells, hl⟩, hm⟩ := hP _ h (hbmFindObject_mem hf)
      obtain ⟨e, h', he, hrun, hent, hmax⟩ := addToObject_entries hl (by omega) hn
      obtain ⟨i, -, -, hw, hf'⟩ := withObject_of_found H hf hrun (addToObject_name H hrun)
      have hm0 : h.maxLines ≠ 0 := by omega
      rw [addLimit, if_neg hm0] at hent hmax
      exact ⟨e, _, h', he, by rw [step, hbmHistoryAdd, hw]; rfl, hf', hent, hmax,
        by rw [addToObject_maxTime H hrun, if_neg hm0]⟩
    | none =>
      obtain ⟨e, h', he, hrun, hent, hmax⟩ := @addToObject_entries H (.new (strlcpyName H object)) []
        (LogOk.new H _) (le_refl _) mtags line clock hn
      have hname : strcasecmp object h'.name = true := by
        rw [addToObject_name H hrun, strlcpyName_of_le H hlen]
        exact strcasecmp_iff.mpr rfl
      obtain ⟨hw, hf'⟩ := withObject_of_none H hf hrun hname
      refine ⟨e, _, h', he, by rw [step, hbmHistoryAdd, hw]; rfl, hf', ?_, by rw [hmax]; rfl,
        by rw [addToObject_maxTime H hrun]; rfl⟩
      rw [hent, (LogInv.new _).entries_eq]
      simp [pushBounded, addLimit, HistoryLogObject.new]
  · obtain ⟨⟨cells, hl⟩, -⟩ := hP b h hh
    exact hbmHistoryCleanup_entries hl.inv now

theorem runs_wellformed_sample :
    Reachable Host.sample Op.HostOk sampleRun ∧
    sampleRun.table.All
      (fun h => (∃ cells, LogInv h cells) ∧ 0 ≤ h.numLines ∧ h.numLines ≤ h.maxLines) ∧
    (∀ object mtags line clock, TagsNamed mtags → object.length ≤ Host.sample.objectLen →
      ∃ e s' h', newEntry Host.sample mtags line clock = some e ∧
        step Host.sample sampleRun (.add object mtags line clock) = some s' ∧
        hbmFindObject Host.sample s'.table object = some h' ∧
        match hbmFindObject Host.sample sampleRun.table object with
        | some h => h'.entries = pushBounded h.maxLines h.entries e ∧
            h'.maxLines = h.maxLines ∧ h'.maxTime = h.maxTime
        | none => h'.entries = [e] ∧ h'.maxLines = 50 ∧ h'.maxTime = 86400) ∧
    (∀ b, ∀ h ∈ sampleRun.table b, ∀ now,
      ∃ h', hbmHistoryCleanup now h = some h' ∧ h'.entries.Sublist h.entries) ∧
    (∀ object filter now clock,
      step Host.sample sampleRun (.request object filter now clock) = some sampleRun) :=
  have hr := sampleRun_reachable.mono _ fun _ h => h.1
  ⟨hr, history_runs_wellformed hr⟩

end HistoryBackendMem
