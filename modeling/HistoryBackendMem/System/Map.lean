import HistoryBackendMem.System.Invariant
import HistoryBackendMem.Store.Map

/-!
# System — the table refines a map

`TableShape` (every object in the bucket of its name's hash, no two names of a
bucket equal under `strcasecmp`) holds in every state of a run without boot
loads whose names fit in `OBJECTLEN`: the `strlcpy` of a new object's name then
keeps it whole. A load is left out, since a file can hold a longer name, whose
truncated copy would sit in the bucket of the whole one.

Over such runs the table is a finite map from folded names to objects, and
each operation of the store is an operation on the map (`table_refines_map`).
-/

namespace HistoryBackendMem

variable {H : Host}

/-- A timer step keeps the object's name. -/
theorem tickObject_name {cfg : CfgStruct} {chanP : List Char → Bool} {now : Int} {io : WriteIO}
    {disk d : Disk} {h h' : HistoryLogObject}
    (ht : tickObject H cfg chanP now io disk h = some (h', d)) : h'.name = h.name := by
  obtain ⟨h₁, hc, hw⟩ := tickObject_cases H ht
  rcases hw with rfl | rfl <;> exact (hbmHistoryCleanup_frame hc).1

theorem TableShape.tickSteps {cfg : CfgStruct} {chanP : List Char → Bool} {now : Int}
    {s s' : Table × Disk} (hr : Relation.ReflTransGen (TickStep H cfg chanP now) s s')
    (hs : TableShape H s.1) : TableShape H s'.1 := by
  induction hr with
  | refl => exact hs
  | tail _ hst ih =>
    obtain ⟨b, i, h, io, h', d, hh, ht, rfl⟩ := hst
    exact ih.set hh (tickObject_name ht)

/-- **`hbm_history_destroy` is the map's removal**: it never faults, returns
`1` exactly when an object is held under the name, and unlinks that object
alone. -/
theorem TableShape.hbmHistoryDestroy {tb : Table} (hs : TableShape H tb) (cfg : CfgStruct)
    (disk : Disk) (n : String) :
    ∃ r tb' d, HistoryBackendMem.hbmHistoryDestroy H cfg tb disk n = some (r, tb', d) ∧
      r = (if (tb.lookup (foldCase n)).isSome then 1 else 0) ∧ RemovesAt H tb tb' n := by
  obtain ⟨⟨r, tb', d⟩, hd⟩ := Option.isSome_iff_exists.mp (hbmHistoryDestroy_isSome H cfg tb disk n)
  refine ⟨r, tb', d, hd, ?_⟩
  rcases hbmHistoryDestroy_eq H hd with ⟨hf, rfl, htb, -⟩ | ⟨i, g, hi, hg, rfl, htb, -⟩
  · rw [htb]
    have hn : tb.lookup (foldCase n) = none := hs.findObject_eq_lookup n ▸ hf
    exact ⟨by simp [hn], hs.removesAt_self hn⟩
  · have hn : tb.lookup (foldCase n) = some g := by
      rw [← hs.findObject_eq_lookup, hbmFindObject_eq, hi]; exact hg
    exact ⟨by simp [hn], hs.eraseIdx hi hg htb⟩

/-- The operations whose runs keep the shape: all but the boot-time load, on
names that fit. -/
theorem step_tableShape {s s' : Sys} {op : Op} (hs : TableShape H s.table)
    (hop : op.NoLoad ∧ op.NameFits H.objectLen) (hst : step H s op = some s') :
    TableShape H s'.table := by
  cases op with
  | add object mtags line clock =>
    obtain ⟨tb, h, rfl⟩ := Option.map_eq_some'.mp hst
    exact (hs.withObject hop.2 (fun _ _ => addToObject_name H) h).1.shape
  | setLimit object maxLines maxTime now =>
    obtain ⟨tb, h, rfl⟩ := Option.map_eq_some'.mp hst
    exact (hs.withObject hop.2 (by exact fun _ _ hc => (hbmHistoryCleanup_frame hc).1) h).1.shape
  | request object filter now clock =>
    obtain ⟨_, -, rfl⟩ := Option.map_eq_some'.mp hst
    exact hs
  | destroy object =>
    obtain ⟨⟨r, tb', d⟩, h, rfl⟩ := Option.map_eq_some'.mp hst
    obtain ⟨r', tb'', d', h', -, hrem⟩ := hs.hbmHistoryDestroy s.cfg s.disk object
    cases h.symm.trans h'
    exact hrem.shape
  | setModeP chname => cases hst; exact hs
  | unsetModeP chname =>
    obtain ⟨⟨tb', d⟩, h, rfl⟩ := Option.map_eq_some'.mp hst
    rcases hbmModecharDel_table H h with rfl | rfl
    · exact hs
    · exact hs.modifyObject _ fun _ => rfl
  | tick now io =>
    obtain ⟨r, h, rfl⟩ := Option.map_eq_some'.mp hst
    exact TableShape.tickSteps (historyMemClean_steps H h) hs
  | load fname clock => exact hop.1.elim
  | rehash entries io =>
    obtain ⟨r, h, rfl⟩ := Option.map_eq_some'.mp hst
    exact hs

theorem reachable_tableShape {ok : Op → Prop}
    (hok : ∀ op, ok op → op.NoLoad ∧ op.NameFits H.objectLen) {s : Sys} (hr : Reachable H ok s) :
    TableShape H s.table :=
  Reachable.induct' H (fun _ hs => hs ▸ TableShape.empty H)
    (fun _ _ _ hP hop hst => step_tableShape hP (hok _ hop) hst) hr

/-- **The table refines a finite map keyed by case-folded name**, in every
state of a run without boot loads on names that fit: every object sits in the
bucket of its name's hash and no two names are equal under `strcasecmp`;
`hbm_find_object(n)` is the lookup of `n`'s fold; `hbm_history_add` and
`hbm_history_set_limit` on `n` change the map at `n` alone, creating an object
exactly when none was held there, and leave under `n` what they compute from
the object held or a new one; `hbm_history_destroy(n)` never faults, returns
`1` exactly when an object was held under `n`, and unlinks that object alone. -/
theorem table_refines_map {s : Sys}
    (hr : Reachable H (fun op => op.NoLoad ∧ op.NameFits H.objectLen) s) :
    TableShape H s.table ∧
    (∀ n, hbmFindObject H s.table n = s.table.lookup (foldCase n)) ∧
    (∀ n mtags line clock tb', n.length ≤ H.objectLen →
      hbmHistoryAdd H s.table n mtags line clock = some tb' →
      UpdatesAt H s.table tb' n ∧ ∃ h h',
        (s.table.lookup (foldCase n) = some h ∨
          (s.table.lookup (foldCase n) = none ∧ h = .new n)) ∧
        addToObject H mtags line clock h = some h' ∧ tb'.lookup (foldCase n) = some h') ∧
    (∀ n maxLines maxTime now tb', n.length ≤ H.objectLen →
      hbmHistorySetLimit H s.table n maxLines maxTime now = some tb' →
      UpdatesAt H s.table tb' n ∧ ∃ h h',
        (s.table.lookup (foldCase n) = some h ∨
          (s.table.lookup (foldCase n) = none ∧ h = .new n)) ∧
        hbmHistoryCleanup now { h with maxLines, maxTime } = some h' ∧
        tb'.lookup (foldCase n) = some h') ∧
    (∀ n, ∃ r tb' d, hbmHistoryDestroy H s.cfg s.table s.disk n = some (r, tb', d) ∧
      r = (if (s.table.lookup (foldCase n)).isSome then 1 else 0) ∧ RemovesAt H s.table tb' n) := by
  have hs := reachable_tableShape (fun _ h => h) hr
  exact ⟨hs, hs.findObject_eq_lookup,
    fun n _ _ _ _ hn h => hs.withObject hn (fun _ _ => addToObject_name H) h,
    fun n _ _ _ _ hn h =>
      hs.withObject hn (by exact fun _ _ hc => (hbmHistoryCleanup_frame hc).1) h,
    fun n => hs.hbmHistoryDestroy s.cfg s.disk n⟩

theorem table_refines_map_sample :
    Reachable Host.sample (fun op => op.NoLoad ∧ op.NameFits Host.sample.objectLen) sampleRun ∧
    TableShape Host.sample sampleRun.table ∧
    (∀ n, hbmFindObject Host.sample sampleRun.table n = sampleRun.table.lookup (foldCase n)) ∧
    (∀ n mtags line clock tb', n.length ≤ Host.sample.objectLen →
      hbmHistoryAdd Host.sample sampleRun.table n mtags line clock = some tb' →
      UpdatesAt Host.sample sampleRun.table tb' n ∧ ∃ h h',
        (sampleRun.table.lookup (foldCase n) = some h ∨
          (sampleRun.table.lookup (foldCase n) = none ∧ h = .new n)) ∧
        addToObject Host.sample mtags line clock h = some h' ∧ tb'.lookup (foldCase n) = some h') ∧
    (∀ n maxLines maxTime now tb', n.length ≤ Host.sample.objectLen →
      hbmHistorySetLimit Host.sample sampleRun.table n maxLines maxTime now = some tb' →
      UpdatesAt Host.sample sampleRun.table tb' n ∧ ∃ h h',
        (sampleRun.table.lookup (foldCase n) = some h ∨
          (sampleRun.table.lookup (foldCase n) = none ∧ h = .new n)) ∧
        hbmHistoryCleanup now { h with maxLines, maxTime } = some h' ∧
        tb'.lookup (foldCase n) = some h') ∧
    (∀ n, ∃ r tb' d,
      hbmHistoryDestroy Host.sample sampleRun.cfg sampleRun.table sampleRun.disk n = some (r, tb', d) ∧
      r = (if (sampleRun.table.lookup (foldCase n)).isSome then 1 else 0) ∧
      RemovesAt Host.sample sampleRun.table tb' n) :=
  have hr := sampleRun_reachable.mono _ fun _ h => h.2
  ⟨hr, table_refines_map hr⟩

end HistoryBackendMem
