import HistoryBackendMem.System.Clean
import HistoryBackendMem.Store.Request

/-!
# System — the module as a state machine

The state is the module's globals (the hash table, the timer's cursor, the
two configuration records) with the host state they are read against (the
files, and the channels that have mode `+P`). An operation is one entry point
the host calls: the four history-backend callbacks, a change of `+P` (with
`hbm_modechar_del` on `-P`), a timer tick, the load of one file at boot, and a
rehash. `step` runs one; `none` is a fault (an `abort()` or a bad pointer).

`Reachable ok` is the set of states a run reaches from a start with an empty
table when every operation satisfies `ok`; each theorem about runs picks the
operations it is about.
-/

namespace HistoryBackendMem

variable (H : Host)

/-- The module's state, with the host state it reads. -/
structure Sys where
  /-- `history_hash_table`. -/
  table : Table
  /-- The `static int hashnum` of `history_mem_clean`. -/
  hashnum : Nat
  /-- The live configuration `cfg`. -/
  cfg : CfgStruct
  /-- The test configuration `test`. -/
  test : CfgStruct
  /-- The files of the data directory. -/
  disk : Disk
  /-- Which channels exist with mode `+P`, by case-folded name. -/
  chanP : List Char → Bool

/-- The entry points the host calls. -/
inductive Op where
  | add (object : String) (mtags : List MessageTag) (line clock : String)
  | setLimit (object : String) (maxLines maxTime now : Int)
  | request (object : String) (filter : Option HistoryFilter) (now : Int) (clock : String)
  | destroy (object : String)
  | setModeP (chname : String)
  | unsetModeP (chname : String)
  | tick (now : Int) (io : Fin hashTableSize → Nat → WriteIO)
  | load (fname : String) (clock : Nat → String)
  | rehash (entries : List ConfigEntry) (io : PosttestIO)

/-- One operation; `none` when it faults. -/
def step (s : Sys) : Op → Option Sys
  | .add object mtags line clock =>
    (hbmHistoryAdd H s.table object mtags line clock).map fun tb => { s with table := tb }
  | .setLimit object maxLines maxTime now =>
    (hbmHistorySetLimit H s.table object maxLines maxTime now).map fun tb => { s with table := tb }
  | .request object filter now clock =>
    (hbmHistoryRequest H s.table object filter now clock).map fun _ => s
  | .destroy object =>
    (hbmHistoryDestroy H s.cfg s.table s.disk object).map fun r =>
      { s with table := r.2.1, disk := r.2.2 }
  | .setModeP chname => some { s with chanP := Function.update s.chanP (foldCase chname) true }
  | .unsetModeP chname =>
    (hbmModecharDel H s.cfg s.table s.disk chname 'P').map fun r =>
      { s with table := r.1, disk := r.2,
               chanP := Function.update s.chanP (foldCase chname) false }
  | .tick now io =>
    (historyMemClean H s.cfg s.chanP now io s.hashnum s.table s.disk).map fun r =>
      { s with hashnum := r.1, table := r.2.1, disk := r.2.2 }
  | .load fname clock =>
    (hbmReadDbsFile H s.cfg clock s.table s.disk fname).map fun r =>
      { s with table := r.1, disk := r.2 }
  | .rehash entries io =>
    (rehashRound H s.cfg s.test s.disk entries io).map fun r =>
      { s with cfg := r.1, test := r.2.1, disk := r.2.2 }

/-- A run: the operations one after the other; `none` when one faults. -/
def run (s : Sys) : List Op → Option Sys
  | [] => some s
  | op :: ops => (step H s op).bind fun s' => run s' ops

/-- The state a run ends in; the start when an operation faults. -/
def after (s : Sys) (ops : List Op) : Sys := (run H s ops).getD s

theorem run_after {s : Sys} {ops : List Op} (h : (run H s ops).isSome) :
    run H s ops = some (after H s ops) := by
  rw [after]
  cases hr : run H s ops with
  | none => rw [hr] at h; cases h
  | some s' => rfl

theorem step_after {s : Sys} {op : Op} (h : (step H s op).isSome) :
    step H s op = some (after H s [op]) := by
  rw [after, run]
  cases hs : step H s op with
  | none => rw [hs] at h; cases h
  | some s' => rfl

theorem after_singleton (s : Sys) (op : Op) : after H s [op] = (step H s op).getD s := by
  rw [after, run]
  cases step H s op <;> rfl

/-- **A timer call** from a cursor in the table runs the loop's body on the
`HISTORY_CLEAN_PER_LOOP + 1` buckets from the cursor on, and moves it past them. -/
theorem step_tick {s : Sys} (hh : s.hashnum < hashTableSize) (now : Int)
    (io : Fin hashTableSize → Nat → WriteIO) :
    step H s (.tick now io) =
      (cleanBodies H s.cfg s.chanP now io
          ((List.range (historyCleanPerLoop + 1)).map fun i => (s.hashnum + i) % hashTableSize)
          s.table s.disk).map fun r =>
        { s with hashnum := (s.hashnum + (historyCleanPerLoop + 1)) % hashTableSize,
                 table := r.1, disk := r.2 } := by
  rw [step, historyMemClean_eq H _ _ _ _ hh, Option.map_map]
  rfl

/-- A state right after `MOD_INIT`: the table empty, the cursor at `0`. -/
def Sys.init (cfg test : CfgStruct) (disk : Disk) (chanP : List Char → Bool) : Sys :=
  ⟨Table.empty, 0, cfg, test, disk, chanP⟩

/-- Boot with no channel in `+P` yet: the records and files `bootRound`
leaves, the table empty, the cursor at `0`. -/
def boot (disk : Disk) (entries : List ConfigEntry) (io : PosttestIO) : Option Sys :=
  (bootRound H disk entries io).map fun r => Sys.init r.1 r.2.1 r.2.2 fun _ => false

/-- A `time` message tag. -/
def timeTag (v : String) : MessageTag := ⟨some "time", some v⟩

/-- The states a run reaches from a start with an empty table (`MOD_INIT`
clears it), each operation allowed by `ok`. -/
inductive Reachable (ok : Op → Prop) : Sys → Prop where
  | init (s : Sys) : s.table = Table.empty → Reachable ok s
  | tail {s s' : Sys} {op : Op} : Reachable ok s → ok op → step H s op = some s' → Reachable ok s'

/-- What the host guarantees of its calls: message tags have names, and a
limit set through `+H` is at least one line. -/
def Op.HostOk : Op → Prop
  | .add _ mtags _ _ => TagsNamed mtags
  | .setLimit _ maxLines _ _ => 1 ≤ maxLines
  | _ => True

/-- Operations other than the boot-time load of a file. -/
def Op.NoLoad : Op → Prop
  | .load _ _ => False
  | _ => True

theorem Op.eq_load_of_not_noLoad {op : Op} (h : ¬op.NoLoad) :
    ∃ fname clock, op = .load fname clock := by
  cases op <;> first | exact ⟨_, _, rfl⟩ | exact absurd trivial h

/-- The names given to `hbm_history_add` and `hbm_history_set_limit` fit in
`OBJECTLEN`, as channel names do. -/
def Op.NameFits (n : Nat) : Op → Prop
  | .add object _ _ _ | .setLimit object _ _ _ => object.length ≤ n
  | _ => True

/-- A property of states that holds at the start and that every allowed step
keeps holds in every reachable state. -/
theorem Reachable.induct' {ok : Op → Prop} {P : Sys → Prop}
    (hinit : ∀ s : Sys, s.table = Table.empty → P s)
    (hstep : ∀ s s' op, P s → ok op → step H s op = some s' → P s') {s : Sys}
    (hr : Reachable H ok s) : P s := by
  induction hr with
  | init s hs => exact hinit s hs
  | tail _ hop hst ih => exact hstep _ _ _ ih hop hst

/-- The end of a run of allowed operations from a reachable state is
reachable. -/
theorem Reachable.of_run {ok : Op → Prop} {s s' : Sys} :
    ∀ {ops : List Op}, Reachable H ok s → (∀ op ∈ ops, ok op) → run H s ops = some s' →
      Reachable H ok s'
  | [], hs, _, hrun => by cases hrun; exact hs
  | op :: ops, hs, hops, hrun => by
    obtain ⟨s₁, h₁, hrun⟩ := Option.bind_eq_some.mp hrun
    exact Reachable.of_run (.tail hs (hops op (List.mem_cons_self _ _)) h₁)
      (fun o ho => hops o (List.mem_cons_of_mem _ ho)) hrun

/-- The end of a run of allowed operations from a start that does not fault is
reachable. -/
theorem Reachable.after {ok : Op → Prop} {s : Sys} {ops : List Op} (hs : Reachable H ok s)
    (hops : ∀ op ∈ ops, ok op) (h : (run H s ops).isSome) :
    Reachable H ok (HistoryBackendMem.after H s ops) :=
  Reachable.of_run H hs hops (run_after H h)

/-- A run allowed by `ok` is allowed by any weaker `ok'`. -/
theorem Reachable.mono {ok ok' : Op → Prop} (hok : ∀ op, ok op → ok' op) {s : Sys}
    (hr : Reachable H ok s) : Reachable H ok' s := by
  induction hr with
  | init s hs => exact .init s hs
  | tail _ hop hst ih => exact .tail ih (hok _ hop) hst

/-! ## A sample run -/

/-- A live record with persistence on: the default directory, a secret and
both salts. -/
def CfgStruct.sample : CfgStruct :=
  ⟨true, some "history", some "history/master.db", some "secret", some "pre", some "post"⟩

/-- The run the examples start from, on the sample host: `#a` has `+P`, gets a
limit of two lines and then one line. -/
def sampleRun : Sys :=
  after Host.sample (Sys.init CfgStruct.sample CfgStruct.zero (fun _ => none)
    fun c => decide (c = foldCase "#a"))
    [.setLimit "#a" 2 86400 0, .add "#a" [timeTag "100"] "hello" "x"]

theorem sampleRun_reachable :
    Reachable Host.sample (fun op => op.HostOk ∧ op.NoLoad ∧ op.NameFits 32) sampleRun :=
  Reachable.after _ (.init _ rfl)
    (by simp [Op.HostOk, Op.NoLoad, Op.NameFits, TagsNamed, timeTag]; decide) (by decide)

/-- The log of `#a` in the sample run. -/
def sampleLog : HistoryLogObject :=
  (hbmFindObject Host.sample sampleRun.table "#a").getD (.new "#a")

end HistoryBackendMem
