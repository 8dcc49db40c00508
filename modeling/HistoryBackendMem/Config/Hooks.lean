import HistoryBackendMem.Persist.Codec

/-!
# Config — `set::history::channel` and `master.db`

The module keeps two `struct cfgstruct` records: `test`, filled by the
config-test hook while a configuration is checked, and `cfg`, the live one,
filled by the config-run hook. `hbm_config_posttest` judges the test record,
reads `master.db` (into `cfg`, not `test`) and resets `test` with
`freecfg`/`setcfg`; the `REHASH` hook `hbm_rehash` resets `cfg` the same way.

Neither reset touches `persist`, and nothing but `hbm_read_masterdb` and
`hbm_write_masterdb` ever sets `prehash`/`posthash`: the two facts behind
`hbmConfigPosttest_persist` and `rehashRound_salts`.

The file and database calls of the host are inputs: the files (`Disk`, each
file the values written into it) and, for what a file's contents do not
decide, the answers in `PosttestIO`.
-/

namespace HistoryBackendMem

variable (H : Host)

/-! ## Files and records -/

/-- The files the module reads and writes, each as the values of the DB
primitive it holds (its plaintext). -/
abbrev Disk := String → Option (List DbValue)

/-- `snprintf(buf, n, ...)` of the text `s`: at most `n - 1` characters. -/
def snprintf (n : Nat) (s : String) : String := ⟨s.data.take (n - 1)⟩

/-- `struct cfgstruct`; `NULL` pointers are `none`. -/
structure CfgStruct where
  persist : Bool
  directory : Option String
  masterdb : Option String
  dbSecret : Option String
  prehash : Option String
  posthash : Option String
deriving DecidableEq, Repr

/-- `memset(&cfg, 0, sizeof(cfg))` in `MOD_TEST`. -/
def CfgStruct.zero : CfgStruct := ⟨false, none, none, none, none, none⟩

/-- `hbm_set_masterdb_filename(cfg)`: `<directory>/master.db`, or NULL. -/
def hbmSetMasterdbFilename (c : CfgStruct) : CfgStruct :=
  { c with masterdb := c.directory.map fun d => snprintf 512 (d ++ "/master.db") }

/-- `setcfg(cfg)`: the default directory and its `master.db`. -/
def setcfg (c : CfgStruct) : CfgStruct :=
  hbmSetMasterdbFilename { c with directory := some (H.absolutePath "history") }

/-- `freecfg(cfg)`: the four strings it frees. `persist` and `masterdb` stay. -/
def freecfg (c : CfgStruct) : CfgStruct :=
  { c with directory := none, dbSecret := none, prehash := none, posthash := none }

section Fields
variable (c : CfgStruct)

@[simp] theorem setcfg_persist : (setcfg H c).persist = c.persist := rfl
@[simp] theorem setcfg_prehash : (setcfg H c).prehash = c.prehash := rfl
@[simp] theorem setcfg_posthash : (setcfg H c).posthash = c.posthash := rfl
@[simp] theorem setcfg_dbSecret : (setcfg H c).dbSecret = c.dbSecret := rfl
@[simp] theorem freecfg_persist : (freecfg c).persist = c.persist := rfl
@[simp] theorem freecfg_prehash : (freecfg c).prehash = none := rfl
@[simp] theorem freecfg_posthash : (freecfg c).posthash = none := rfl
@[simp] theorem freecfg_dbSecret : (freecfg c).dbSecret = none := rfl

end Fields

/-! ## The hooks -/

/-- A `ConfigEntry` of a `set::history::channel` block: its name and value
(either may be NULL), and where it was read. -/
structure ConfigEntry where
  varname : Option String
  vardata : Option String
  file : String
  line : Nat
deriving DecidableEq, Repr

/-- The block a hook is called for: `CONFIG_SET_HISTORY_CHANNEL` or another. -/
inductive ConfigType where
  | setHistoryChannel
  | other
deriving DecidableEq, Repr

/-- `config_error` and `config_warn`. -/
inductive ConfigMsg where
  | error (text : String)
  | warn (text : String)
deriving DecidableEq, Repr

/-- `"%s:%i: missing parameter"`. -/
def missingParameter (ce : ConfigEntry) : ConfigMsg :=
  .error (ce.file ++ ":" ++ toString ce.line ++ ": missing parameter")

/-- `hbm_config_test(cf, ce, type, errs)`: its return value (`0` not ours, `1`
fine, `-1` with one error), the test record and the messages. -/
def hbmConfigTest (test : CfgStruct) (type : ConfigType) (ce : ConfigEntry) :
    Int × CfgStruct × List ConfigMsg :=
  match type, ce.varname with
  | .setHistoryChannel, some v =>
    if v = "persist" then
      match ce.vardata with
      | none => (-1, test, [missingParameter ce])
      | some d => (1, { test with persist := H.checkvalYesNo d }, [])
    else if v = "db-secret" then
      let test := { test with dbSecret := ce.vardata }
      match H.testSecret ce.vardata with
      | some err =>
        (-1, test, [.error (ce.file ++ ":" ++ toString ce.line ++
          ": set::history::channel::db-secret: " ++ err)])
      | none => (1, test, [])
    else if v = "directory" then
      match ce.vardata with
      | none => (-1, test, [missingParameter ce])
      | some d => (1, hbmSetMasterdbFilename { test with directory := some d }, [])
    else (0, test, [])
  | _, _ => (0, test, [])

/-- Only a `persist` entry changes `persist`. -/
theorem hbmConfigTest_persist {test : CfgStruct} {type : ConfigType} {ce : ConfigEntry}
    (h : ce.varname ≠ some "persist") : (hbmConfigTest H test type ce).2.1.persist = test.persist := by
  unfold hbmConfigTest
  split
  · rename_i v hv
    rw [if_neg fun (hp : v = "persist") => h (hp ▸ hv)]
    split
    · split <;> rfl
    · split
      · split <;> rfl
      · rfl
  · rfl

/-- `hbm_config_run(cf, ce, type)` on the live record: `1` for ours, `0`
otherwise; `config_checkval` of a NULL `persist` value is a fault. -/
def hbmConfigRun (cfg : CfgStruct) (type : ConfigType) (ce : ConfigEntry) :
    Option (Int × CfgStruct) :=
  match type, ce.varname with
  | .setHistoryChannel, some v =>
    if v = "persist" then
      ce.vardata.map fun d => (1, { cfg with persist := H.checkvalYesNo d })
    else if v = "directory" then
      some (1, hbmSetMasterdbFilename { cfg with directory := ce.vardata.map H.absolutePath })
    else if v = "db-secret" then some (1, { cfg with dbSecret := ce.vardata })
    else some (0, cfg)
  | _, _ => some (0, cfg)

/-- `hbm_rehash()`: `freecfg(&cfg); setcfg(&cfg);`. -/
def hbmRehash (cfg : CfgStruct) : CfgStruct := setcfg H (freecfg cfg)

/-! ## `master.db` -/

/-- How `hbm_write_masterdb` fares with the file: `unrealdb_open` fails, the
write of value `k` fails (the file, left open, holds the values before it), or
all goes through. -/
inductive MasterWrite where
  | openFails
  | writeFails (k : Nat)
  | ok
deriving DecidableEq, Repr

/-- What the host's file and database calls answer during
`hbm_config_posttest`, beyond the files' contents. -/
structure PosttestIO where
  /-- `unrealdb_test_db(test.masterdb, test.db_secret)`: an error text or NULL. -/
  testDb : Option String
  /-- `file_exists(test.directory)` after the `mkdir`. -/
  dirExists : Bool
  /-- The error `unrealdb_open` meets on an existing `master.db` (a wrong
  secret, a damaged file), or NULL. -/
  openError : Option String
  /-- How `hbm_write_masterdb` fares. -/
  masterWrite : MasterWrite
  /-- The two strings `gen_random_alnum(buf, 128)` makes. -/
  random : String × String
  /-- `unrealdb_get_error_string()` after a failed call. -/
  errorString : String

/-- The text `printf` makes of a `%s` argument. -/
def showStr (s : Option String) : String := s.getD "(null)"

/-- The values of `master.db`: version 5000 and the salts of `cfg`. -/
def masterdbValues (cfg : CfgStruct) : List DbValue := [.int32 5000, .str cfg.prehash, .str cfg.posthash]

/-- `hbm_write_masterdb()` at path `path`: version 5000 and the salts of `cfg`,
each made up first if NULL once the file is open. A NULL `test.db_secret` is
the `abort()`. -/
def hbmWriteMasterdb (test cfg : CfgStruct) (path : String) (disk : Disk) (io : PosttestIO) :
    Option (Bool × CfgStruct × Disk × List ConfigMsg) :=
  test.dbSecret.map fun _ =>
    let failed := [ConfigMsg.error ("[history] Unable to write to \x27" ++ path ++ "\x27: " ++
      io.errorString)]
    let salted := { cfg with prehash := cfg.prehash <|> some io.random.1,
                             posthash := cfg.posthash <|> some io.random.2 }
    match io.masterWrite with
    | .openFails => (false, cfg, disk, failed)
    | .writeFails k =>
      (false, salted, Function.update disk path (some ((masterdbValues salted).take k)), failed)
    | .ok => (true, salted, Function.update disk path (some (masterdbValues salted)), [])

/-- The reads of `hbm_read_masterdb` once the file is open: `cfg.prehash` and
`cfg.posthash` are freed, then the version and the two salts are read into
them. The record with the salts read so far, and whether all three reads
went through. -/
def readMasterValues (cfg : CfgStruct) : List DbValue → CfgStruct × Bool
  | .int32 _ :: .str pre :: .str post :: _ => ({ cfg with prehash := pre, posthash := post }, true)
  | .int32 _ :: .str pre :: _ => ({ cfg with prehash := pre, posthash := none }, false)
  | _ => ({ cfg with prehash := none, posthash := none }, false)

/-- `hbm_read_masterdb()`: `master.db` at `test.masterdb` is read into the
salts of `cfg`; when there is no such file one is written. Whether it
succeeded, the live record, the files and the messages. -/
def hbmReadMasterdb (test cfg : CfgStruct) (disk : Disk) (io : PosttestIO) :
    Option (Bool × CfgStruct × Disk × List ConfigMsg) :=
  test.masterdb.bind fun path =>
    match disk path with
    | none =>
      (hbmWriteMasterdb test cfg path disk io).map fun r =>
        (r.1, r.2.1, r.2.2.1, .warn ("[history] No database present at \x27" ++
          showStr cfg.masterdb ++ "\x27, will start a new one") :: r.2.2.2)
    | some vals =>
      match io.openError with
      | some err =>
        some (false, cfg, disk, [.warn ("[history] Unable to open the database file \x27" ++
          showStr cfg.masterdb ++ "\x27 for reading: " ++ err)])
      | none =>
        let r := readMasterValues cfg vals
        some (r.2, r.1, disk, if r.2 then [] else
          [.error ("[history] Read error from database file \x27" ++ showStr cfg.masterdb ++
            "\x27: " ++ io.errorString)])

/-! ## `hbm_config_posttest` -/

/-- `"set::history::channel::db-secret is set but ... persist is disabled"`. -/
def msgSecretWithoutPersist : ConfigMsg :=
  .error ("set::history::channel::db-secret is set but set::history::channel::persist is " ++
    "disabled, this makes no sense. Either use \x27persist yes\x27 or comment out / delete " ++
    "\x27db-secret\x27.")

/-- `"set::history::channel::db-secret needs to be set."`. -/
def msgSecretNeeded : ConfigMsg := .error "set::history::channel::db-secret needs to be set."

/-- What `hbm_config_posttest` returns and leaves: `ret`, the test record, the
live record, the files and the messages. -/
structure Posttest where
  ret : Int
  test : CfgStruct
  cfg : CfgStruct
  disk : Disk
  msgs : List ConfigMsg

/-- The checks of `hbm_config_posttest` before the reset of `test`: the error
count, the live record, the files and the messages. -/
def posttestChecks (test cfg : CfgStruct) (disk : Disk) (io : PosttestIO) :
    Option (Nat × CfgStruct × Disk × List ConfigMsg) :=
  match test.dbSecret, test.persist with
  | some _, false => some (1, cfg, disk, [msgSecretWithoutPersist])
  | none, true => some (1, cfg, disk, [msgSecretNeeded])
  | some _, true =>
    match test.masterdb, io.testDb with
    | some _, some err => some (1, cfg, disk, [.error ("[history] " ++ err)])
    | _, _ =>
      if io.dirExists then
        (hbmReadMasterdb test cfg disk io).map fun r =>
          (if r.1 then 0 else 1, r.2.1, r.2.2.1, r.2.2.2)
      else
        some (1, cfg, disk, [.error ("[history] Directory " ++ showStr test.directory ++
          " does not exist and could not be created")])
  | none, false => some (0, cfg, disk, [])

/-- `hbm_config_posttest(errs)`; `none` when it faults. -/
def hbmConfigPosttest (test cfg : CfgStruct) (disk : Disk) (io : PosttestIO) :
    Option Posttest :=
  (posttestChecks test cfg disk io).map fun r =>
    ⟨if r.1 = 0 then 1 else -1, setcfg H (freecfg test), r.2.1, r.2.2.1, r.2.2.2⟩

/-- **The post-test never resets `persist`**: the test record it leaves has
the `persist` it was given, whatever the round's entries were. -/
theorem hbmConfigPosttest_persist {test cfg : CfgStruct} {disk : Disk} {io : PosttestIO}
    {r : Posttest} (h : hbmConfigPosttest H test cfg disk io = some r) :
    r.test.persist = test.persist := by
  obtain ⟨_, -, rfl⟩ := Option.map_eq_some'.mp h
  rfl

/-- The consistency verdict among messages: those about `db-secret` and
`persist`. -/
def consistencyVerdict (msgs : List ConfigMsg) : List ConfigMsg :=
  msgs.filter fun m => m = msgSecretWithoutPersist ∨ m = msgSecretNeeded

/-! ## Rounds -/

/-- One config-test hook call within a round: the test record, whether a call
failed so far, and the messages so far. -/
def configTestStep (acc : CfgStruct × Bool × List ConfigMsg) (ce : ConfigEntry) :
    CfgStruct × Bool × List ConfigMsg :=
  let r := hbmConfigTest H acc.1 .setHistoryChannel ce
  (r.2.1, acc.2.1 || decide (r.1 = -1), acc.2.2 ++ r.2.2)

/-- The config-test hooks on a round's `set::history::channel` entries, in
order: the test record they leave, whether one failed, and their messages. -/
def configTestRound (test : CfgStruct) (entries : List ConfigEntry) :
    CfgStruct × Bool × List ConfigMsg :=
  entries.foldl (configTestStep H) (test, false, [])

/-- **A round without a `persist` entry keeps the `persist` it starts with**:
the post-test of such a round judges the `persist` the round before left. -/
theorem configTestRound_persist {test : CfgStruct} {entries : List ConfigEntry}
    (hno : ∀ ce ∈ entries, ce.varname ≠ some "persist") :
    (configTestRound H test entries).1.persist = test.persist := by
  suffices ∀ (entries : List ConfigEntry) (acc : CfgStruct × Bool × List ConfigMsg),
      (∀ ce ∈ entries, ce.varname ≠ some "persist") →
      (entries.foldl (configTestStep H) acc).1.persist = acc.1.persist from
    this entries _ hno
  clear hno
  intro entries
  induction entries with
  | nil => intro _ _; rfl
  | cons ce rest ih =>
    intro acc hno
    rw [List.foldl_cons, ih _ fun c hc => hno c (List.mem_cons_of_mem _ hc)]
    exact hbmConfigTest_persist H (hno ce (List.mem_cons_self _ _))

/-- A configuration check: the test hooks, then the post-test. Whether it
failed, and the post-test's result with every message of the round. -/
def checkRound (test cfg : CfgStruct) (disk : Disk) (entries : List ConfigEntry)
    (io : PosttestIO) : Option (Bool × Posttest) :=
  let t := configTestRound H test entries
  (hbmConfigPosttest H t.1 cfg disk io).map fun r =>
    (t.2.1 || decide (r.ret = -1), { r with msgs := t.2.2 ++ r.msgs })

/-- The config-run hooks on a round's entries, in order. -/
def configRunRound (cfg : CfgStruct) : List ConfigEntry → Option CfgStruct
  | [] => some cfg
  | ce :: rest =>
    (hbmConfigRun H cfg .setHistoryChannel ce).bind fun r => configRunRound r.2 rest

/-- Boot: `MOD_TEST` zeroes both records and runs `setcfg(&test)`, the check
runs, `MOD_INIT` runs `setcfg(&cfg)`, then the run hooks. `none` when a hook
faults or the configuration is refused (the server does not start). The live
record, the test record and the files. -/
def bootRound (disk : Disk) (entries : List ConfigEntry) (io : PosttestIO) :
    Option (CfgStruct × CfgStruct × Disk) :=
  (checkRound H (setcfg H .zero) .zero disk entries io).bind fun r =>
    if r.1 then none
    else (configRunRound H (setcfg H r.2.cfg) entries).map fun cfg => (cfg, r.2.test, r.2.disk)

/-- A rehash, in the order the host runs a permanent module's hooks: the check,
then, when the configuration passes, the `REHASH` hook `hbm_rehash` and the run
hooks. A refused configuration keeps what the post-test did. -/
def rehashRound (cfg test : CfgStruct) (disk : Disk) (entries : List ConfigEntry)
    (io : PosttestIO) : Option (CfgStruct × CfgStruct × Disk) :=
  (checkRound H test cfg disk entries io).bind fun r =>
    if r.1 then some (r.2.cfg, r.2.test, r.2.disk)
    else (configRunRound H (hbmRehash H r.2.cfg) entries).map fun cfg =>
      (cfg, r.2.test, r.2.disk)

theorem hbmConfigRun_salts {cfg cfg' : CfgStruct} {type : ConfigType} {ce : ConfigEntry}
    {ret : Int} (h : hbmConfigRun H cfg type ce = some (ret, cfg')) :
    cfg'.prehash = cfg.prehash ∧ cfg'.posthash = cfg.posthash := by
  unfold hbmConfigRun at h
  split at h
  · split at h
    · obtain ⟨_, -, h⟩ := Option.map_eq_some'.mp h; cases h; exact ⟨rfl, rfl⟩
    · split at h <;> [skip; split at h] <;> cases h <;> exact ⟨rfl, rfl⟩
  · cases h; exact ⟨rfl, rfl⟩

/-- The run hooks never set the salts. -/
theorem configRunRound_salts {cfg cfg' : CfgStruct} :
    ∀ {entries : List ConfigEntry}, configRunRound H cfg entries = some cfg' →
      cfg'.prehash = cfg.prehash ∧ cfg'.posthash = cfg.posthash
  | [], h => by cases h; exact ⟨rfl, rfl⟩
  | ce :: rest, h => by
    obtain ⟨⟨ret, c⟩, hc, hr⟩ := Option.bind_eq_some.mp h
    obtain ⟨h₁, h₂⟩ := hbmConfigRun_salts H hc
    obtain ⟨h₃, h₄⟩ := configRunRound_salts hr
    exact ⟨h₃.trans h₁, h₄.trans h₂⟩

/-- **A rehash that passes leaves the live salts NULL**: the post-test reads
`master.db` into `cfg`, then `hbm_rehash` frees them and no run hook sets
them again. -/
theorem rehashRound_salts {cfg test cfg' test' : CfgStruct} {disk disk' : Disk}
    {entries : List ConfigEntry} {io : PosttestIO}
    (h : rehashRound H cfg test disk entries io = some (cfg', test', disk'))
    (hpass : ∃ r, checkRound H test cfg disk entries io = some (false, r)) :
    cfg'.prehash = none ∧ cfg'.posthash = none := by
  obtain ⟨r, hr⟩ := hpass
  simp only [rehashRound, hr, Option.some_bind, Bool.false_eq_true, if_false,
    Option.map_eq_some'] at h
  obtain ⟨c, hc, hce⟩ := h
  cases hce
  simpa [hbmRehash] using configRunRound_salts H hc

end HistoryBackendMem
