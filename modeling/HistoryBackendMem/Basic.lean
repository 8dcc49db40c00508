import Mathlib.Data.List.Basic

/-!
# history_backend_mem — the data model

The records of `src/modules/history_backend_mem.c`, as the C code lays them out:
a `HistoryLogLine` is a heap node with `prev`/`next` pointers, a
`HistoryLogObject` holds the `head`/`tail` of its chain of lines together with
the cached counters `num_lines` and `oldest_t`, its two limits and its `dirty`
flag.

Pointers are addresses (`Nat`, `none` is `NULL`). Every object owns the lines
it allocated: `lines` is that part of the C heap, and `nextAddr` is the
allocator's high-water mark, so that `safe_alloc` returns an address no live
line uses. C `int`, `long` and `time_t` fields are `Int`: the invariants below
keep `num_lines` between `0` and `max_lines`, so none of them overflows.

The functions the module calls but does not define (the host's
`server_time_to_unix_time`, `siphash` with the per-process key, `sha256hash`,
`config_checkval`, `convert_to_absolute_path`, `unrealdb_test_secret`, and the
`OBJECTLEN` bound built from the host's `NICKLEN`/`CHANNELLEN`) are the fields
of `Host`, a parameter of the whole development. What the host's file and
database calls return is an input of the step that makes them.
-/

namespace HistoryBackendMem

/-! ## Constants -/

/-- `HISTORY_BACKEND_MEM_HASH_TABLE_SIZE`. -/
def hashTableSize : Nat := 1019

/-- `HISTORY_SPREAD` (release build). -/
def historySpread : Nat := 60

/-- `HISTORY_CLEAN_PER_LOOP = HISTORY_BACKEND_MEM_HASH_TABLE_SIZE/HISTORY_SPREAD`,
integer division as in C: `16`. -/
def historyCleanPerLoop : Nat := hashTableSize / historySpread

/-- `HISTORYDB_MAGIC_FILE_START`. -/
def magicFileStart : Nat := 0xFEFEFEFE

/-- `HISTORYDB_MAGIC_FILE_END`. -/
def magicFileEnd : Nat := 0xEFEFEFEF

/-- `HISTORYDB_MAGIC_ENTRY_START`. -/
def magicEntryStart : Nat := 0xFFFFFFFF

/-- `HISTORYDB_MAGIC_ENTRY_END`. -/
def magicEntryEnd : Nat := 0xEEEEEEEE

/-! ## The host -/

/-- The host functions and build constants the module uses but does not define. -/
structure Host where
  /-- `server_time_to_unix_time`, applied to a `time` tag's (possibly NULL) value. -/
  serverTimeToUnixTime : Option String → Int
  /-- `siphash` with the per-process key `siphashkey_history_backend_mem`, over
  the bytes of a string. -/
  siphash : List Char → Nat
  /-- `OBJECTLEN`, the size of `HistoryLogObject.name` minus its NUL. -/
  objectLen : Nat
  /-- `sha256hash`, hex-encoded. -/
  sha256hash : String → String
  /-- `config_checkval(value, CFG_YESNO)`. -/
  checkvalYesNo : String → Bool
  /-- `convert_to_absolute_path(&path, PERMDATADIR)`. -/
  absolutePath : String → String
  /-- `unrealdb_test_secret(secret)`: why the secret is unusable, or NULL. -/
  testSecret : Option String → Option String

/-- ASCII case folding, as `tolower` in the C locale does it. -/
def foldCase (s : String) : List Char := s.data.map Char.toLower

/-- `!strcasecmp(a, b)`. -/
def strcasecmp (a b : String) : Bool := foldCase a == foldCase b

/-- `siphash_nocase(s, key)`: `siphash` of the bytes of `s` passed through
`tolower`, so names equal under `strcasecmp` hash alike. -/
def Host.siphashNocase (H : Host) (s : String) : Nat := H.siphash (foldCase s)

theorem strcasecmp_iff {a b : String} : strcasecmp a b = true ↔ foldCase a = foldCase b := by
  simp [strcasecmp]

/-- Decimal digits read as a number of seconds. -/
def decimalSeconds (cs : List Char) : Int :=
  cs.foldl (fun n c => 10 * n + ((c.toNat : Int) - 48)) 0

/-- A host to run the model on: a `time` tag's value is read as decimal
seconds (a NULL one gives `0`, as a malformed one does), every name hashes to
bucket `0`, `OBJECTLEN` is `32`, `sha256hash` is the identity, `yes` is the
only true value, paths are already absolute, and every secret is usable. -/
def Host.sample : Host where
  serverTimeToUnixTime v := decimalSeconds (v.getD "").data
  siphash _ := 0
  objectLen := 32
  sha256hash s := s
  checkvalYesNo s := decide (s = "yes")
  absolutePath s := s
  testSecret _ := none

/-! ## Records -/

/-- A message tag (`MessageTag`): a name and a value, either of which may be
NULL (the host never passes a NULL name; `hbm_read_db` may store one). -/
structure MessageTag where
  name : Option String
  value : Option String
deriving DecidableEq, Repr

/-- What a stored line carries, without its links: the time `t`, the tags and
the text. This is the unit the abstract logs below are sequences of. -/
structure Entry where
  t : Int
  mtags : List MessageTag
  line : String
deriving DecidableEq, Repr

/-- `HistoryLogLine`: one node of a log's doubly-linked chain. -/
structure HistoryLogLine where
  prev : Option Nat
  next : Option Nat
  t : Int
  mtags : List MessageTag
  line : String
deriving DecidableEq, Repr

/-- The entry a node holds. -/
def HistoryLogLine.entry (l : HistoryLogLine) : Entry := ⟨l.t, l.mtags, l.line⟩

/-- The node holding `e`, linked back to `pv` and forward to `nx`. -/
def HistoryLogLine.ofEntry (pv nx : Option Nat) (e : Entry) : HistoryLogLine :=
  ⟨pv, nx, e.t, e.mtags, e.line⟩

@[simp] theorem HistoryLogLine.entry_ofEntry (pv nx : Option Nat) (e : Entry) :
    (HistoryLogLine.ofEntry pv nx e).entry = e := rfl

@[simp] theorem HistoryLogLine.ofEntry_next (pv nx : Option Nat) (e : Entry) :
    (HistoryLogLine.ofEntry pv nx e).next = nx := rfl

@[simp] theorem HistoryLogLine.ofEntry_prev (pv nx : Option Nat) (e : Entry) :
    (HistoryLogLine.ofEntry pv nx e).prev = pv := rfl

@[simp] theorem HistoryLogLine.ofEntry_t (pv nx : Option Nat) (e : Entry) :
    (HistoryLogLine.ofEntry pv nx e).t = e.t := rfl

/-- The lines a log has allocated, by address. -/
abbrev Heap := Nat → Option HistoryLogLine

/-- `HistoryLogObject`, without its `prev`/`next` links in the bucket chain
(the chains are lists, see `Store`). -/
structure HistoryLogObject where
  head : Option Nat
  tail : Option Nat
  numLines : Int
  oldestT : Int
  maxLines : Int
  maxTime : Int
  dirty : Bool
  name : String
  lines : Heap
  nextAddr : Nat

/-- The object `safe_alloc` returns in `hbm_find_or_add_object`: all zero, with
the name copied in. -/
def HistoryLogObject.new (name : String) : HistoryLogObject :=
  ⟨none, none, 0, 0, 0, 0, false, name, fun _ => none, 0⟩

end HistoryBackendMem
