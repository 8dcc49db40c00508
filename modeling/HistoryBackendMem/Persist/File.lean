import HistoryBackendMem.Config.Hooks

/-!
# Persist — the per-object files

`hbm_history_filename` names an object's file after the salts of `master.db`
and its lower-cased name; `hbm_write_db` writes the values of `Persist.Codec`
into `<file>.tmp` and renames it over the file; `hbm_delete_db` unlinks it.
The callers with a disk side are here as well: `hbm_modechar_del`,
`hbm_history_destroy` (through `hbm_delete_object_hlo`) and the loop of
`hbm_read_dbs` over the files of the directory.

A write's failures are an input, `WriteIO`: where the sequence of
`unrealdb_*` calls stops. Which channels exist with mode `+P` is the host's
state, `chanP`, looked up under the case folding `find_channel` applies.
-/

namespace HistoryBackendMem

variable (H : Host)

/-! ## File names -/

/-- `strtolower_safe(dst, src, size)`: `src` in lower case, at most `size - 1`
characters. -/
def strtolowerSafe (s : String) (size : Nat) : String :=
  ⟨(s.data.map Char.toLower).take (size - 1)⟩

/-- `hbm_history_filename(h)` for an object named `name`:
`<directory>/<sha256 of "prehash name posthash">.db`. NULL salts are the
`abort()`. -/
def hbmHistoryFilename (cfg : CfgStruct) (name : String) : Option String :=
  match cfg.prehash, cfg.posthash with
  | some pre, some post =>
    let oname := strtolowerSafe name (H.objectLen + 1)
    let hashdata := snprintf 512 (pre ++ " " ++ oname ++ " " ++ post)
    some (snprintf 512 (showStr cfg.directory ++ "/" ++ H.sha256hash hashdata ++ ".db"))
  | _, _ => none

/-- The temporary file `hbm_write_db` writes first: `"%s.tmp"`. -/
def tmpFilename (real : String) : String := snprintf 512 (real ++ ".tmp")

/-! ## `hbm_write_db` and `hbm_delete_db` -/

/-- Where `hbm_write_db`'s calls stop: `unrealdb_open` fails, the write of
value `k` fails (`W_SAFE`), `unrealdb_close` fails, `rename` fails, or all go
through. -/
inductive WriteIO where
  | openFails
  | writeFails (k : Nat)
  | closeFails
  | renameFails
  | ok
deriving DecidableEq, Repr

/-- `hbm_write_db(h)`: its return value, the object (clean after a complete
write) and the files. A NULL `db_secret` is the `abort()`; a channel that does
not exist or lacks `+P` is skipped with `1`, `dirty` left as it is. The lines
are walked from `head`, a chain that does not end being a fault. -/
def hbmWriteDb (cfg : CfgStruct) (chanP : List Char → Bool) (io : WriteIO) (disk : Disk)
    (h : HistoryLogObject) : Option (Int × HistoryLogObject × Disk) :=
  cfg.dbSecret.bind fun _ =>
    if chanP (foldCase h.name) then
      (hbmHistoryFilename H cfg h.name).bind fun real =>
        h.chain.map fun cells =>
          let vals := hbmWriteDbValues cfg.prehash cfg.posthash h (cells.map Prod.snd)
          let tmp := tmpFilename real
          match io with
          | .openFails => (0, h, disk)
          | .writeFails k => (0, h, Function.update disk tmp (some (vals.take k)))
          | .closeFails | .renameFails => (0, h, Function.update disk tmp (some vals))
          | .ok =>
            (1, { h with dirty := false },
              Function.update (Function.update disk tmp none) real (some vals))
    else some (1, h, disk)

/-- **A complete write**: with `db_secret` set, `+P` on the channel, both salts
set and a chain that ends, `hbm_write_db` returns `1`, the object is clean,
the temporary file is gone and the object's file holds the values of
`hbmWriteDbValues` for its lines. -/
theorem hbmWriteDb_ok {cfg : CfgStruct} {chanP : List Char → Bool} {disk : Disk}
    {h : HistoryLogObject} {secret pre post : String} {cells : List (Nat × Entry)}
    (hsec : cfg.dbSecret = some secret) (hP : chanP (foldCase h.name) = true)
    (hpre : cfg.prehash = some pre) (hpost : cfg.posthash = some post) (hc : h.chain = some cells) :
    ∃ real, hbmHistoryFilename H cfg h.name = some real ∧
      hbmWriteDb H cfg chanP .ok disk h = some (1, { h with dirty := false },
        Function.update (Function.update disk (tmpFilename real) none) real
          (some (hbmWriteDbValues (some pre) (some post) h (cells.map Prod.snd)))) := by
  obtain ⟨real, hreal⟩ : ∃ real, hbmHistoryFilename H cfg h.name = some real := by
    simp [hbmHistoryFilename, hpre, hpost]
  refine ⟨real, hreal, ?_⟩
  simp [hbmWriteDb, hsec, hP, hc, hreal, hpre, hpost]

/-- `hbm_write_db` changes nothing of the object but, on success, `dirty`. -/
theorem hbmWriteDb_object {cfg : CfgStruct} {chanP : List Char → Bool} {io : WriteIO}
    {disk d : Disk} {h h' : HistoryLogObject} {r : Int}
    (hw : hbmWriteDb H cfg chanP io disk h = some (r, h', d)) :
    h' = h ∨ h' = { h with dirty := false } := by
  unfold hbmWriteDb at hw
  obtain ⟨_, -, hw⟩ := Option.bind_eq_some.mp hw
  split at hw
  · obtain ⟨real, -, hw⟩ := Option.bind_eq_some.mp hw
    obtain ⟨cells, -, hw⟩ := Option.map_eq_some'.mp hw
    split at hw <;> cases hw <;> simp
  · cases hw; exact .inl rfl

/-- `hbm_delete_db(h)` (release build): nothing unless `persist` is on and
both salts are set; then the object's file is unlinked. -/
def hbmDeleteDb (cfg : CfgStruct) (disk : Disk) (name : String) : Option Disk :=
  if cfg.persist ∧ cfg.prehash.isSome ∧ cfg.posthash.isSome then
    (hbmHistoryFilename H cfg name).map fun f => Function.update disk f none
  else some disk

/-- `hbm_delete_db` never faults: it reaches `hbm_history_filename` only with
both salts set. -/
theorem hbmDeleteDb_isSome (cfg : CfgStruct) (disk : Disk) (name : String) :
    (hbmDeleteDb H cfg disk name).isSome := by
  unfold hbmDeleteDb
  split
  · rename_i h
    obtain ⟨pre, hp⟩ := Option.isSome_iff_exists.mp h.2.1
    obtain ⟨post, hq⟩ := Option.isSome_iff_exists.mp h.2.2
    simp [hbmHistoryFilename, hp, hq]
  · rfl

/-! ## The callers -/

/-- `hbm_modechar_del(channel, modechar)`: when `persist` is on and a channel
with a log loses `+P`, the file is deleted and the log marked dirty. -/
def hbmModecharDel (cfg : CfgStruct) (tb : Table) (disk : Disk) (chname : String)
    (modechar : Char) : Option (Table × Disk) :=
  if cfg.persist ∧ modechar = 'P' then
    match hbmFindObject H tb chname with
    | none => some (tb, disk)
    | some h =>
      (hbmDeleteDb H cfg disk h.name).map fun d =>
        (modifyObject H tb chname fun h => { h with dirty := true }, d)
  else some (tb, disk)

/-- What `hbm_modechar_del` does to the table: nothing, or it marks the
object of the channel dirty. -/
theorem hbmModecharDel_table {cfg : CfgStruct} {tb tb' : Table} {disk d : Disk} {chname : String}
    {modechar : Char} (h : hbmModecharDel H cfg tb disk chname modechar = some (tb', d)) :
    tb' = tb ∨ tb' = modifyObject H tb chname fun h => { h with dirty := true } := by
  unfold hbmModecharDel at h
  split at h
  · split at h
    · cases h; exact .inl rfl
    · obtain ⟨d, -, h⟩ := Option.map_eq_some'.mp h
      cases h; exact .inr rfl
  · cases h; exact .inl rfl

/-- `hbm_history_destroy(object)`: `0` when nothing matches; otherwise the
lines are freed and `hbm_delete_object_hlo` deletes the file (with `persist`
on) and unlinks the object from the bucket of `hbm_hash(h->name)`. -/
def hbmHistoryDestroy (cfg : CfgStruct) (tb : Table) (disk : Disk) (object : String) :
    Option (Int × Table × Disk) :=
  let b := hbmHash H object
  match (tb b).findIdx? fun h => strcasecmp object h.name with
  | none => some (0, tb, disk)
  | some i =>
    match (tb b)[i]? with
    | none => none
    | some h =>
      (if cfg.persist then hbmDeleteDb H cfg disk h.name else some disk).bind fun d =>
        (delListItem tb b i (hbmHash H h.name)).map fun tb' => (1, tb', d)

/-- **What `hbm_history_destroy` does**: nothing, with `0`, when no object
matches; otherwise `1`, the first match leaves its bucket (the bucket of its
own name is the same one) and its file is deleted when `persist` is on. -/
theorem hbmHistoryDestroy_eq {cfg : CfgStruct} {tb tb' : Table} {disk d : Disk} {object : String}
    {r : Int} (h : hbmHistoryDestroy H cfg tb disk object = some (r, tb', d)) :
    (hbmFindObject H tb object = none ∧ r = 0 ∧ tb' = tb ∧ d = disk) ∨
    (∃ i g, (tb (hbmHash H object)).findIdx? (fun x => strcasecmp object x.name) = some i ∧
      (tb (hbmHash H object))[i]? = some g ∧ r = 1 ∧
      tb' = Function.update tb (hbmHash H object) ((tb (hbmHash H object)).eraseIdx i) ∧
      (if cfg.persist then hbmDeleteDb H cfg disk g.name else some disk) = some d) := by
  dsimp only [hbmHistoryDestroy] at h
  cases hi : (tb (hbmHash H object)).findIdx? (fun x => strcasecmp object x.name) with
  | none =>
    simp only [hi, Option.some.injEq, Prod.mk.injEq] at h
    obtain ⟨rfl, rfl, rfl⟩ := h
    exact .inl ⟨by rw [hbmFindObject_eq, hi]; rfl, rfl, rfl, rfl⟩
  | some i =>
    simp only [hi] at h
    cases hg : (tb (hbmHash H object))[i]? with
    | none => simp [hg] at h
    | some g =>
      simp only [hg] at h
      obtain ⟨d', hd, h⟩ := Option.bind_eq_some.mp h
      obtain ⟨tb'', hdel, hr⟩ := Option.map_eq_some'.mp h
      cases hr
      have hmatch : strcasecmp object g.name = true := by
        obtain ⟨hlt, hget⟩ := List.getElem?_eq_some_iff.mp hg
        have := (List.findIdx?_eq_some_iff_getElem.mp hi).2.1
        rwa [hget] at this
      rw [delListItem, if_pos (hbmHash_eq H hmatch).symm] at hdel
      cases hdel
      exact .inr ⟨i, g, rfl, hg, rfl, rfl, hd⟩

/-- `hbm_history_destroy` never faults: the object it finds is at a valid
position, and it is unlinked from its own bucket. -/
theorem hbmHistoryDestroy_isSome (cfg : CfgStruct) (tb : Table) (disk : Disk) (object : String) :
    (hbmHistoryDestroy H cfg tb disk object).isSome := by
  dsimp only [hbmHistoryDestroy]
  cases hi : (tb (hbmHash H object)).findIdx? (fun x => strcasecmp object x.name) with
  | none => rfl
  | some i =>
    obtain ⟨hlt, hmatch, -⟩ := List.findIdx?_eq_some_iff_getElem.mp hi
    obtain ⟨d, hd⟩ : ∃ d, (if cfg.persist then hbmDeleteDb H cfg disk (tb (hbmHash H object))[i].name
        else some disk) = some d := by
      split
      · exact Option.isSome_iff_exists.mp (hbmDeleteDb_isSome H cfg disk _)
      · exact ⟨_, rfl⟩
    simp only [List.getElem?_eq_getElem hlt, hd, Option.some_bind, delListItem,
      if_pos (hbmHash_eq H hmatch).symm, Option.map_some', Option.isSome_some]

/-- One file `fname` of the directory in `hbm_read_dbs`: a `.db` file other
than `master.db` goes through `hbm_read_db`; one it refuses is moved to
`<directory>/bad/`. The clock gives the wall clock of each entry read. -/
def hbmReadDbsFile (cfg : CfgStruct) (clock : Nat → String) (tb : Table) (disk : Disk)
    (fname : String) : Option (Table × Disk) :=
  let path := snprintf 512 (showStr cfg.directory ++ "/" ++ fname)
  if fname.endsWith ".db" ∧ fname ≠ "master.db" then
    (hbmReadDb H clock cfg.prehash cfg.posthash tb (disk path)).map fun r =>
      let disk := if r.unlink then Function.update disk path none else disk
      if r.ret = 0 then
        let bad := snprintf 512 (showStr cfg.directory ++ "/bad/" ++ fname)
        (r.table, Function.update (Function.update disk bad (disk path)) path none)
      else (r.table, disk)
  else some (tb, disk)

end HistoryBackendMem
