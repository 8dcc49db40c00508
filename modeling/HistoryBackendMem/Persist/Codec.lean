import HistoryBackendMem.Store.Invariant
import Mathlib.Logic.Relation

/-!
# Persist — the per-object file format

The DB primitive (`unrealdb_*`) is seen through the values it carries: a file
is the sequence of typed values written into it, and each read takes the next
value if it has the type asked for and fails otherwise.

`hbmWriteDbValues` is the sequence `hbm_write_db` writes for a log, and
`hbmReadDb` is `hbm_read_db` over such a sequence: the header checks, the
lookup of the object, and the loop over entry frames, each complete frame
handed to `hbm_history_add`. A read of a NULL where the C code dereferences it
(the object name in `hbm_find_object`, the line in `hbm_history_add_line`, a
tag name that `find_mtag` reaches, a salt in `strcmp`) is a fault, `none`.

`hbmReadDb_written` is the round trip: what `hbm_write_db` writes for a log
reads back, into an object of that name with an empty log, as the same
entries, with `ret` 1 and the object clean.
-/

namespace HistoryBackendMem

variable (H : Host)

/-- A value of the DB primitive: `unrealdb_write_int32`, `_int64` and `_str`
(whose string may be NULL). -/
inductive DbValue where
  | int32 (v : Nat)
  | int64 (v : Nat)
  | str (s : Option String)
deriving DecidableEq, Repr

/-- A C `int`/`long`/`time_t` passed as `uint64_t`. -/
def toUInt64 (v : Int) : Nat := (v % 2 ^ 64).toNat

/-! ## Writing -/

/-- The inner `for (m = l->mtags; m; m = m->next)` of `hbm_write_db`: each
tag's name and value. -/
def tagValues (m : List MessageTag) : List DbValue :=
  m.flatMap fun n => [.str n.name, .str n.value]

/-- What `hbm_write_db` writes for one line: `ENTRY_START`, `t`, the tag pairs,
the `(NULL, NULL)` pair, the line and `ENTRY_END`. -/
def entryValues (e : Entry) : List DbValue :=
  [.int32 magicEntryStart, .int64 (toUInt64 e.t)] ++ tagValues e.mtags ++
    [.str none, .str none, .str (some e.line), .int32 magicEntryEnd]

/-- What `hbm_write_db` writes for `h` with salts `prehash`, `posthash`, its
lines walked from `head` being `es`. -/
def hbmWriteDbValues (prehash posthash : Option String) (h : HistoryLogObject)
    (es : List Entry) : List DbValue :=
  [.int32 magicFileStart, .int32 5000, .str prehash, .str posthash, .str (some h.name),
    .int64 (toUInt64 h.maxLines), .int64 (toUInt64 h.maxTime)] ++
    es.flatMap entryValues ++ [.int32 magicFileEnd]

/-! ## Reading

Each `unrealdb_read_*` takes the next value when it has the type asked for;
any other value, or the end of the file, is a failed read (`R_SAFE`), after
which `hbm_read_db` returns 0.
-/

/-- The inner `while (1)` of `hbm_read_db`: tag pairs up to the `(NULL, NULL)`
pair; `none` when a read fails. -/
def readTags : List DbValue → Option (List (Option String × Option String) × List DbValue)
  | .str none :: .str none :: rest => some ([], rest)
  | .str n :: .str v :: rest => (readTags rest).map fun r => ((n, v) :: r.1, r.2)
  | _ => none

/-- One entry frame after its `ENTRY_START`: `line_ts` (read and dropped), the
tags, the line and `ENTRY_END`; `none` on a failed read or a wrong magic. -/
def readEntry : List DbValue →
    Option (List (Option String × Option String) × Option String × List DbValue)
  | .int64 _ :: vals =>
    match readTags vals with
    | some (tags, .str line :: .int32 magic :: rest) =>
      if magic = magicEntryEnd then some (tags, line, rest) else none
    | _ => none
  | _ => none

/-- The tags `hbm_read_db` builds: each pair copied as it was read, a NULL
name included. -/
def toMessageTags (tags : List (Option String × Option String)) : List MessageTag :=
  tags.map fun p => ⟨p.1, p.2⟩

/-- No tag is the `(NULL, NULL)` pair that ends the tags of a frame: the tags a
file can carry through a write and a read. -/
def TagsWritable (m : List MessageTag) : Prop := ∀ n ∈ m, n.name.isSome ∨ n.value.isSome

theorem TagsNamed.writable {m : List MessageTag} (hm : TagsNamed m) : TagsWritable m :=
  fun n hn => .inl (hm n hn)

theorem readTags_length : ∀ {vals rest : List DbValue} {ts : List (Option String × Option String)},
    readTags vals = some (ts, rest) → rest.length ≤ vals.length
  | .str none :: .str none :: _, _, _, h => by
    simp only [readTags, Option.some.injEq, Prod.mk.injEq] at h
    obtain ⟨-, rfl⟩ := h
    simp only [List.length_cons]; omega
  | .str (some _) :: .str _ :: _, _, _, h | .str none :: .str (some _) :: _, _, _, h => by
    simp only [readTags, Option.map_eq_some'] at h
    obtain ⟨⟨ts, rest'⟩, hr, ⟨⟩⟩ := h
    have := readTags_length hr
    simp only [List.length_cons]; omega

theorem readEntry_length {vals rest : List DbValue} {ts : List (Option String × Option String)}
    {line : Option String} (h : readEntry vals = some (ts, line, rest)) :
    rest.length < vals.length := by
  match vals, h with
  | .int64 _ :: vals, h =>
    simp only [readEntry] at h
    split at h
    · rename_i rest' _ htags
      split at h
      · cases h
        have := readTags_length htags
        simp only [List.length_cons] at this ⊢; omega
      · cases h
    · cases h

/-- The tags a read builds stop at the `(NULL, NULL)` pair, so none of them is
that pair. -/
theorem readTags_writable : ∀ {vals rest : List DbValue} {ts : List (Option String × Option String)},
    readTags vals = some (ts, rest) → TagsWritable (toMessageTags ts)
  | .str none :: .str none :: _, _, _, h => by
    simp only [readTags, Option.some.injEq, Prod.mk.injEq] at h
    obtain ⟨rfl, -⟩ := h
    exact fun _ hn => nomatch hn
  | .str (some _) :: .str _ :: _, _, _, h | .str none :: .str (some _) :: _, _, _, h => by
    simp only [readTags, Option.map_eq_some'] at h
    obtain ⟨⟨ts, rest'⟩, hr, ⟨⟩⟩ := h
    intro n hn
    simp only [toMessageTags, List.map_cons, List.mem_cons] at hn
    rcases hn with rfl | hn
    · simp
    · exact readTags_writable hr n hn

theorem readEntry_writable {vals rest : List DbValue} {tags : List (Option String × Option String)}
    {line : Option String} (h : readEntry vals = some (tags, line, rest)) :
    TagsWritable (toMessageTags tags) := by
  match vals, h with
  | .int64 _ :: vals, h =>
    simp only [readEntry] at h
    split at h
    · rename_i htags
      split at h
      · cases h; exact readTags_writable htags
      · cases h
    · cases h

variable (object : String) (clock : Nat → String)

/-- The outer `while (1)` of `hbm_read_db`, from entry number `k`: `ret` 1 at
`FILE_END`, 0 at a failed read or a wrong magic; each complete frame goes
through `hbm_history_add(object, mtags, line)` at wall clock `clock k`, which
faults on a NULL line (`strlen` in `hbm_history_add_line`). -/
def readEntries (k : Nat) (tb : Table) : List DbValue → Option (Int × Table)
  | .int32 magic :: vals =>
    if magic = magicFileEnd then some (1, tb)
    else if magic ≠ magicEntryStart then some (0, tb)
    else
      match h : readEntry vals with
      | none => some (0, tb)
      | some (tags, line, rest) =>
        match line with
        | none => none
        | some line =>
          (hbmHistoryAdd H tb object (toMessageTags tags) line (clock k)).bind fun tb' =>
            readEntries (k + 1) tb' rest
  | _ => some (0, tb)
termination_by vals => vals.length
decreasing_by
  have := readEntry_length h
  simp only [List.length_cons]; omega

/-- How the header of a file reads: rejected (`hbm_read_db` returns 0), or
accepted up to the object name, with the rest of the file. -/
inductive Header where
  | reject
  | accept (object : Option String) (rest : List DbValue)

/-- The header checks of `hbm_read_db`, in the C order: `FILE_START`, the
version in `[4999, 5000]`, two non-NULL salts equal to `cfg.prehash` and
`cfg.posthash`, then the object name and the two limits (read and dropped).
`strcmp` against a NULL `cfg` salt is a fault. -/
def readHeader (cfgPrehash cfgPosthash : Option String) : List DbValue → Option Header
  | .int32 magic :: vals =>
    if magic ≠ magicFileStart then some .reject else
    match vals with
    | .int32 version :: vals =>
      if version < 4999 ∨ 5000 < version then some .reject else
      match vals with
      | .str (some pre) :: .str (some post) :: vals =>
        cfgPrehash.bind fun cpre =>
          if pre ≠ cpre then some .reject else
          cfgPosthash.bind fun cpost =>
            if post ≠ cpost then some .reject else
            match vals with
            | .str object :: .int64 _ :: .int64 _ :: rest => some (.accept object rest)
            | _ => some .reject
      | _ => some .reject
    | _ => some .reject
  | _ => some .reject

/-- What `hbm_read_db` returns and leaves: `ret`, the table, and whether it
unlinked the file. -/
structure ReadOutcome where
  ret : Int
  table : Table
  unlink : Bool

/-- `hbm_read_db(fname)` on a file whose values are `db` (`none` when
`unrealdb_open` fails), with the salts of `cfg`. An object with no live log
gets its file unlinked; otherwise the entries are added and, at `FILE_END`,
`h->dirty = 0`. -/
def hbmReadDb (cfgPrehash cfgPosthash : Option String) (tb : Table) :
    Option (List DbValue) → Option ReadOutcome
  | none => some ⟨0, tb, false⟩
  | some vals =>
    (readHeader cfgPrehash cfgPosthash vals).bind fun
      | .reject => some ⟨0, tb, false⟩
      | .accept none _ => none
      | .accept (some object) rest =>
        match hbmFindObject H tb object with
        | none => some ⟨1, tb, true⟩
        | some _ =>
          (readEntries H object clock 0 tb rest).map fun r =>
            ⟨r.1, if r.1 = 1 then modifyObject H r.2 object fun h => { h with dirty := false }
              else r.2, false⟩

/-! ## Reading back what was written -/

/-- The pairs `hbm_read_db` reads for the tags `m`. -/
def tagPairs (m : List MessageTag) : List (Option String × Option String) :=
  m.map fun n => (n.name, n.value)

@[simp] theorem toMessageTags_tagPairs (m : List MessageTag) : toMessageTags (tagPairs m) = m := by
  simp [toMessageTags, tagPairs, Function.comp_def]

/-- A pair other than `(NULL, NULL)` is read as a tag, and the loop goes on. -/
theorem readTags_pair {n v : Option String} (hnv : n.isSome ∨ v.isSome) (vals : List DbValue) :
    readTags (.str n :: .str v :: vals) = (readTags vals).map fun r => ((n, v) :: r.1, r.2) := by
  rcases n with _ | n <;> rcases v with _ | v
  · simp at hnv
  all_goals rfl

/-- Tags read back up to the `(NULL, NULL)` pair: a NULL name or value is not
taken for the terminator, because the other one beside it is set. -/
theorem readTags_tagValues {m : List MessageTag} (hm : TagsWritable m) (rest : List DbValue) :
    readTags (tagValues m ++ .str none :: .str none :: rest) = some (tagPairs m, rest) := by
  induction m with
  | nil => rfl
  | cons n m ih =>
    have hvals : tagValues (n :: m) ++ .str none :: .str none :: rest =
        .str n.name :: .str n.value :: (tagValues m ++ .str none :: .str none :: rest) := rfl
    rw [hvals, readTags_pair (hm n (List.mem_cons_self _ _)),
      ih fun k hk => hm k (List.mem_cons_of_mem _ hk)]
    rfl

/-- One written entry frame reads back as its tags and its line. -/
theorem readEntry_entryValues {e : Entry} (hm : TagsWritable e.mtags) (rest : List DbValue) :
    readEntry ((entryValues e).tail ++ rest) = some (tagPairs e.mtags, some e.line, rest) := by
  have := readTags_tagValues hm (.str (some e.line) :: .int32 magicEntryEnd :: rest)
  simp only [entryValues, List.cons_append, List.nil_append, List.tail_cons, List.append_assoc,
    List.singleton_append] at this ⊢
  simp [readEntry, this]

/-- An `ENTRY_START` whose frame reads through: its line goes to
`hbm_history_add` (a NULL line faults), then the loop goes on. -/
theorem readEntries_entry (object : String) (clock : Nat → String) {vals rest : List DbValue}
    {tags : List (Option String × Option String)} {line : Option String}
    (h : readEntry vals = some (tags, line, rest)) (k : Nat) (tb : Table) :
    readEntries H object clock k tb (.int32 magicEntryStart :: vals) =
      (line.bind fun line => hbmHistoryAdd H tb object (toMessageTags tags) line (clock k)).bind
        fun tb' => readEntries H object clock (k + 1) tb' rest := by
  rw [readEntries, if_neg (by decide), if_neg (not_not.mpr rfl)]
  split
  · rename_i hn; rw [h] at hn; cases hn
  · rename_i hs; rw [h] at hs; cases hs
    cases line <;> rfl

/-- A complete frame goes through `hbm_history_add`, then the loop goes on. -/
theorem readEntries_frame (object : String) (clock : Nat → String) {vals rest : List DbValue}
    {tags : List (Option String × Option String)} {line : String}
    (h : readEntry vals = some (tags, some line, rest)) (k : Nat) (tb : Table) :
    readEntries H object clock k tb (.int32 magicEntryStart :: vals) =
      (hbmHistoryAdd H tb object (toMessageTags tags) line (clock k)).bind fun tb' =>
        readEntries H object clock (k + 1) tb' rest :=
  readEntries_entry H object clock h k tb

/-- The limit `hbm_history_add` installs is its own limit. -/
theorem addLimit_of_maxLines {g g' : HistoryLogObject} (h : g'.maxLines = addLimit g) :
    addLimit g' = addLimit g := by
  unfold addLimit at *
  split at h <;> split <;> omega

/-- **The entry loop on written frames**: each frame goes through
`hbm_history_add` as the entry it was written from, and the loop returns 1 at
`FILE_END`. With room for all of them, they land after the object's entries. -/
theorem readEntries_written (object : String) (clock : Nat → String) :
    ∀ (es : List Entry) (k : Nat) (tb : Table) (g : HistoryLogObject) (cells : List (Nat × Entry)),
    hbmFindObject H tb object = some g → LogOk H g cells →
    (∀ e ∈ es, e.WellTimed H ∧ TagsWritable e.mtags) → cells.length + es.length ≤ addLimit g →
    ∃ tb' g' cells', readEntries H object clock k tb
        (es.flatMap entryValues ++ [.int32 magicFileEnd]) = some (1, tb') ∧
      hbmFindObject H tb' object = some g' ∧ LogOk H g' cells' ∧
      cells'.map Prod.snd = cells.map Prod.snd ++ es
  | [], k, tb, g, cells, hf, ho, _, _ => ⟨tb, g, cells, by simp [readEntries, magicFileEnd], hf, ho, by simp⟩
  | e :: es, k, tb, g, cells, hf, ho, hes, hlen => by
    obtain ⟨hwt, hnm⟩ := hes e (List.mem_cons_self _ _)
    have hm : 0 ≤ g.maxLines := by
      simp only [addLimit, List.length_cons] at hlen; split at hlen <;> omega
    obtain ⟨tb₁, g₁, hadd, hf₁, ho₁, hmax₁⟩ :=
      hbmHistoryAdd_of_found hf ho hm (newEntry_of_wellTimed H hwt (clock k))
    have hroom : ¬ addLimit g ≤ cells.length := by simp only [List.length_cons] at hlen; omega
    rw [pushBounded, if_neg hroom] at ho₁
    obtain ⟨tb', g', cells', hrun, hf', ho', hcells⟩ :=
      readEntries_written object clock es (k + 1) tb₁ g₁ _ hf₁ ho₁
        (fun d hd => hes d (List.mem_cons_of_mem _ hd))
        (by rw [addLimit_of_maxLines hmax₁]; simp only [List.length_append, List.length_cons,
          List.length_singleton, List.length_nil] at hlen ⊢; omega)
    refine ⟨tb', g', cells', ?_, hf', ho', by simp [hcells]⟩
    have hvals : (e :: es).flatMap entryValues ++ [.int32 magicFileEnd] =
        .int32 magicEntryStart :: ((entryValues e).tail ++
          (es.flatMap entryValues ++ [.int32 magicFileEnd])) := by
      simp [entryValues]
    rw [hvals, readEntries_frame H object clock (readEntry_entryValues hnm _)]
    simp [hadd, hrun]

theorem readHeader_written (pre post : String) (h : HistoryLogObject) (es : List Entry) :
    readHeader (some pre) (some post) (hbmWriteDbValues (some pre) (some post) h es) =
      some (.accept (some h.name) (es.flatMap entryValues ++ [.int32 magicFileEnd])) := by
  simp [readHeader, hbmWriteDbValues, magicFileStart]

/-- **Round trip**: what `hbm_write_db` writes for named, well-timed entries
`es` of `h`, read back with the same salts into a table where an object of
`h`'s name has an empty log with room for them, makes `hbm_read_db` return 1
and leaves that object holding exactly `es`, clean. -/
theorem hbmReadDb_written (clock : Nat → String) (pre post : String) (h : HistoryLogObject)
    (es : List Entry) (hes : ∀ e ∈ es, e.WellTimed H ∧ TagsWritable e.mtags)
    {tb : Table} {g : HistoryLogObject} (hf : hbmFindObject H tb h.name = some g)
    (hg : LogOk H g []) (hlen : es.length ≤ addLimit g) :
    ∃ tb' g', hbmReadDb H clock (some pre) (some post) tb
        (some (hbmWriteDbValues (some pre) (some post) h es)) = some ⟨1, tb', false⟩ ∧
      hbmFindObject H tb' h.name = some g' ∧ g'.entries = es ∧ g'.dirty = false ∧
      ∃ cells, LogOk H g' cells := by
  obtain ⟨tb₁, g₁, cells, hrun, hf₁, ho₁, hcells⟩ :=
    readEntries_written H h.name clock es 0 tb g [] hf hg hes (by simpa using hlen)
  obtain ⟨-, -, -, -, hfind⟩ :=
    @modifyObject_of_found H tb₁ h.name g₁ (fun x => { x with dirty := false }) hf₁ rfl
  refine ⟨_, _, ?_, hfind, ?_, rfl, cells, ho₁.setDirty false⟩
  · simp [hbmReadDb, readHeader_written, hf, hrun]
  · rw [(ho₁.setDirty false).inv.entries_eq]; simpa using hcells

/-! ## What a read does to the table -/

/-- One `hbm_history_add` on `object`, with tags none of which is the
`(NULL, NULL)` pair. -/
def AddsTo (object : String) (tb tb' : Table) : Prop :=
  ∃ mtags line clock, TagsWritable mtags ∧ hbmHistoryAdd H tb object mtags line clock = some tb'

/-- **The entry loop only adds**: whatever the values, the table it leaves is
reached by calls of `hbm_history_add(object, ...)`. -/
theorem readEntries_adds (object : String) (clock : Nat → String) (k : Nat) (tb : Table)
    (vals : List DbValue) : ∀ {r : Int} {tb' : Table},
    readEntries H object clock k tb vals = some (r, tb') →
    Relation.ReflTransGen (AddsTo H object) tb tb' := by
  induction k, tb, vals using readEntries.induct H object clock with
  | case1 k tb vals =>
    intro r tb' h; rw [readEntries.eq_1, if_pos rfl] at h; cases h; exact .refl
  | case2 k tb magic vals h1 h2 =>
    intro r tb' h; rw [readEntries.eq_1, if_neg h1, if_pos h2] at h; cases h; exact .refl
  | case3 k tb magic vals h1 h2 hre =>
    intro r tb' h
    rw [readEntries.eq_1, if_neg h1, if_neg h2] at h
    split at h
    · cases h; exact .refl
    · rename_i heq; rw [hre] at heq; cases heq
  | case4 k tb magic vals h1 h2 tags rest hre =>
    intro r tb' h
    rw [readEntries.eq_1, if_neg h1, if_neg h2] at h
    split at h
    · rename_i heq; rw [hre] at heq; cases heq
    · rename_i heq; rw [hre] at heq; cases heq; cases h
  | case5 k tb magic vals h1 h2 tags rest line hre _ ih =>
    intro r tb' h
    rw [show magic = magicEntryStart from not_not.mp h2, readEntries_frame H object clock hre] at h
    obtain ⟨tb₁, hadd, hrest⟩ := Option.bind_eq_some.mp h
    exact .head ⟨_, _, _, readEntry_writable hre, hadd⟩ (ih tb₁ hrest)
  | case6 k tb vals hx =>
    intro r tb' h; rw [readEntries.eq_2 _ _ _ _ _ _ hx] at h; cases h; exact .refl

/-- **What `hbm_read_db` does to the table**: calls of `hbm_history_add`, on an
object the table already holds when there is at least one, then possibly
`dirty = 0` on that object. -/
theorem hbmReadDb_table {clock : Nat → String} {pre post : Option String} {tb : Table}
    {db : Option (List DbValue)} {out : ReadOutcome}
    (h : hbmReadDb H clock pre post tb db = some out) :
    ∃ object tb₁, Relation.ReflTransGen (AddsTo H object) tb tb₁ ∧
      ((hbmFindObject H tb object).isSome ∨ tb₁ = tb) ∧
      (out.table = tb₁ ∨ out.table = modifyObject H tb₁ object fun h => { h with dirty := false }) := by
  unfold hbmReadDb at h
  split at h
  · cases h; exact ⟨"", tb, .refl, .inr rfl, .inl rfl⟩
  · obtain ⟨hd, -, h⟩ := Option.bind_eq_some.mp h
    split at h
    · cases h; exact ⟨"", tb, .refl, .inr rfl, .inl rfl⟩
    · cases h
    · rename_i object rest
      split at h
      · cases h; exact ⟨"", tb, .refl, .inr rfl, .inl rfl⟩
      · rename_i g hg
        obtain ⟨⟨r, tb₁⟩, hrun, hout⟩ := Option.map_eq_some'.mp h
        cases hout
        refine ⟨object, tb₁, readEntries_adds H object clock 0 tb rest hrun, .inl (by rw [hg]; rfl), ?_⟩
        dsimp only
        split
        · exact .inr rfl
        · exact .inl rfl

end HistoryBackendMem
