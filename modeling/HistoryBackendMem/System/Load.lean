import HistoryBackendMem.System.Invariant
import HistoryBackendMem.System.Config

/-!
# System — loading a per-object file

The values of a per-object file, as the reader takes them, are a header, then
entry frames, then whatever the first failed read or wrong magic finds. This
module states that grammar on its own terms (`headerValues`, `DbFrame.values`)
and shows `hbm_read_db` reads it: it returns 1 exactly when the header is
right and either no live log has the file's name or the frames end at
`FILE_END`, and the log of that name ends as `hbm_history_add` on the
complete frames, in stream order, leaves it (`hbmReadDb_adds_frames`).

The reader's own loops (`readTags`, `readEntry`, `readEntries`) are tied to the
grammar in both directions: a frame reads back as itself, and what reads as a
frame is one. Frames are therefore prefix-free, and the decomposition of a
stream into frames and a rest is unique.
-/

namespace HistoryBackendMem

variable {H : Host}

/-! ## The grammar of a per-object file -/

/-- The values of tag pairs, as `hbm_write_db` writes them and `hbm_read_db`
reads them: name, then value, each possibly NULL. -/
def pairValues (ps : List (Option String × Option String)) : List DbValue :=
  ps.flatMap fun p => [.str p.1, .str p.2]

/-- A complete entry frame: `ENTRY_START`, `t`, tag pairs ended by a
`(NULL, NULL)` pair, the line and `ENTRY_END`. -/
@[ext]
structure DbFrame where
  t : Nat
  tags : List (Option String × Option String)
  line : Option String
  /-- The pairs end at the first `(NULL, NULL)`, which is not one of them. -/
  noEnd : (none, none) ∉ tags

/-- The values of a frame. -/
def DbFrame.values (f : DbFrame) : List DbValue :=
  [.int32 magicEntryStart, .int64 f.t] ++ pairValues f.tags ++
    [.str none, .str none, .str f.line, .int32 magicEntryEnd]

/-- A frame whose line and tag names are all set. -/
def DbFrame.Named (f : DbFrame) : Prop := f.line.isSome ∧ ∀ p ∈ f.tags, p.1.isSome

/-- `vals` does not begin with a complete frame. -/
def NoFrameAt (vals : List DbValue) : Prop := ∀ (f : DbFrame) (r : List DbValue), vals ≠ f.values ++ r

/-- The header: `FILE_START`, the version, the two salts, the object name and
the two limits. -/
def headerValues (version : Nat) (pre post : String) (object : Option String)
    (maxLines maxTime : Nat) : List DbValue :=
  [.int32 magicFileStart, .int32 version, .str (some pre), .str (some post), .str object,
    .int64 maxLines, .int64 maxTime]

/-- `vals` begins with a header of a supported version and the salts `pre`,
`post`, naming `object`, and goes on with `rest`. -/
def HeaderOk (pre post : String) (vals : List DbValue) (object : Option String)
    (rest : List DbValue) : Prop :=
  ∃ version maxLines maxTime, 4999 ≤ version ∧ version ≤ 5000 ∧
    vals = headerValues version pre post object maxLines maxTime ++ rest

/-! ## The reader reads the grammar -/

theorem readTags_pairValues {ps : List (Option String × Option String)}
    (hps : (none, none) ∉ ps) (rest : List DbValue) :
    readTags (pairValues ps ++ .str none :: .str none :: rest) = some (ps, rest) := by
  induction ps with
  | nil => rfl
  | cons p ps ih =>
    obtain ⟨hp, hps'⟩ : (none, none) ≠ p ∧ (none, none) ∉ ps := by simpa [not_or] using hps
    have ih := ih hps'
    obtain ⟨a, b⟩ := p
    simp only [pairValues, List.flatMap_cons, List.cons_append, List.nil_append] at ih ⊢
    rcases a with _ | a
    · rcases b with _ | b
      · exact absurd rfl hp
      · simp [readTags, ih]
    · simp [readTags, ih]

/-- What reads as tag pairs is tag pairs, up to a `(NULL, NULL)`. -/
theorem readTags_sound : ∀ {vals rest : List DbValue} {ps : List (Option String × Option String)},
    readTags vals = some (ps, rest) →
      (none, none) ∉ ps ∧ vals = pairValues ps ++ .str none :: .str none :: rest
  | .str none :: .str none :: _, _, _, h => by
    simp only [readTags, Option.some.injEq, Prod.mk.injEq] at h
    obtain ⟨rfl, rfl⟩ := h
    exact ⟨List.not_mem_nil _, rfl⟩
  | .str (some a) :: .str b :: _, _, _, h | .str none :: .str (some b) :: _, _, _, h => by
    simp only [readTags, Option.map_eq_some'] at h
    obtain ⟨⟨ps, rest'⟩, hr, ⟨⟩⟩ := h
    obtain ⟨hps, rfl⟩ := readTags_sound hr
    exact ⟨by simpa using hps, rfl⟩

theorem readEntry_values (f : DbFrame) (rest : List DbValue) :
    readEntry (f.values.tail ++ rest) = some (f.tags, f.line, rest) := by
  have := readTags_pairValues f.noEnd (.str f.line :: .int32 magicEntryEnd :: rest)
  simp only [DbFrame.values, List.cons_append, List.nil_append, List.tail_cons,
    List.append_assoc] at this ⊢
  simp [readEntry, this]

/-- What reads as a frame after `ENTRY_START` is a frame. -/
theorem readEntry_sound {vals rest : List DbValue} {ps : List (Option String × Option String)}
    {line : Option String} (h : readEntry vals = some (ps, line, rest)) :
    ∃ f : DbFrame, f.tags = ps ∧ f.line = line ∧
      .int32 magicEntryStart :: vals = f.values ++ rest := by
  match vals, h with
  | .int64 t :: vals, h =>
    simp only [readEntry] at h
    split at h
    · rename_i ps' line' magic rest' htags
      split at h
      · rename_i hm
        cases h
        obtain ⟨hps, rfl⟩ := readTags_sound htags
        exact ⟨⟨t, ps, line, hps⟩, rfl, rfl, by simp [DbFrame.values, hm]⟩
      · cases h
    · cases h

/-- **Frames are prefix-free**: a stream that begins with two frames begins
with one. -/
theorem DbFrame.values_append_inj {f g : DbFrame} {a b : List DbValue}
    (h : f.values ++ a = g.values ++ b) : f = g ∧ a = b := by
  have ht : f.t = g.t := by
    simp only [DbFrame.values, List.cons_append, List.cons.injEq, DbValue.int64.injEq] at h
    exact h.2.1
  have hr := readEntry_values f a
  have hs : f.values.tail ++ a = g.values.tail ++ b := by
    simpa [DbFrame.values] using h
  rw [hs, readEntry_values g b] at hr
  simp only [Option.some.injEq, Prod.mk.injEq] at hr
  exact ⟨DbFrame.ext ht hr.1.symm hr.2.1.symm, hr.2.2.symm⟩

/-! ## The header -/

/-- The header checks accept exactly the headers of `HeaderOk`. -/
theorem readHeader_accept {pre post : String} {vals rest : List DbValue} {object : Option String}
    (h : readHeader (some pre) (some post) vals = some (.accept object rest)) :
    HeaderOk pre post vals object rest := by
  unfold readHeader at h
  split at h
  · rename_i magic vals
    split at h
    · cases h
    rename_i h1
    split at h
    · rename_i v vals
      split at h
      · cases h
      rename_i h2
      split at h
      · simp only [Option.some_bind] at h
        split at h
        · cases h
        rename_i h3
        split at h
        · cases h
        rename_i h4
        split at h
        · rename_i l t _
          cases h
          simp only [not_or, not_lt, ne_eq, not_not] at h1 h2 h3 h4
          exact ⟨v, l, t, h2.1, h2.2, by simp [headerValues, h1, h3, h4]⟩
        · cases h
      · cases h
    · cases h
  · cases h

theorem readHeader_of_headerOk {pre post : String} {vals rest : List DbValue}
    {object : Option String} (h : HeaderOk pre post vals object rest) :
    readHeader (some pre) (some post) vals = some (.accept object rest) := by
  obtain ⟨v, l, t, h1, h2, rfl⟩ := h
  simp [readHeader, headerValues, not_lt.mpr h1, not_lt.mpr h2]

/-- With both salts of `cfg` set, the header checks never fault. -/
theorem readHeader_ne_none (pre post : String) (vals : List DbValue) :
    readHeader (some pre) (some post) vals ≠ none := by
  unfold readHeader
  repeat' (first | simp only [Option.some_bind] | split)
  all_goals simp

/-- A stream without a supported header is rejected. -/
theorem readHeader_reject {pre post : String} {vals : List DbValue}
    (h : ¬ ∃ object rest, HeaderOk pre post vals object rest) :
    readHeader (some pre) (some post) vals = some .reject := by
  cases hr : readHeader (some pre) (some post) vals with
  | none => exact absurd hr (readHeader_ne_none pre post vals)
  | some r =>
    cases r with
    | reject => rfl
    | accept object rest => exact absurd ⟨object, rest, readHeader_accept hr⟩ h

/-! ## Streams of frames -/

/-- What the entry loop returns on a rest that begins with no frame: 1 at
`FILE_END`, 0 otherwise. -/
def endCode (vals : List DbValue) : Int :=
  if vals.head? = some (.int32 magicFileEnd) then 1 else 0

/-- Every stream is frames, then a rest that begins with no frame. -/
theorem exists_frames (vals : List DbValue) :
    ∃ (fs : List DbFrame) (rest : List DbValue),
      vals = fs.flatMap DbFrame.values ++ rest ∧ NoFrameAt rest := by
  by_cases h : ∃ (f : DbFrame) (r : List DbValue), vals = f.values ++ r
  · obtain ⟨f, r, hv⟩ := h
    obtain ⟨fs, rest, hr, hno⟩ := exists_frames r
    exact ⟨f :: fs, rest, by simp [hv, hr], hno⟩
  · exact ⟨[], vals, rfl, fun f r he => h ⟨f, r, he⟩⟩
termination_by vals.length
decreasing_by rw [hv]; simp [DbFrame.values]; omega

/-- A stream whose first value is not `ENTRY_START` begins with no frame. -/
theorem noFrameAt_of_head {vals : List DbValue}
    (h : vals.head? ≠ some (.int32 magicEntryStart)) : NoFrameAt vals := by
  rintro f r rfl
  exact h (by simp [DbFrame.values])

/-- **The frames of a stream are unique**: two ways of writing a stream as
frames and then a rest that begins with no frame are one. -/
theorem frames_unique : ∀ {fs gs : List DbFrame} {rest rest' : List DbValue},
    fs.flatMap DbFrame.values ++ rest = gs.flatMap DbFrame.values ++ rest' →
    NoFrameAt rest → NoFrameAt rest' → fs = gs ∧ rest = rest'
  | [], [], _, _, h, _, _ => ⟨rfl, h⟩
  | [], g :: gs, _, _, h, hno, _ => absurd (by simpa using h) (hno g _)
  | f :: fs, [], _, _, h, _, hno' => absurd (by simpa using h.symm) (hno' f _)
  | f :: fs, g :: gs, _, _, h, hno, hno' => by
    simp only [List.flatMap_cons, List.append_assoc] at h
    obtain ⟨rfl, h'⟩ := DbFrame.values_append_inj h
    obtain ⟨rfl, rfl⟩ := frames_unique h' hno hno'
    exact ⟨rfl, rfl⟩

/-- On a rest that begins with no frame the entry loop stops at once. -/
theorem readEntries_noFrame (object : String) (clock : Nat → String) {vals : List DbValue}
    (hno : NoFrameAt vals) (k : Nat) (tb : Table) :
    readEntries H object clock k tb vals = some (endCode vals, tb) := by
  by_cases hv : ∃ m rest, vals = .int32 m :: rest
  · obtain ⟨m, rest, rfl⟩ := hv
    rw [readEntries, endCode]
    by_cases he : m = magicFileEnd
    · simp [he]
    rw [if_neg he]
    by_cases hs : m = magicEntryStart
    · subst hs
      rw [if_neg (not_not.mpr rfl)]
      split
      · simp [he]
      · rename_i _ _ hre
        obtain ⟨f, -, -, hf⟩ := readEntry_sound hre
        exact absurd hf (hno f _)
    · simp [hs, he]
  · rw [readEntries.eq_2 H object clock k tb vals fun m rest h => hv ⟨m, rest, h⟩, endCode]
    rcases vals with _ | ⟨_ | _ | _, rest⟩ <;> simp_all

/-- The header of a stream is unique. -/
theorem HeaderOk.unique {pre post : String} {vals rest rest' : List DbValue}
    {object object' : Option String} (h : HeaderOk pre post vals object rest)
    (h' : HeaderOk pre post vals object' rest') : object = object' ∧ rest = rest' := by
  simpa using (readHeader_of_headerOk h).symm.trans (readHeader_of_headerOk h')

/-- After the frames, the entry loop returns 1 exactly when the stream goes on
with `FILE_END`. -/
theorem endCode_eq_one_iff {fs : List DbFrame} {rest rest' : List DbValue}
    (hdec : rest = fs.flatMap DbFrame.values ++ rest') (hno : NoFrameAt rest') :
    endCode rest' = 1 ↔
      ∃ (gs : List DbFrame) (r : List DbValue),
        rest = gs.flatMap DbFrame.values ++ .int32 magicFileEnd :: r := by
  constructor
  · intro he
    unfold endCode at he
    split at he
    · rename_i hh
      obtain ⟨r, rfl⟩ : ∃ r, rest' = .int32 magicFileEnd :: r := by
        rcases rest' with _ | ⟨x, r⟩
        · cases hh
        · exact ⟨r, by simpa using hh⟩
      exact ⟨fs, r, hdec⟩
    · cases he
  · rintro ⟨gs, r, hr⟩
    rw [(frames_unique (hdec.symm.trans hr) hno (noFrameAt_of_head (by simp [magicFileEnd, magicEntryStart]))).2]
    simp [endCode]

/-! ## Adding the frames -/

variable (H) in
/-- `hbm_history_add(object, mtags, line)` on each frame in stream order, the
`k`-th at wall clock `clock k`; the frame's `t` takes no part, and a NULL line
is the fault of `strlen` in `hbm_history_add_line`. -/
def addFrames (object : String) (clock : Nat → String) : Nat → Table → List DbFrame → Option Table
  | _, tb, [] => some tb
  | k, tb, f :: fs =>
    (f.line.bind fun line => hbmHistoryAdd H tb object (toMessageTags f.tags) line (clock k)).bind
      fun tb' => addFrames object clock (k + 1) tb' fs

/-- **The entry loop is `hbm_history_add` on the frames**: on frames followed
by a rest that begins with no frame, `readEntries` adds the frames in order and
returns what the rest's first value says. -/
theorem readEntries_frames (object : String) (clock : Nat → String) {rest : List DbValue}
    (hno : NoFrameAt rest) : ∀ (fs : List DbFrame) (k : Nat) (tb : Table),
    readEntries H object clock k tb (fs.flatMap DbFrame.values ++ rest) =
      (addFrames H object clock k tb fs).map fun tb' => (endCode rest, tb')
  | [], k, tb => readEntries_noFrame object clock hno k tb
  | f :: fs, k, tb => by
    have hv : (f :: fs).flatMap DbFrame.values ++ rest =
        .int32 magicEntryStart :: (f.values.tail ++ (fs.flatMap DbFrame.values ++ rest)) := by
      simp [DbFrame.values]
    rw [hv, readEntries_entry H object clock (readEntry_values f _), addFrames]
    cases f.line.bind fun line => hbmHistoryAdd H tb object (toMessageTags f.tags) line (clock k) with
    | none => rfl
    | some tb' => exact readEntries_frames object clock hno fs (k + 1) tb'

/-- Tags read with their names set have names. -/
theorem tagsNamed_toMessageTags {ps : List (Option String × Option String)}
    (h : ∀ p ∈ ps, p.1.isSome) : TagsNamed (toMessageTags ps) := by
  intro n hn
  obtain ⟨p, hp, rfl⟩ := List.mem_map.mp hn
  exact h p hp

/-- **Frames with their names set go through**: on a well-formed table where
the object lives, every `hbm_history_add` succeeds and keeps the table well
formed and the object there. -/
theorem addFrames_some (object : String) (clock : Nat → String) :
    ∀ (fs : List DbFrame) (k : Nat) (tb : Table), tb.All (ObjOk H) →
      (hbmFindObject H tb object).isSome → (∀ f ∈ fs, f.Named) →
      ∃ tb', addFrames H object clock k tb fs = some tb' ∧ tb'.All (ObjOk H) ∧
        (hbmFindObject H tb' object).isSome
  | [], _, tb, hok, hf, _ => ⟨tb, rfl, hok, hf⟩
  | f :: fs, k, tb, hok, hf, hn => by
    obtain ⟨hline, htags⟩ := hn f (List.mem_cons_self _ _)
    obtain ⟨line, hl⟩ := Option.isSome_iff_exists.mp hline
    obtain ⟨g, hg⟩ := Option.isSome_iff_exists.mp hf
    have hgok : ObjOk H g := hok _ g (hbmFindObject_mem hg)
    obtain ⟨cells, hlog⟩ := hgok.log
    obtain ⟨e, he⟩ := Option.isSome_iff_exists.mp
      (newEntry_isSome H (tagsNamed_toMessageTags htags) line (clock k))
    obtain ⟨tb₁, g₁, hadd, hf₁, -, -⟩ :=
      hbmHistoryAdd_of_found hg hlog (by have := hgok.limit; omega) he
    obtain ⟨tb', hrun, hok', hf'⟩ := addFrames_some object clock fs (k + 1) tb₁
      (hok.hbmHistoryAdd hadd) (by simp [hf₁]) fun f hf => hn f (List.mem_cons_of_mem _ hf)
    exact ⟨tb', by simp [addFrames, hl, hadd, hrun], hok', hf'⟩

/-! ## `hbm_read_db` -/

section Read

variable {pre post : String} {tb : Table} (clock : Nat → String) {vals : List DbValue}

/-- A stream without a supported header: `hbm_read_db` returns 0 and changes
nothing. -/
theorem hbmReadDb_reject (h : ¬ ∃ object rest, HeaderOk pre post vals object rest) :
    hbmReadDb H clock (some pre) (some post) tb (some vals) = some ⟨0, tb, false⟩ := by
  simp [hbmReadDb, readHeader_reject h]

/-- A header naming no live log: `hbm_read_db` returns 1, changes no log and
unlinks the file. -/
theorem hbmReadDb_unlink {object : String} {rest : List DbValue}
    (hh : HeaderOk pre post vals (some object) rest) (hf : hbmFindObject H tb object = none) :
    hbmReadDb H clock (some pre) (some post) tb (some vals) = some ⟨1, tb, true⟩ := by
  simp [hbmReadDb, readHeader_of_headerOk hh, hf]

/-- A header naming a live log, then frames with their names set, then a rest
that begins with no frame: the frames are added, and at `FILE_END` the log is
marked clean. -/
theorem hbmReadDb_live (hok : tb.All (ObjOk H)) {rest rest' : List DbValue}
    {fs : List DbFrame} {object : String} (hh : HeaderOk pre post vals (some object) rest)
    (hf : (hbmFindObject H tb object).isSome) (hdec : rest = fs.flatMap DbFrame.values ++ rest')
    (hno : NoFrameAt rest') (hn : ∀ f ∈ fs, f.Named) :
    ∃ tb₁, addFrames H object clock 0 tb fs = some tb₁ ∧ (hbmFindObject H tb₁ object).isSome ∧
      hbmReadDb H clock (some pre) (some post) tb (some vals) =
        some ⟨endCode rest', if endCode rest' = 1 then
          modifyObject H tb₁ object (fun h => { h with dirty := false }) else tb₁, false⟩ := by
  obtain ⟨tb₁, hrun, -, hf₁⟩ := addFrames_some object clock fs 0 tb hok hf hn
  obtain ⟨g, hg⟩ := Option.isSome_iff_exists.mp hf
  refine ⟨tb₁, hrun, hf₁, ?_⟩
  simp [hbmReadDb, readHeader_of_headerOk hh, hg, hdec, readEntries_frames object clock hno, hrun]

end Read

/-- **`hbm_read_db` loads the complete frames** of any stream whose object
name, lines and tag names are set, on a well-formed table with both salts of
`cfg` set. It does not fault, and:
(a) it returns 1 exactly when the stream begins with a supported header with
the right salts, and then either no live log has the file's name, or frames
follow and then `FILE_END`;
(b) without such a header nothing changes; with no live log of that name the
file is unlinked and nothing changes; otherwise the table ends as
`hbm_history_add`, in stream order, on the complete frames before the first
failed read or wrong magic leaves it;
(c) when it returns 1 for a live log, that log is clean. -/
theorem hbmReadDb_adds_frames {pre post : String} {tb : Table} (hok : tb.All (ObjOk H))
    (clock : Nat → String) (vals : List DbValue)
    (hnamed : ∀ object rest, HeaderOk pre post vals object rest → object.isSome ∧
      ∀ (fs : List DbFrame) (rest' : List DbValue), rest = fs.flatMap DbFrame.values ++ rest' →
        NoFrameAt rest' → ∀ f ∈ fs, f.Named) :
    ∃ out, hbmReadDb H clock (some pre) (some post) tb (some vals) = some out ∧
      (out.ret = 1 ↔ ∃ object rest, HeaderOk pre post vals (some object) rest ∧
        (hbmFindObject H tb object = none ∨
          ∃ (fs : List DbFrame) (r : List DbValue),
            rest = fs.flatMap DbFrame.values ++ .int32 magicFileEnd :: r)) ∧
      ((¬ ∃ object rest, HeaderOk pre post vals object rest) → out = ⟨0, tb, false⟩) ∧
      (∀ object rest, HeaderOk pre post vals (some object) rest →
        hbmFindObject H tb object = none → out = ⟨1, tb, true⟩) ∧
      (∀ object rest, HeaderOk pre post vals (some object) rest →
        (hbmFindObject H tb object).isSome →
        ∃ (fs : List DbFrame) (rest' : List DbValue) (tb₁ : Table),
          rest = fs.flatMap DbFrame.values ++ rest' ∧ NoFrameAt rest' ∧
          addFrames H object clock 0 tb fs = some tb₁ ∧ out.unlink = false ∧
          out.table = (if out.ret = 1 then
            modifyObject H tb₁ object (fun h => { h with dirty := false }) else tb₁) ∧
          (out.ret = 1 → ∃ g, hbmFindObject H out.table object = some g ∧ g.dirty = false)) := by
  by_cases hhdr : ∃ object rest, HeaderOk pre post vals object rest
  swap
  · -- no supported header
    refine ⟨_, hbmReadDb_reject clock hhdr, ?_, fun _ => rfl, fun o r h => absurd ⟨_, _, h⟩ hhdr,
      fun o r h => absurd ⟨_, _, h⟩ hhdr⟩
    simp only [show (0 : Int) ≠ 1 by decide, false_iff]
    rintro ⟨o, r, h, -⟩
    exact hhdr ⟨_, _, h⟩
  obtain ⟨object', rest, hh⟩ := hhdr
  obtain ⟨object, rfl⟩ := Option.isSome_iff_exists.mp (hnamed _ _ hh).1
  -- every header the stream has is this one
  have huniq : ∀ o r, HeaderOk pre post vals (some o) r → o = object ∧ r = rest := fun o r h =>
    have := h.unique hh
    ⟨Option.some.inj this.1, this.2⟩
  cases hfo : hbmFindObject H tb object with
  | none =>
    -- no live log of that name
    refine ⟨_, hbmReadDb_unlink clock hh hfo, ?_, fun hn => absurd ⟨_, _, hh⟩ hn,
      fun _ _ _ _ => rfl, fun o r h hf => ?_⟩
    · exact iff_of_true rfl ⟨object, rest, hh, .inl hfo⟩
    · obtain ⟨rfl, -⟩ := huniq o r h
      simp [hfo] at hf
  | some g =>
    -- a live log: the frames go in
    obtain ⟨fs, rest', hdec, hno⟩ := exists_frames rest
    obtain ⟨tb₁, hrun, hf₁, hout⟩ := hbmReadDb_live clock hok hh (by simp [hfo]) hdec hno
      ((hnamed _ _ hh).2 fs rest' hdec hno)
    refine ⟨_, hout, ?_, fun hn => absurd ⟨_, _, hh⟩ hn, fun o r h hn => ?_, fun o r h _ => ?_⟩
    · refine (endCode_eq_one_iff hdec hno).trans ⟨fun he => ⟨object, rest, hh, .inr he⟩, ?_⟩
      rintro ⟨o, r, h, hr⟩
      obtain ⟨rfl, rfl⟩ := huniq o r h
      exact hr.resolve_left (by simp [hfo])
    · obtain ⟨rfl, -⟩ := huniq o r h
      simp [hfo] at hn
    · obtain ⟨rfl, rfl⟩ := huniq o r h
      refine ⟨fs, rest', tb₁, hdec, hno, hrun, rfl, rfl, fun he => ?_⟩
      obtain ⟨g₁, hg₁⟩ := Option.isSome_iff_exists.mp hf₁
      obtain ⟨-, -, -, -, hfind⟩ :=
        @modifyObject_of_found H tb₁ o g₁ (fun h => { h with dirty := false }) hg₁ rfl
      refine ⟨{ g₁ with dirty := false }, ?_, rfl⟩
      rw [if_pos (show endCode rest' = 1 from he)]
      exact hfind

/-- A frame of the sample file: one `time` tag and a line. -/
def sampleFrame : DbFrame := ⟨100, [(some "time", some "100")], some "hi", by decide⟩

/-- A file for the sample log `#a`: the header, one frame and `FILE_END`. -/
def sampleFile : List DbValue :=
  headerValues 5000 "pre" "post" (some "#a") 2 86400 ++ sampleFrame.values ++
    [.int32 magicFileEnd]

theorem hbmReadDb_adds_frames_sample :
    sampleRun.table.All (ObjOk Host.sample) ∧
    (∀ object rest, HeaderOk "pre" "post" sampleFile object rest → object.isSome ∧
      ∀ (fs : List DbFrame) (rest' : List DbValue), rest = fs.flatMap DbFrame.values ++ rest' →
        NoFrameAt rest' → ∀ f ∈ fs, f.Named) ∧
    ∃ out, hbmReadDb Host.sample (fun _ => "") (some "pre") (some "post") sampleRun.table
      (some sampleFile) = some out := by
  have hok := reachable_objOk (fun _ h => h.1) sampleRun_reachable
  have hh : HeaderOk "pre" "post" sampleFile (some "#a")
      (sampleFrame.values ++ [.int32 magicFileEnd]) :=
    ⟨5000, 2, 86400, by decide, by decide, by simp [sampleFile]⟩
  have hnamed : ∀ object rest, HeaderOk "pre" "post" sampleFile object rest → object.isSome ∧
      ∀ (fs : List DbFrame) (rest' : List DbValue), rest = fs.flatMap DbFrame.values ++ rest' →
        NoFrameAt rest' → ∀ f ∈ fs, f.Named := fun object rest h => by
    obtain ⟨rfl, rfl⟩ := h.unique hh
    refine ⟨rfl, fun fs rest' hdec hno => ?_⟩
    obtain ⟨rfl, -⟩ := frames_unique
      (show [sampleFrame].flatMap DbFrame.values ++ [.int32 magicFileEnd] =
        fs.flatMap DbFrame.values ++ rest' by simpa using hdec)
      (noFrameAt_of_head (by decide)) hno
    simp [DbFrame.Named, sampleFrame]
  exact ⟨hok, hnamed, (hbmReadDb_adds_frames hok _ _ hnamed).imp fun _ h => h.1⟩

/-! ## NULL strings in the files

`hbm_read_db` checks the two salts it reads for NULL, but not the object
name, the lines or the tag names, and `hbm_read_masterdb` takes whatever
salts `master.db` holds, NULL ones included. -/

section Null

variable (clock : Nat → String) {pre post : String} {vals rest : List DbValue}

/-- **A NULL object name faults**: it reaches `hbm_find_object`. -/
theorem hbmReadDb_null_object (tb : Table) (hh : HeaderOk pre post vals none rest) :
    hbmReadDb H clock (some pre) (some post) tb (some vals) = none := by
  simp [hbmReadDb, readHeader_of_headerOk hh]

/-- **A NULL line faults**: the first frame of a live log's file reaches
`hbm_history_add` with it. -/
theorem hbmReadDb_null_line {tb : Table} {object : String} {f : DbFrame} {r : List DbValue}
    (hh : HeaderOk pre post vals (some object) rest) (hf : (hbmFindObject H tb object).isSome)
    (hr : rest = f.values ++ r) (hl : f.line = none) :
    hbmReadDb H clock (some pre) (some post) tb (some vals) = none := by
  obtain ⟨g, hg⟩ := Option.isSome_iff_exists.mp hf
  have hv : f.values ++ r = .int32 magicEntryStart :: (f.values.tail ++ r) := by
    simp [DbFrame.values]
  simp [hbmReadDb, readHeader_of_headerOk hh, hg, hr, hv,
    readEntries_entry H object clock (readEntry_values f r), hl]

/-- The files of a boot whose `master.db` holds a NULL pre-salt, with the
sample file as `x.db`. -/
def nullSaltDisk : Disk := fun path =>
  if path = "history/master.db" then some [.int32 5000, .str none, .str (some "post")]
  else if path = "history/x.db" then some sampleFile
  else none

end Null

/-- A frame whose second tag has a NULL name, after a `time` tag. -/
def nullNameFrame : DbFrame :=
  ⟨100, [(some "time", some "100"), (none, some "x")], some "hi", by decide⟩

/-- A frame with a NULL line. -/
def nullLineFrame : DbFrame := ⟨100, [(some "time", some "100")], none, by decide⟩

set_option maxRecDepth 4000 in
/-- **NULL strings from the files reach the reader**: a `master.db` with a NULL
pre-salt passes the boot's post-test and leaves `cfg.prehash` NULL, so
`hbm_read_db` on `x.db` faults in `strcmp`; a NULL object name and a NULL line
fault; and a tag with a NULL name after the `time` tag is stored. -/
theorem null_strings_reach_the_reader :
    ((boot Host.sample nullSaltDisk persistEntries okIO).map fun s =>
      (s.cfg.prehash, (hbmReadDb Host.sample (fun _ => "") s.cfg.prehash s.cfg.posthash s.table
        (s.disk "history/x.db")).isNone)) = some (none, true) ∧
    hbmReadDb Host.sample (fun _ => "") (some "pre") (some "post") sampleRun.table
      (some (headerValues 5000 "pre" "post" none 2 86400 ++ [.int32 magicFileEnd])) = none ∧
    hbmReadDb Host.sample (fun _ => "") (some "pre") (some "post") sampleRun.table
      (some (headerValues 5000 "pre" "post" (some "#a") 2 86400 ++ nullLineFrame.values ++
        [.int32 magicFileEnd])) = none ∧
    ((hbmReadDb Host.sample (fun _ => "") (some "pre") (some "post") sampleRun.table
      (some (headerValues 5000 "pre" "post" (some "#a") 2 86400 ++ nullNameFrame.values ++
        [.int32 magicFileEnd]))).bind fun out =>
      (hbmFindObject Host.sample out.table "#a").map fun g =>
        (out.ret, g.entries.getLast?.map Entry.mtags)) =
      some (1, some [⟨some "time", some "100"⟩, ⟨none, some "x"⟩]) := by
  have hname : HeaderOk "pre" "post" (headerValues 5000 "pre" "post" (some "#a") 2 86400 ++
      nullNameFrame.values ++ [.int32 magicFileEnd]) (some "#a")
      ([nullNameFrame].flatMap DbFrame.values ++ [.int32 magicFileEnd]) :=
    ⟨5000, 2, 86400, by decide, by decide, by simp⟩
  have hline : HeaderOk "pre" "post" (headerValues 5000 "pre" "post" (some "#a") 2 86400 ++
      nullLineFrame.values ++ [.int32 magicFileEnd]) (some "#a")
      (nullLineFrame.values ++ [.int32 magicFileEnd]) :=
    ⟨5000, 2, 86400, by decide, by decide, by simp⟩
  refine ⟨by decide, hbmReadDb_null_object _ _ ⟨5000, 2, 86400, by decide, by decide, rfl⟩,
    hbmReadDb_null_line _ hline (by decide) rfl rfl, ?_⟩
  simp only [hbmReadDb, readHeader_of_headerOk hname, Option.some_bind,
    readEntries_frames "#a" (fun _ => "")
      (noFrameAt_of_head (by decide) : NoFrameAt [.int32 magicFileEnd])]
  decide

end HistoryBackendMem
