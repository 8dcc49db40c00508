import HistoryBackendMem.Log.Chain
import Mathlib.Data.Finset.Card

/-!
# Log — adding and deleting one line

`hbm_duplicate_mtags`, `hbm_history_add_line` and `hbm_history_del_line`, and
the invariant `LogInv h cells` every log keeps: its heap holds `cells` as one
segment from `NULL` to `NULL`, with distinct addresses, `head`/`tail` at its
ends, `num_lines` its length, and every address below the allocator's mark.

The two lemmas `LogInv.addLine` and `LogInv.delLine` are the whole interface
the later modules use: appending moves the abstract sequence `cells` to
`cells ++ [new]`, deleting the node at `p` removes exactly that cell.
-/

namespace HistoryBackendMem

variable (H : Host)

/-! ## The operations -/

/-- `find_mtag(m, token)`: the first tag with that name, `some none` when there
is none. `strcmp` reads every name up to the match, so a NULL name met first is
a fault (`none`). -/
def findMtag (token : String) : List MessageTag → Option (Option MessageTag)
  | [] => some none
  | n :: m =>
    match n.name with
    | none => none
    | some s => if s = token then some (some n) else findMtag token m

/-- `hbm_duplicate_mtags(l, m)`: the new line's tags and its `t`. The tags are
copied in order; when none is named `time`, one holding `clock` (the
`YYYY-MM-DDThh:mm:ss.sssZ` text of `gettimeofday`) is put in front. `t` is
`server_time_to_unix_time` of the first `time` tag. -/
def hbmDuplicateMtags (m : List MessageTag) (clock : String) :
    Option (List MessageTag × Int) :=
  (findMtag "time" m).map fun
    | some n => (m, H.serverTimeToUnixTime n.value)
    | none => (⟨some "time", some clock⟩ :: m, H.serverTimeToUnixTime (some clock))

/-- The `oldest_t` update of `hbm_history_add_line` and of both passes of
`hbm_history_cleanup`: `if ((t < oldest_t) || (oldest_t == 0)) oldest_t = t`,
`0` standing for "unknown". -/
def oldestStep (o t : Int) : Int := if t < o ∨ o = 0 then t else o

/-- The entry `hbm_history_add_line` stores for `mtags`, `line` at wall clock
`clock`. -/
def newEntry (mtags : List MessageTag) (line : String) (clock : String) : Option Entry :=
  (hbmDuplicateMtags H mtags clock).map fun d => ⟨d.2, d.1, line⟩

/-- Every tag has a name, as the host's message tags always do. -/
def TagsNamed (m : List MessageTag) : Prop := ∀ n ∈ m, n.name.isSome

/-- The entry carries a `time` tag, found before any NULL name, and `t` is the
time of the first one: what `hbm_duplicate_mtags` establishes. -/
def Entry.WellTimed (e : Entry) : Prop :=
  ∃ n, findMtag "time" e.mtags = some (some n) ∧ e.t = H.serverTimeToUnixTime n.value

theorem findMtag_ne_none {m : List MessageTag} (hm : TagsNamed m) (token : String) :
    findMtag token m ≠ none := by
  induction m with
  | nil => simp [findMtag]
  | cons n m ih =>
    obtain ⟨s, hs⟩ := Option.isSome_iff_exists.mp (hm n (List.mem_cons_self _ _))
    have ih := ih fun k hk => hm k (List.mem_cons_of_mem _ hk)
    simp only [findMtag, hs]
    split <;> simp [ih]

/-- With named tags, copying them never faults. -/
theorem newEntry_isSome {m : List MessageTag} (hm : TagsNamed m) (line clock : String) :
    (newEntry H m line clock).isSome := by
  simpa [newEntry, hbmDuplicateMtags, Option.isSome_iff_ne_none] using findMtag_ne_none hm "time"

theorem newEntry_wellTimed {m : List MessageTag} {line clock : String} {e : Entry}
    (he : newEntry H m line clock = some e) : e.WellTimed H := by
  simp only [newEntry, hbmDuplicateMtags, Option.map_map, Option.map_eq_some'] at he
  obtain ⟨o, hf, rfl⟩ := he
  cases o with
  | some n => exact ⟨n, hf, rfl⟩
  | none => exact ⟨⟨some "time", some clock⟩, by simp [findMtag], rfl⟩

/-- The stored entry holds the text it was given, and the given tags after the
`time` tag that may have been put in front. -/
theorem newEntry_line_mtags {m : List MessageTag} {line clock : String} {e : Entry}
    (he : newEntry H m line clock = some e) :
    e.line = line ∧ (e.mtags = m ∨ e.mtags = ⟨some "time", some clock⟩ :: m) := by
  simp only [newEntry, hbmDuplicateMtags, Option.map_map, Option.map_eq_some'] at he
  obtain ⟨o, -, rfl⟩ := he
  cases o <;> simp

/-- **Copying a well-timed entry reproduces it**: its tags already hold a
`time` tag, so nothing is added, and `t` is recomputed from the same tag. -/
theorem newEntry_of_wellTimed {e : Entry} (he : e.WellTimed H) (clock : String) :
    newEntry H e.mtags e.line clock = some e := by
  obtain ⟨n, hn, ht⟩ := he
  simp [newEntry, hbmDuplicateMtags, hn, ← ht]

/-- The linking half of `hbm_history_add_line`: a fresh node holding `e` at the
allocator's mark, appended after `tail`. -/
def linkLine (h : HistoryLogObject) (e : Entry) : HistoryLogObject :=
  let p := h.nextAddr
  let h' : HistoryLogObject :=
    match h.tail with
    | some q =>
      { h with lines := Function.update (h.lines.setNext q (some p)) p
                  (some (.ofEntry (some q) none e)),
               tail := some p }
    | none =>
      { h with lines := Function.update h.lines p (some (.ofEntry none none e)),
               head := some p, tail := some p }
  { h' with nextAddr := p + 1, dirty := true, numLines := h.numLines + 1,
            oldestT := oldestStep h.oldestT e.t }

/-- `hbm_history_add_line(h, mtags, line)`: the copied entry, linked in. -/
def hbmHistoryAddLine (h : HistoryLogObject) (mtags : List MessageTag) (line : String)
    (clock : String) : Option HistoryLogObject :=
  (newEntry H mtags line clock).map (linkLine h)

/-- `hbm_history_del_line(h, l)` for the node `l` at address `p`. `oldest_t` is
left to the caller, as the C comment says. -/
def hbmHistoryDelLine (h : HistoryLogObject) (p : Nat) (l : HistoryLogLine) :
    HistoryLogObject :=
  let lines := (h.lines.setNextOpt l.prev l.next).setPrevOpt l.next l.prev
  { h with head := if h.head = some p then l.next else h.head,
           tail := if h.tail = some p then l.prev else h.tail,
           lines := Function.update lines p none,
           dirty := true,
           numLines := h.numLines - 1 }

section Fields
variable (h : HistoryLogObject) (p : Nat) (l : HistoryLogLine)

@[simp] theorem hbmHistoryDelLine_oldestT : (hbmHistoryDelLine h p l).oldestT = h.oldestT := rfl
@[simp] theorem hbmHistoryDelLine_maxLines : (hbmHistoryDelLine h p l).maxLines = h.maxLines := rfl
@[simp] theorem hbmHistoryDelLine_maxTime : (hbmHistoryDelLine h p l).maxTime = h.maxTime := rfl
@[simp] theorem hbmHistoryDelLine_name : (hbmHistoryDelLine h p l).name = h.name := rfl
@[simp] theorem hbmHistoryDelLine_dirty : (hbmHistoryDelLine h p l).dirty = true := rfl
@[simp] theorem hbmHistoryDelLine_nextAddr :
    (hbmHistoryDelLine h p l).nextAddr = h.nextAddr := rfl
@[simp] theorem hbmHistoryDelLine_numLines :
    (hbmHistoryDelLine h p l).numLines = h.numLines - 1 := rfl
@[simp] theorem hbmHistoryDelLine_head :
    (hbmHistoryDelLine h p l).head = if h.head = some p then l.next else h.head := rfl
@[simp] theorem hbmHistoryDelLine_tail :
    (hbmHistoryDelLine h p l).tail = if h.tail = some p then l.prev else h.tail := rfl
@[simp] theorem hbmHistoryDelLine_lines :
    (hbmHistoryDelLine h p l).lines =
      Function.update ((h.lines.setNextOpt l.prev l.next).setPrevOpt l.next l.prev) p none :=
  rfl

variable (e : Entry)

@[simp] theorem linkLine_maxLines : (linkLine h e).maxLines = h.maxLines := by
  unfold linkLine; split <;> rfl
@[simp] theorem linkLine_maxTime : (linkLine h e).maxTime = h.maxTime := by
  unfold linkLine; split <;> rfl
@[simp] theorem linkLine_name : (linkLine h e).name = h.name := by
  unfold linkLine; split <;> rfl
@[simp] theorem linkLine_nextAddr : (linkLine h e).nextAddr = h.nextAddr + 1 := by
  unfold linkLine; split <;> rfl
@[simp] theorem linkLine_dirty : (linkLine h e).dirty = true := by
  unfold linkLine; split <;> rfl
@[simp] theorem linkLine_numLines : (linkLine h e).numLines = h.numLines + 1 := by
  unfold linkLine; split <;> rfl
@[simp] theorem linkLine_oldestT : (linkLine h e).oldestT = oldestStep h.oldestT e.t := by
  unfold linkLine; split <;> rfl

end Fields

/-! ## The invariant -/

/-- The heap of `h` holds `cells` as its chain of lines. -/
structure LogInv (h : HistoryLogObject) (cells : List (Nat × Entry)) : Prop where
  seg : Seg h.lines none cells none
  nodup : (cells.map Prod.fst).Nodup
  head : h.head = firstPtr cells none
  tail : h.tail = lastPtr none cells
  numLines : h.numLines = cells.length
  fresh : ∀ c ∈ cells, c.1 < h.nextAddr

/-- The empty log of a freshly allocated object. -/
theorem LogInv.new (name : String) : LogInv (.new name) [] :=
  ⟨trivial, List.nodup_nil, rfl, rfl, rfl, by simp⟩

/-- The chain is no longer than the number of nodes ever allocated. -/
theorem LogInv.length_le {h : HistoryLogObject} {cells : List (Nat × Entry)}
    (hi : LogInv h cells) : cells.length ≤ h.nextAddr := by
  have hsub : (cells.map Prod.fst).toFinset ⊆ Finset.range h.nextAddr := by
    intro a ha
    simp only [List.mem_toFinset, List.mem_map] at ha
    obtain ⟨c, hc, rfl⟩ := ha
    exact Finset.mem_range.mpr (hi.fresh c hc)
  simpa [List.toFinset_card_of_nodup hi.nodup] using Finset.card_le_card hsub

/-- The chain of lines `h->head` starts, as the C loops walk it. -/
def HistoryLogObject.chain (h : HistoryLogObject) : Option (List (Nat × Entry)) :=
  walk h.lines h.nextAddr h.head

/-- The entries of `h`, head to tail: the abstract view of a log. -/
def HistoryLogObject.entries (h : HistoryLogObject) : List Entry :=
  (h.chain.getD []).map Prod.snd

/-- The invariant pins the chain down: walking from `head` finds `cells`. -/
theorem LogInv.chain_eq {h : HistoryLogObject} {cells : List (Nat × Entry)}
    (hi : LogInv h cells) : h.chain = some cells := by
  rw [HistoryLogObject.chain, hi.head]
  exact walk_seg hi.seg _ hi.length_le

theorem LogInv.entries_eq {h : HistoryLogObject} {cells : List (Nat × Entry)}
    (hi : LogInv h cells) : h.entries = cells.map Prod.snd := by
  simp [HistoryLogObject.entries, hi.chain_eq]

theorem LogInv.numLines_nonneg {h : HistoryLogObject} {cells : List (Nat × Entry)}
    (hi : LogInv h cells) : 0 ≤ h.numLines := by
  rw [hi.numLines]; omega

/-! ## Appending -/

/-- **Appending a line** (`hbm_history_add_line`) puts the new entry at the end
of the chain, at the allocator's mark. -/
theorem LogInv.linkLine {h : HistoryLogObject} {cells : List (Nat × Entry)}
    (hi : LogInv h cells) (e : Entry) :
    LogInv (linkLine h e) (cells ++ [(h.nextAddr, e)]) := by
  have hp : h.nextAddr ∉ cells.map Prod.fst := fun hm => by
    obtain ⟨c, hc, he⟩ := List.mem_map.mp hm
    exact absurd (hi.fresh c hc) (by omega)
  have hfresh : ∀ c ∈ cells ++ [(h.nextAddr, e)], c.1 < h.nextAddr + 1 := by
    intro c hc
    rcases List.mem_append.mp hc with hc | hc
    · exact Nat.lt_succ_of_lt (hi.fresh c hc)
    · simp [List.mem_singleton.mp hc]
  have hnodup : ((cells ++ [(h.nextAddr, e)]).map Prod.fst).Nodup := by
    simpa [List.nodup_append, hi.nodup] using hp
  rcases List.eq_nil_or_concat cells with rfl | ⟨xs, c, rfl⟩
  · have ht : h.tail = none := hi.tail
    refine ⟨?_, hnodup, ?_, ?_, ?_, hfresh⟩ <;>
      simp [HistoryBackendMem.linkLine, ht, hi.numLines, HistoryLogLine.ofEntry]
  rw [List.concat_eq_append] at *
  have ht : h.tail = some c.1 := hi.tail.trans (lastPtr_concat _ _ _)
  have hc : c.1 ∉ xs.map Prod.fst := fun hm => by
    have hnd := hi.nodup
    rw [List.map_append] at hnd
    exact (List.nodup_append.mp hnd).2.2 hm (List.mem_singleton_self _)
  refine ⟨?_, hnodup, ?_, ?_, ?_, hfresh⟩
  · rw [seg_append]
    refine ⟨?_, ?_⟩
    · simp only [HistoryBackendMem.linkLine, ht]
      exact (hi.seg.setNext_last hc _).update_ne hp _
    · simp [HistoryBackendMem.linkLine, ht, lastPtr_concat, HistoryLogLine.ofEntry]
  · simp [HistoryBackendMem.linkLine, ht, hi.head, firstPtr_append]
  · simp only [HistoryBackendMem.linkLine, ht]
    exact (lastPtr_concat none (xs ++ [c]) (h.nextAddr, e)).symm
  · rw [linkLine_numLines, hi.numLines]
    simp only [List.length_append, List.length_singleton]
    omega

/-! ## Deleting -/

/-- The node a log holds at `p`, read off its chain. -/
theorem LogInv.node {h : HistoryLogObject} {xs ys : List (Nat × Entry)} {p : Nat} {e : Entry}
    (hi : LogInv h (xs ++ (p, e) :: ys)) :
    h.lines p = some (.ofEntry (lastPtr none xs) (firstPtr ys none) e) :=
  ((seg_append _ _ _ _ _).mp hi.seg).2.1

theorem firstPtr_mem {ys : List (Nat × Entry)} {b : Nat} (h : firstPtr ys none = some b) :
    b ∈ ys.map Prod.fst := by
  cases ys with
  | nil => cases h
  | cons c rest => cases h; simp

/-- **Deleting a line** (`hbm_history_del_line`) removes exactly its cell. -/
theorem LogInv.delLine {h : HistoryLogObject} {xs ys : List (Nat × Entry)} {p : Nat}
    {e : Entry} (hi : LogInv h (xs ++ (p, e) :: ys)) :
    LogInv (hbmHistoryDelLine h p (.ofEntry (lastPtr none xs) (firstPtr ys none) e))
      (xs ++ ys) := by
  have hnd := hi.nodup
  simp only [List.map_append, List.map_cons, List.nodup_append, List.nodup_cons] at hnd
  obtain ⟨hndx, ⟨hpy, hndy⟩, hdis⟩ := hnd
  have hpx : p ∉ xs.map Prod.fst := fun hm => hdis hm (List.mem_cons_self _ _)
  have hxy : ∀ a ∈ xs.map Prod.fst, a ∉ ys.map Prod.fst :=
    fun _ ha hb => hdis ha (List.mem_cons_of_mem _ hb)
  obtain ⟨hsx, -, hsy⟩ := (seg_append _ _ _ _ _).mp hi.seg
  refine ⟨?_, ?_, ?_, ?_, ?_, ?_⟩
  · simp only [hbmHistoryDelLine_lines, HistoryLogLine.ofEntry_prev,
      HistoryLogLine.ofEntry_next, seg_append]
    constructor
    · refine ((hsx.setNextOpt_last hndx _).setPrevOpt_ne (fun b hb => ?_) _).update_ne hpx _
      exact fun hbx => hxy b hbx (firstPtr_mem hb)
    · refine ((hsy.setNextOpt_ne (fun a ha => ?_) _).setPrevOpt_first hndy _ _).update_ne hpy _
      rcases lastPtr_mem ha with ha | ha
      · cases ha
      · exact hxy a ha
  · rw [List.map_append, List.nodup_append]
    exact ⟨hndx, hndy, fun _ ha hb => hdis ha (List.mem_cons_of_mem _ hb)⟩
  · rw [hbmHistoryDelLine_head, hi.head]
    rcases xs with _ | ⟨c, xs⟩
    · simp
    · have hc : c.1 ≠ p := fun hc => hpx (by simp [← hc])
      simp [hc]
  · rw [hbmHistoryDelLine_tail, hi.tail, lastPtr_append, lastPtr_cons]
    rcases ys with _ | ⟨c, ys⟩
    · simp
    · obtain ⟨q, hq, hlast⟩ := lastPtr_of_ne_nil (List.cons_ne_nil c ys) (some p)
      have hqp : q ≠ p := fun hqp => hpy (hqp ▸ hq)
      rw [hlast, if_neg (by simpa using hqp), ← hlast, lastPtr_append]
      exact lastPtr_indep (List.cons_ne_nil c ys) _ _
  · simp only [hbmHistoryDelLine_numLines, hi.numLines, List.length_append, List.length_cons]
    omega
  · intro c hc
    simp only [hbmHistoryDelLine_nextAddr]
    exact hi.fresh c (by simp only [List.mem_append, List.mem_cons] at hc ⊢; tauto)

end HistoryBackendMem
