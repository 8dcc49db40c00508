import HistoryBackendMem.Store.Table

/-!
# Store — the invariant of every object

`LogOk h cells`: the chain of `h` is `cells` (`LogInv`), every entry's `t` is
the time of its first `time` tag (what `hbm_duplicate_mtags` computed), and
`num_lines` is within `max_lines` or the log is empty (a log whose limit was
set to `0` or below has been emptied by the count pass).

Each object-level operation keeps it: `hbm_history_add`'s body, the cleanup of
`hbm_history_set_limit` and of the timer, and any change of `dirty`.
-/

namespace HistoryBackendMem

variable (H : Host)

/-- The invariant of one object with chain `cells`. -/
structure LogOk (h : HistoryLogObject) (cells : List (Nat × Entry)) : Prop where
  inv : LogInv h cells
  timed : ∀ c ∈ cells, c.2.WellTimed H
  bound : h.numLines ≤ h.maxLines ∨ h.numLines = 0

/-- Some chain makes `h` well formed. -/
def ObjInv (h : HistoryLogObject) : Prop := ∃ cells, LogOk H h cells

variable {H}

theorem LogOk.new (H : Host) (name : String) : LogOk H (.new name) [] :=
  ⟨LogInv.new name, by simp, .inr rfl⟩

theorem LogOk.setDirty {h : HistoryLogObject} {cells : List (Nat × Entry)} (ho : LogOk H h cells)
    (d : Bool) : LogOk H { h with dirty := d } cells :=
  ⟨⟨ho.inv.seg, ho.inv.nodup, ho.inv.head, ho.inv.tail, ho.inv.numLines, ho.inv.fresh⟩,
    ho.timed, ho.bound⟩

/-- A negative limit leaves the log empty. -/
theorem LogOk.nil_of_neg {h : HistoryLogObject} {cells : List (Nat × Entry)} (ho : LogOk H h cells)
    (hm : h.maxLines < 0) : cells = [] := by
  have := ho.inv.numLines
  rcases ho.bound with hb | hb <;> apply List.eq_nil_of_length_eq_zero <;> omega

/-- What the count pass keeps is within the limit, or empty. -/
theorem countCells_bound (m : Int) (cells : List (Nat × Entry)) :
    ((countCells m cells).length : Int) ≤ m ∨ (countCells m cells).length = 0 := by
  simp only [countCells, List.length_drop]
  omega

/-- **`hbm_history_add` keeps the invariant**, appending the new entry. -/
theorem LogOk.addToObject {h h' : HistoryLogObject} {cells : List (Nat × Entry)}
    (ho : LogOk H h cells) {mtags : List MessageTag} {line clock : String} {e : Entry}
    (he : newEntry H mtags line clock = some e)
    (hadd : addToObject H mtags line clock h = some h') :
    LogOk H h' (pushBounded (addLimit h) cells (h.nextAddr, e)) := by
  by_cases hm : 0 ≤ h.maxLines
  · obtain ⟨h'', hrun, hi', hmax, -⟩ := addToObject_spec H ho.inv hm he
    cases hadd.symm.trans hrun
    refine ⟨hi', fun c hc => ?_, .inl ?_⟩
    · simp only [pushBounded, List.mem_append, List.mem_singleton] at hc
      rcases hc with hc | rfl
      · exact ho.timed c (by split at hc <;> [exact List.mem_of_mem_tail hc; exact hc])
      · exact newEntry_wellTimed H he
    · have hlen := ho.inv.numLines
      have hle : (cells.length : Int) ≤ addLimit h := by
        unfold addLimit; split <;> rcases ho.bound with hb | hb <;> omega
      rw [hi'.numLines, hmax]
      have hpos : 1 ≤ addLimit h := by unfold addLimit; split <;> omega
      by_cases hf : addLimit h ≤ cells.length <;> simp [pushBounded, hf] <;> omega
  · have hnil := ho.nil_of_neg (by omega)
    subst hnil
    have hhead : h.head = none := ho.inv.head
    have hn : h.numLines = 0 := ho.inv.numLines
    have hne : h.maxLines ≠ 0 := by omega
    simp [HistoryBackendMem.addToObject, hne, hn, delHead, hhead, show h.maxLines ≤ 0 by omega]
      at hadd

/-- **`hbm_history_add` on an object that exists**: it does not fault, and the
object `hbm_find_object` finds next time holds the new entry at its end. -/
theorem hbmHistoryAdd_of_found {tb : Table} {object : String} {g : HistoryLogObject}
    {cells : List (Nat × Entry)} (hf : hbmFindObject H tb object = some g) (ho : LogOk H g cells)
    (hm : 0 ≤ g.maxLines) {mtags : List MessageTag} {line clock : String} {e : Entry}
    (he : newEntry H mtags line clock = some e) :
    ∃ tb' g', hbmHistoryAdd H tb object mtags line clock = some tb' ∧
      hbmFindObject H tb' object = some g' ∧
      LogOk H g' (pushBounded (addLimit g) cells (g.nextAddr, e)) ∧ g'.maxLines = addLimit g := by
  obtain ⟨g', hrun, -, hmax, hname, -⟩ := addToObject_spec H ho.inv hm he
  obtain ⟨i, -, -, hw, hfind⟩ := withObject_of_found H hf hrun hname
  exact ⟨_, g', hw, hfind, ho.addToObject he hrun, hmax⟩

/-- **A cleanup keeps the invariant** with the cells it keeps; whatever the
chain was, the count pass leaves it within the limit or empty. -/
theorem LogOk.cleanup {h h' : HistoryLogObject} {cells : List (Nat × Entry)}
    (hi : LogInv h cells) (ht : ∀ c ∈ cells, c.2.WellTimed H) {now : Int}
    (hc : hbmHistoryCleanup now h = some h') : LogOk H h' (cleanupCells now h cells) := by
  obtain ⟨h'', hrun, hs⟩ := hbmHistoryCleanup_spec hi now
  cases hc.symm.trans hrun
  refine ⟨hs.inv, fun c hcm => ht c (hs.sublist.subset hcm), ?_⟩
  have := countCells_bound h.maxLines (ageCells (now - h.maxTime) h cells)
  rw [hs.inv.numLines, hs.maxLines]
  unfold cleanupCells
  omega

end HistoryBackendMem
