import HistoryBackendMem.Log.Line

/-!
# Log — `hbm_history_cleanup`

Both passes of `hbm_history_cleanup` walk the chain from `head`, reading
`l_next = l->next` before deciding whether to delete `l`, and recompute
`oldest_t` over the lines they keep. They differ only in the test: the age pass
deletes a line older than the red line, the count pass deletes while
`num_lines > max_lines`. `cleanupLoop` is that loop once, with the test as a
parameter; `agePass` and `countPass` are the two guarded loops of the C
function.

The loop's meaning on the abstract sequence is `sweep`: the cells it keeps and
the cache it leaves (`cleanupLoop_spec`). For the two tests `sweep` is a
`filter` and a `drop` (`sweep_tooOld`, `sweep_overLimit`), which gives
`hbmHistoryCleanup_spec`.
-/

namespace HistoryBackendMem

/-! ## The loop -/

/-- The loop of both passes:
`for (l = p; l; l = l_next) { l_next = l->next; if (drop) { del_line; continue; } ... }`.
`drop n m t` is the pass's test on `num_lines`, `max_lines` and `l->t`. The walk
is bounded by `fuel` and is `none` when it runs out or meets a freed address;
the passes give it the allocator's mark, which bounds every chain
(`LogInv.length_le`). -/
def cleanupLoop (drop : Int → Int → Int → Bool) :
    Nat → HistoryLogObject → Option Nat → Option HistoryLogObject
  | _, h, none => some h
  | 0, _, some _ => none
  | fuel + 1, h, some p =>
    match h.lines p with
    | none => none
    | some l =>
      if drop h.numLines h.maxLines l.t then
        cleanupLoop drop fuel (hbmHistoryDelLine h p l) l.next
      else
        cleanupLoop drop fuel { h with oldestT := oldestStep h.oldestT l.t } l.next

/-- The age pass's test, `l->t < redline`. -/
def tooOld (redline : Int) (_ _ t : Int) : Bool := decide (t < redline)

/-- The count pass's test, `h->num_lines > h->max_lines`. -/
def overLimit (n m _ : Int) : Bool := decide (m < n)

/-- `if (h->oldest_t < redline) { h->oldest_t = 0; <loop> }`. -/
def agePass (redline : Int) (h : HistoryLogObject) : Option HistoryLogObject :=
  if h.oldestT < redline then
    cleanupLoop (tooOld redline) h.nextAddr { h with oldestT := 0 } h.head
  else some h

/-- `if (h->num_lines > h->max_lines) { h->oldest_t = 0; <loop> }`. -/
def countPass (h : HistoryLogObject) : Option HistoryLogObject :=
  if h.maxLines < h.numLines then
    cleanupLoop overLimit h.nextAddr { h with oldestT := 0 } h.head
  else some h

/-- `hbm_history_cleanup(h)` at `TStime() = now`: the age pass against
`redline = now - h->max_time`, then the count pass. The subtraction is exact:
C's `long redline` holds the same value whenever it fits a `long`
(`LongRange`), and results about the red line are stated under that range. -/
def hbmHistoryCleanup (now : Int) (h : HistoryLogObject) : Option HistoryLogObject :=
  (agePass (now - h.maxTime) h).bind countPass

/-! ## What the loop does to the sequence -/

/-- The cells the loop keeps out of `rest`, and the cache it leaves, with `n`
lines in the log, limit `m` and cache `o` on entry. -/
def sweep (drop : Int → Int → Int → Bool) (m : Int) :
    Int → Int → List (Nat × Entry) → List (Nat × Entry) × Int
  | _, o, [] => ([], o)
  | n, o, c :: rest =>
    if drop n m c.2.t then sweep drop m (n - 1) o rest
    else ((c :: (sweep drop m n (oldestStep o c.2.t) rest).1),
          (sweep drop m n (oldestStep o c.2.t) rest).2)

/-- The cache recomputed over `cs`, starting from `o`. -/
def oldestOf (o : Int) (cs : List (Nat × Entry)) : Int :=
  cs.foldl (fun o c => oldestStep o c.2.t) o

theorem sweep_sublist (drop : Int → Int → Int → Bool) (m : Int) :
    ∀ (n o : Int) (rest : List (Nat × Entry)), (sweep drop m n o rest).1.Sublist rest
  | _, _, [] => List.Sublist.slnil
  | n, o, c :: rest => by
    unfold sweep
    split
    · exact (sweep_sublist drop m _ _ rest).cons c
    · exact (sweep_sublist drop m _ _ rest).cons₂ c

/-- The age pass keeps the cells at or past the red line. -/
theorem sweep_tooOld (r m : Int) : ∀ (n o : Int) (rest : List (Nat × Entry)),
    sweep (tooOld r) m n o rest =
      (rest.filter fun c => ¬ c.2.t < r, oldestOf o (rest.filter fun c => ¬ c.2.t < r))
  | _, _, [] => rfl
  | n, o, c :: rest => by
    by_cases hc : c.2.t < r
    · simp [sweep, tooOld, hc, sweep_tooOld r m _ _ rest]
    · have hc' : r ≤ c.2.t := not_lt.mp hc
      simp [sweep, tooOld, hc, hc', sweep_tooOld r m _ _ rest, oldestOf, List.filter_cons]

/-- The count pass keeps all but the first `n - m` cells. -/
theorem sweep_overLimit (m : Int) : ∀ (n o : Int) (rest : List (Nat × Entry)),
    sweep overLimit m n o rest =
      (rest.drop (n - m).toNat, oldestOf o (rest.drop (n - m).toNat))
  | _, o, [] => by simp [sweep, oldestOf]
  | n, o, c :: rest => by
    by_cases hc : m < n
    · have hk : (n - m).toNat = (n - 1 - m).toNat + 1 := by omega
      simp [sweep, overLimit, hc, sweep_overLimit m _ _ rest, hk]
    · have hk : (n - m).toNat = 0 := by omega
      simp [sweep, overLimit, hc, sweep_overLimit m _ _ rest, hk, oldestOf]

/-! ## The loop against the chain -/

/-- `h'` is `h` with its chain replaced by `cells'`, a part of `cells`, and
marked dirty when a line went. -/
structure Swept (h : HistoryLogObject) (cells : List (Nat × Entry))
    (h' : HistoryLogObject) (cells' : List (Nat × Entry)) : Prop where
  inv : LogInv h' cells'
  sublist : cells'.Sublist cells
  dirty : h'.dirty = (h.dirty || decide (cells'.length < cells.length))
  name : h'.name = h.name
  maxLines : h'.maxLines = h.maxLines
  maxTime : h'.maxTime = h.maxTime
  nextAddr : h'.nextAddr = h.nextAddr

theorem Swept.trans {h h₁ h₂ : HistoryLogObject} {c c₁ c₂ : List (Nat × Entry)}
    (s₁ : Swept h c h₁ c₁) (s₂ : Swept h₁ c₁ h₂ c₂) : Swept h c h₂ c₂ := by
  have l₁ := s₁.sublist.length_le
  have l₂ := s₂.sublist.length_le
  refine ⟨s₂.inv, s₂.sublist.trans s₁.sublist, ?_, s₂.name.trans s₁.name,
    s₂.maxLines.trans s₁.maxLines, s₂.maxTime.trans s₁.maxTime,
    s₂.nextAddr.trans s₁.nextAddr⟩
  rw [s₂.dirty, s₁.dirty]
  by_cases hc : c₂.length < c.length <;> by_cases h1 : c₁.length < c.length <;>
    simp [hc, h1] <;> omega

theorem Swept.refl {h : HistoryLogObject} {cells : List (Nat × Entry)} (hi : LogInv h cells) :
    Swept h cells h cells :=
  ⟨hi, List.Sublist.refl _, by simp, rfl, rfl, rfl, rfl⟩

/-- Zeroing the cache before a pass is invisible to `Swept`. -/
theorem Swept.of_setOldest {h h' : HistoryLogObject} {cells cells' : List (Nat × Entry)} {o : Int}
    (s : Swept { h with oldestT := o } cells h' cells') : Swept h cells h' cells' :=
  ⟨s.inv, s.sublist, s.dirty, s.name, s.maxLines, s.maxTime, s.nextAddr⟩

/-- The cache is not part of the chain. -/
theorem LogInv.setOldest {h : HistoryLogObject} {cells : List (Nat × Entry)}
    (hi : LogInv h cells) (o : Int) : LogInv { h with oldestT := o } cells :=
  ⟨hi.seg, hi.nodup, hi.head, hi.tail, hi.numLines, hi.fresh⟩

/-- **The loop's spec**: walking `rest`, the tail of the chain after `kept`,
with fuel to spare, the loop ends and leaves `kept` followed by what `sweep`
keeps, with `sweep`'s cache. -/
theorem cleanupLoop_spec (drop : Int → Int → Int → Bool) :
    ∀ (rest kept : List (Nat × Entry)) (h : HistoryLogObject) (fuel : Nat),
    LogInv h (kept ++ rest) → rest.length ≤ fuel →
    ∃ h', cleanupLoop drop fuel h (firstPtr rest none) = some h' ∧
      Swept h (kept ++ rest) h' (kept ++ (sweep drop h.maxLines h.numLines h.oldestT rest).1) ∧
      h'.oldestT = (sweep drop h.maxLines h.numLines h.oldestT rest).2
  | [], kept, h, fuel, hi, _ => by
    refine ⟨h, by cases fuel <;> rfl,
      ⟨by simpa [sweep] using hi, by simp [sweep], by simp [sweep], rfl, rfl, rfl, rfl⟩, rfl⟩
  | c :: rest, kept, h, fuel, hi, hf => by
    obtain ⟨fuel, rfl⟩ : ∃ f, fuel = f + 1 := ⟨fuel - 1, by simp at hf; omega⟩
    have hnode := hi.node
    by_cases hd : drop h.numLines h.maxLines c.2.t = true
    · obtain ⟨h', hrun, hs, ho⟩ :=
        cleanupLoop_spec drop rest kept _ fuel hi.delLine (by simp at hf; omega)
      refine ⟨h', ?_, ?_, ?_⟩
      · simpa [cleanupLoop, hnode, hd] using hrun
      · have hsw : Swept h (kept ++ c :: rest) _ (kept ++ rest) :=
          ⟨hi.delLine, by simp, by simp, rfl, rfl, rfl, rfl⟩
        simpa [sweep, hd] using hsw.trans hs
      · simpa [sweep, hd] using ho
    · have hi' : LogInv { h with oldestT := oldestStep h.oldestT c.2.t } ((kept ++ [c]) ++ rest) := by
        simpa using hi.setOldest _
      obtain ⟨h', hrun, hs, ho⟩ := cleanupLoop_spec drop rest (kept ++ [c]) _ fuel hi'
        (by simp at hf; omega)
      refine ⟨h', ?_, ?_, ?_⟩
      · simpa [cleanupLoop, hnode, hd] using hrun
      · simp only [sweep, hd, Bool.false_eq_true, if_false]
        refine ⟨by simpa using hs.inv, by simpa using hs.sublist, ?_, hs.name, hs.maxLines,
          hs.maxTime, hs.nextAddr⟩
        simpa using hs.dirty
      · simpa [sweep, hd] using ho

/-! ## The two passes -/

/-- What the age pass keeps: the cells at or past `redline` when the cache
says some line is older, all of them otherwise. -/
def ageCells (redline : Int) (h : HistoryLogObject) (cells : List (Nat × Entry)) :
    List (Nat × Entry) :=
  if h.oldestT < redline then cells.filter (fun c => ¬ c.2.t < redline) else cells

/-- What the count pass keeps: the last `max_lines` cells. -/
def countCells (m : Int) (cells : List (Nat × Entry)) : List (Nat × Entry) :=
  cells.drop (cells.length - m).toNat

/-- What `hbm_history_cleanup` at `now` keeps of the chain `cells` of `h`. -/
def cleanupCells (now : Int) (h : HistoryLogObject) (cells : List (Nat × Entry)) :
    List (Nat × Entry) :=
  countCells h.maxLines (ageCells (now - h.maxTime) h cells)

theorem agePass_spec {h : HistoryLogObject} {cells : List (Nat × Entry)} (hi : LogInv h cells)
    (r : Int) : ∃ h', agePass r h = some h' ∧ Swept h cells h' (ageCells r h cells) ∧
      h'.oldestT = if h.oldestT < r then oldestOf 0 (ageCells r h cells) else h.oldestT := by
  unfold agePass ageCells
  split
  · obtain ⟨h', hrun, hs, ho⟩ :=
      cleanupLoop_spec (tooOld r) cells [] _ h.nextAddr (hi.setOldest 0) hi.length_le
    rw [← hi.head] at hrun
    simp only [sweep_tooOld, List.nil_append] at hs ho
    exact ⟨h', hrun, hs.of_setOldest, ho⟩
  · exact ⟨h, rfl, .refl hi, rfl⟩

theorem countPass_spec {h : HistoryLogObject} {cells : List (Nat × Entry)} (hi : LogInv h cells) :
    ∃ h', countPass h = some h' ∧ Swept h cells h' (countCells h.maxLines cells) ∧
      h'.oldestT = if h.maxLines < cells.length then oldestOf 0 (countCells h.maxLines cells)
        else h.oldestT := by
  by_cases hlt : h.maxLines < h.numLines
  · obtain ⟨h', hrun, hs, ho⟩ :=
      cleanupLoop_spec overLimit cells [] _ h.nextAddr (hi.setOldest 0) hi.length_le
    have hk : (sweep overLimit h.maxLines h.numLines 0 cells).1 = countCells h.maxLines cells := by
      rw [sweep_overLimit, hi.numLines]; rfl
    rw [← hi.head] at hrun
    rw [List.nil_append, List.nil_append, hk] at hs
    refine ⟨h', by simpa [countPass, hlt] using hrun, hs.of_setOldest, ?_⟩
    rw [ho, sweep_overLimit, ← hi.numLines, if_pos hlt]
    simp only [countCells, ← hi.numLines]
  · have hk : countCells h.maxLines cells = cells := by
      rw [countCells, ← hi.numLines, show (h.numLines - h.maxLines).toNat = 0 by omega,
        List.drop_zero]
    rw [hk, ← hi.numLines, if_neg hlt]
    exact ⟨h, by simp [countPass, hlt], .refl hi, rfl⟩

/-- **`hbm_history_cleanup`**: it ends, keeps `cleanupCells` of the chain in
order, and touches nothing but the chain, the count, the cache and `dirty`. -/
theorem hbmHistoryCleanup_spec {h : HistoryLogObject} {cells : List (Nat × Entry)}
    (hi : LogInv h cells) (now : Int) :
    ∃ h', hbmHistoryCleanup now h = some h' ∧ Swept h cells h' (cleanupCells now h cells) := by
  obtain ⟨h₁, hrun₁, hs₁, -⟩ := agePass_spec hi (now - h.maxTime)
  obtain ⟨h₂, hrun₂, hs₂, -⟩ := countPass_spec hs₁.inv
  refine ⟨h₂, by simp [hbmHistoryCleanup, hrun₁, hrun₂], ?_⟩
  rw [hs₁.maxLines] at hs₂
  exact hs₁.trans hs₂

/-- A cleanup that deletes nothing: every line at or past the red line, and no
more lines than the limit. -/
theorem cleanupCells_eq_self {h : HistoryLogObject} {cells : List (Nat × Entry)}
    (hi : LogInv h cells) {now : Int} (hage : ∀ c ∈ cells, now - h.maxTime ≤ c.2.t)
    (hcount : h.numLines ≤ h.maxLines) : cleanupCells now h cells = cells := by
  have hk : ageCells (now - h.maxTime) h cells = cells := by
    rw [ageCells]
    split
    · exact List.filter_eq_self.mpr fun c hc => by simpa using hage c hc
    · rfl
  rw [cleanupCells, hk, countCells, ← hi.numLines, show (h.numLines - h.maxLines).toNat = 0 by omega,
    List.drop_zero]

/-! ## What a cleanup never touches -/

/-- The loop changes neither the name nor the limits, whatever the chain. -/
theorem cleanupLoop_frame (drop : Int → Int → Int → Bool) :
    ∀ (fuel : Nat) (h h' : HistoryLogObject) (p : Option Nat),
      cleanupLoop drop fuel h p = some h' →
      h'.name = h.name ∧ h'.maxLines = h.maxLines ∧ h'.maxTime = h.maxTime
  | _, h, h', none, hc => by
    simp only [cleanupLoop, Option.some.injEq] at hc
    subst hc; exact ⟨rfl, rfl, rfl⟩
  | 0, _, _, some _, hc => by cases hc
  | fuel + 1, h, h', some p, hc => by
    simp only [cleanupLoop] at hc
    split at hc
    · cases hc
    · split at hc <;> exact (cleanupLoop_frame drop fuel _ _ _ hc :)

/-- **A cleanup keeps the name and the limits**, whatever the chain. -/
theorem hbmHistoryCleanup_frame {now : Int} {h h' : HistoryLogObject}
    (hc : hbmHistoryCleanup now h = some h') :
    h'.name = h.name ∧ h'.maxLines = h.maxLines ∧ h'.maxTime = h.maxTime := by
  obtain ⟨h₁, hage, hcount⟩ := Option.bind_eq_some.mp hc
  have f₁ : h₁.name = h.name ∧ h₁.maxLines = h.maxLines ∧ h₁.maxTime = h.maxTime := by
    unfold agePass at hage
    split at hage
    · exact (cleanupLoop_frame _ _ _ _ _ hage :)
    · cases hage; exact ⟨rfl, rfl, rfl⟩
  have f₂ : h'.name = h₁.name ∧ h'.maxLines = h₁.maxLines ∧ h'.maxTime = h₁.maxTime := by
    unfold countPass at hcount
    split at hcount
    · exact (cleanupLoop_frame _ _ _ _ _ hcount :)
    · cases hcount; exact ⟨rfl, rfl, rfl⟩
  exact ⟨f₂.1.trans f₁.1, f₂.2.1.trans f₁.2.1, f₂.2.2.trans f₁.2.2⟩

end HistoryBackendMem
