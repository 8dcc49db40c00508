import HistoryBackendMem.Store.Table

/-!
# Store — `hbm_history_request`

The request walks the chain twice: once to count the lines past the red line
(`lines_sendable`), once to copy them, skipping the first `lines_to_skip`. The
skip counter `cnt` only moves for lines past the red line, because `++cnt`
stands behind `&&`. Both walks read the same chain and nothing writes it in
between, so the model walks it once (`walk`) and runs both loops over the
cells found.

`requestLoop_eq` gives the second loop's meaning, `S.drop skip` for the
sequence `S` of lines past the red line, and `hbmHistoryRequest_eq` the
request's. The red line is a `long` and `lines_to_skip` an `int`: the model
wraps them as C stores them (`cLong`, `cInt`), and `drop_linesToSkip` says
that within those types the request returns the last
`max 0 (min last_lines |S|)` entries of `S`.
-/

namespace HistoryBackendMem

variable (H : Host)

/-- `HistoryFilter`: the two fields the backend reads. -/
structure HistoryFilter where
  lastLines : Int
  lastSeconds : Int
deriving DecidableEq, Repr

/-- `HistoryResult`: the object's name and the lines of `r->log`, head to tail. -/
structure HistoryResult where
  object : String
  log : List Entry
deriving DecidableEq, Repr

/-- `duplicate_log_line(l)`: the text and the tags copied through
`hbm_duplicate_mtags`, which recomputes `t`. -/
def duplicateLogLine (e : Entry) (clock : String) : Option Entry :=
  newEntry H e.mtags e.line clock

/-! ## C's integer types -/

/-- The value a C `int` (32 bits) holds once the result `x` of an arithmetic
operation is stored in it: the two's complement wrap that compilers emit for
an overflowing `-`. -/
def cInt (x : Int) : Int := (x + 2147483648) % 4294967296 - 2147483648

/-- Likewise for a C `long`, 64 bits on the hosts the server runs on. -/
def cLong (x : Int) : Int :=
  (x + 9223372036854775808) % 18446744073709551616 - 9223372036854775808

/-- `x` fits a C `long`. -/
def LongRange (x : Int) : Prop := -9223372036854775808 ≤ x ∧ x < 9223372036854775808

instance (x : Int) : Decidable (LongRange x) := inferInstanceAs (Decidable (_ ∧ _))

theorem cInt_of_range {x : Int} (h₁ : -2147483648 ≤ x) (h₂ : x < 2147483648) : cInt x = x := by
  unfold cInt; omega

theorem cLong_of_range {x : Int} (h : LongRange x) : cLong x = x := by
  unfold cLong; unfold LongRange at h; omega

/-! ## The request -/

/-- `redline`, a `long`: a filter may only narrow the object's `max_time`. -/
def requestRedline (h : HistoryLogObject) (filter : Option HistoryFilter) (now : Int) : Int :=
  match filter with
  | some f =>
    if f.lastSeconds ≠ 0 ∧ f.lastSeconds < h.maxTime then cLong (now - f.lastSeconds)
    else cLong (now - h.maxTime)
  | none => cLong (now - h.maxTime)

/-- `lines_to_skip`, an `int`, from the count of the first walk. -/
def linesToSkip (filter : Option HistoryFilter) (linesSendable : Int) : Int :=
  match filter with
  | some f => if f.lastLines < linesSendable then cInt (linesSendable - f.lastLines) else 0
  | none => 0

/-- The second walk: `if (l->t >= redline && (++cnt > lines_to_skip))` copy `l`;
`none` when a copy faults. -/
def requestLoop (redline skip : Int) (clock : String) :
    Int → List (Nat × Entry) → Option (List Entry)
  | _, [] => some []
  | cnt, c :: rest =>
    if redline ≤ c.2.t then
      if skip < cnt + 1 then
        (duplicateLogLine H c.2 clock).bind fun n =>
          (requestLoop redline skip clock (cnt + 1) rest).map (List.cons n)
      else requestLoop redline skip clock (cnt + 1) rest
    else requestLoop redline skip clock cnt rest

/-- `hbm_history_request(object, filter)` at `TStime() = now`: `some none` is
the NULL result, `none` a fault of the walk. -/
def hbmHistoryRequest (tb : Table) (object : String) (filter : Option HistoryFilter)
    (now : Int) (clock : String) : Option (Option HistoryResult) :=
  match hbmFindObject H tb object with
  | none => some none
  | some h =>
    let redline := requestRedline h filter now
    (walk h.lines h.nextAddr h.head).bind fun cells =>
      let linesSendable : Int := (cells.filter fun c => redline ≤ c.2.t).length
      (requestLoop H redline (linesToSkip filter linesSendable) clock 0 cells).map fun log =>
        some ⟨object, log⟩

/-! ## Meaning -/

/-- **The second walk** copies the lines past the red line after the first
`skip - cnt` of them. -/
theorem requestLoop_eq (redline skip : Int) (clock : String) (cnt : Int)
    (cells : List (Nat × Entry)) (hw : ∀ c ∈ cells, c.2.WellTimed H) :
    requestLoop H redline skip clock cnt cells =
      some (((cells.map Prod.snd).filter fun e => redline ≤ e.t).drop (skip - cnt).toNat) := by
  induction cells generalizing cnt with
  | nil => simp [requestLoop]
  | cons c rest ih =>
    have ih := fun k => ih k (fun d hd => hw d (List.mem_cons_of_mem _ hd))
    have hdup : duplicateLogLine H c.2 clock = some c.2 :=
      newEntry_of_wellTimed H (hw c (by simp)) _
    by_cases ht : redline ≤ c.2.t
    · by_cases hs : skip < cnt + 1
      · have h0 : (skip - cnt).toNat = 0 := by omega
        have h1 : (skip - (cnt + 1)).toNat = 0 := by omega
        simp [requestLoop, ht, hs, hdup, ih, h0, h1]
      · have h1 : (skip - cnt).toNat = (skip - (cnt + 1)).toNat + 1 := by omega
        simp [requestLoop, ht, hs, ih, h1]
    · simp [requestLoop, ht, ih]

theorem drop_eq_drop_of_le_or_eq {α : Type} {xs : List α} {n m : Nat}
    (h : n = m ∨ (xs.length ≤ n ∧ xs.length ≤ m)) : xs.drop n = xs.drop m := by
  rcases h with rfl | ⟨hn, hm⟩
  · rfl
  · rw [List.drop_eq_nil_of_le hn, List.drop_eq_nil_of_le hm]

/-- **`hbm_history_request` on a well-formed log**: the sequence `S` of lines
past the red line, after the first `lines_to_skip`, in log order. -/
theorem hbmHistoryRequest_eq {tb : Table} {object : String} {h : HistoryLogObject}
    {cells : List (Nat × Entry)} (hf : hbmFindObject H tb object = some h)
    (hi : LogInv h cells) (hw : ∀ c ∈ cells, c.2.WellTimed H)
    (filter : Option HistoryFilter) (now : Int) (clock : String) :
    hbmHistoryRequest H tb object filter now clock =
      some (some ⟨object,
        let S := h.entries.filter fun e => requestRedline h filter now ≤ e.t
        S.drop (linesToSkip filter S.length).toNat⟩) := by
  have hwalk : walk h.lines h.nextAddr h.head = some cells := hi.chain_eq
  have hlen : (cells.filter fun c => requestRedline h filter now ≤ c.2.t).length =
      ((cells.map Prod.snd).filter fun e => requestRedline h filter now ≤ e.t).length := by
    rw [List.filter_map, List.length_map]; rfl
  simp only [hbmHistoryRequest, hf, hwalk, Option.some_bind, hi.entries_eq,
    requestLoop_eq H _ _ _ 0 cells hw, hlen, Option.map_some', Int.sub_zero]

/-! ## Within C's types -/

/-- How many of the `n` lines past the red line a request returns, as the
filter asks: the last `last_lines`, and none for a `last_lines` below one. -/
def requestCount (filter : Option HistoryFilter) (n : Nat) : Nat :=
  match filter with
  | some f => (max 0 (min f.lastLines n)).toNat
  | none => n

/-- The red line as the subtraction itself: `now - last_seconds` for a filter
with `last_seconds != 0` below `max_time`, `now - max_time` otherwise. -/
def exactRedline (h : HistoryLogObject) (filter : Option HistoryFilter) (now : Int) : Int :=
  match filter with
  | some f =>
    if f.lastSeconds ≠ 0 ∧ f.lastSeconds < h.maxTime then now - f.lastSeconds else now - h.maxTime
  | none => now - h.maxTime

/-- C's `long` holds the red line of a log with limit `maxTime`: `now - max_time`
and, with a filter, `now - last_seconds` fit. -/
def RedlineFits (maxTime : Int) (filter : Option HistoryFilter) (now : Int) : Prop :=
  LongRange (now - maxTime) ∧ ∀ f, filter = some f → LongRange (now - f.lastSeconds)

/-- C's types hold the request's arithmetic: the red line fits a `long`, and
`lines_sendable - last_lines` an `int` for every count up to `num_lines`. -/
def RequestFits (h : HistoryLogObject) (filter : Option HistoryFilter) (now : Int) : Prop :=
  RedlineFits h.maxTime filter now ∧ ∀ f, filter = some f → h.numLines - 2147483648 < f.lastLines

/-- Within a `long`, the red line is the subtraction itself. -/
theorem requestRedline_of_fits {h : HistoryLogObject} {filter : Option HistoryFilter} {now : Int}
    (hfit : RedlineFits h.maxTime filter now) :
    requestRedline h filter now = exactRedline h filter now := by
  obtain ⟨hm, hf⟩ := hfit
  cases filter with
  | none => exact cLong_of_range hm
  | some f =>
    simp only [requestRedline, exactRedline]
    split
    · exact cLong_of_range (hf f rfl)
    · exact cLong_of_range hm

/-- Within an `int`, `lines_to_skip` leaves the last `requestCount` lines. -/
theorem drop_linesToSkip {α : Type} (S : List α) {filter : Option HistoryFilter}
    (hk : ∀ f, filter = some f → (S.length : Int) - 2147483648 < f.lastLines) :
    S.drop (linesToSkip filter S.length).toNat = S.drop (S.length - requestCount filter S.length) := by
  refine drop_eq_drop_of_le_or_eq ?_
  cases filter with
  | none => simp [linesToSkip, requestCount]
  | some f =>
    have := hk f rfl
    simp only [linesToSkip, requestCount]
    split
    · rw [cInt_of_range (by omega) (by omega)]; omega
    · omega

/-- With no matching object the result is NULL. -/
theorem hbmHistoryRequest_of_none {tb : Table} {object : String}
    (hf : hbmFindObject H tb object = none) (filter : Option HistoryFilter) (now : Int)
    (clock : String) : hbmHistoryRequest H tb object filter now clock = some none := by
  simp [hbmHistoryRequest, hf]

end HistoryBackendMem
