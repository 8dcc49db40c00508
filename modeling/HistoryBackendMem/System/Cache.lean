import HistoryBackendMem.System.Invariant

/-!
# System — the cache `oldest_t`

`hbm_history_cleanup` skips its age pass when the cached `oldest_t` is at or
past the red line. It is right when the cache is a lower bound of the
entries' times (`hbmHistoryCleanup_of_lowerBound`), and two paths of
`hbm_history_add` leave a cache that is not: the eviction of the head does not
recompute it, and a time of `0` (what a malformed `time` tag gives) is taken
for the cache's `unknown`, so the next line's time replaces it. The runs below
show each on the sample host, and that sixty timer calls in a row then leave a
line past its age in the log.
-/

namespace HistoryBackendMem

variable {H : Host}

/-! ## When the cleanup is right -/

/-- Both passes skipped: a cache at or past the red line and a log within its
limit leave the object as it is. -/
theorem hbmHistoryCleanup_of_skip {h : HistoryLogObject} {now : Int}
    (hage : now - h.maxTime ≤ h.oldestT) (hcount : h.numLines ≤ h.maxLines) :
    hbmHistoryCleanup now h = some h := by
  simp [hbmHistoryCleanup, agePass, countPass, not_lt.mpr hage, not_lt.mpr hcount]

/-- **With a cache that is a lower bound, the cleanup is right**: while the
red line `now - max_time` fits C's `long`, where the model's red line is C's,
the entries left are the last `max_lines` of those at or past it, in order. -/
theorem hbmHistoryCleanup_of_lowerBound {h : HistoryLogObject} {cells : List (Nat × Entry)}
    (hi : LogInv h cells) (hlow : ∀ c ∈ cells, h.oldestT ≤ c.2.t) (now : Int)
    (hfit : LongRange (now - h.maxTime)) :
    cLong (now - h.maxTime) = now - h.maxTime ∧
    ∃ h', hbmHistoryCleanup now h = some h' ∧
      h'.entries = (let S := h.entries.filter fun e => now - h.maxTime ≤ e.t
                    S.drop (S.length - h.maxLines).toNat) := by
  obtain ⟨h', hrun, hs⟩ := hbmHistoryCleanup_spec hi now
  refine ⟨cLong_of_range hfit, h', hrun, ?_⟩
  have hage : ageCells (now - h.maxTime) h cells = cells.filter fun c => ¬ c.2.t < now - h.maxTime := by
    rw [ageCells]
    split
    · rfl
    · refine (List.filter_eq_self.mpr fun c hc => ?_).symm
      have := hlow c hc
      simp only [decide_eq_true_eq, not_lt]
      omega
  have hfilt : (cells.map Prod.snd).filter (fun e => decide (now - h.maxTime ≤ e.t)) =
      (cells.filter fun c => ¬ c.2.t < now - h.maxTime).map Prod.snd := by
    rw [List.filter_map]
    congr 1
    exact List.filter_congr fun c _ => by simp [not_lt]
  simp only [hs.inv.entries_eq, hi.entries_eq, hfilt, cleanupCells, hage, countCells,
    List.map_drop, List.length_map]

/-- The sample log a day after its line: the age pass deletes the line. -/
theorem hbmHistoryCleanup_of_lowerBound_sample :
    sampleLog.chain = some [(0, ⟨100, [timeTag "100"], "hello"⟩)] ∧
    LongRange (86501 - sampleLog.maxTime) ∧
    (cLong (86501 - sampleLog.maxTime) = 86501 - sampleLog.maxTime ∧
      ∃ h', hbmHistoryCleanup 86501 sampleLog = some h' ∧
        h'.entries = (let S := sampleLog.entries.filter fun e => 86501 - sampleLog.maxTime ≤ e.t
                      S.drop (S.length - sampleLog.maxLines).toNat)) ∧
    (let S := sampleLog.entries.filter fun e => 86501 - sampleLog.maxTime ≤ e.t
     S.drop (S.length - sampleLog.maxLines).toNat) = [] := by
  have hc : sampleLog.chain = some [(0, ⟨100, [timeTag "100"], "hello"⟩)] := by decide
  obtain ⟨⟨cells, hl⟩, -⟩ := reachable_objOk (fun _ h => h.1) sampleRun_reachable
    (hbmHash Host.sample "#a") sampleLog
    (hbmFindObject_mem (rfl : hbmFindObject Host.sample sampleRun.table "#a" = some sampleLog))
  cases hl.inv.chain_eq.symm.trans hc
  have hfit : LongRange (86501 - sampleLog.maxTime) := by decide
  exact ⟨hc, hfit, hbmHistoryCleanup_of_lowerBound hl.inv (by decide) 86501 hfit, by decide⟩

/-! ## The cache after `hbm_history_add` -/

/-- Days from `1970-01-01` to the proleptic Gregorian date `y-m-d`. -/
def daysFromCivil (y m d : Int) : Int :=
  let y := if m ≤ 2 then y - 1 else y
  let era := y / 400
  let yoe := y - era * 400
  let doy := (153 * (if 2 < m then m - 3 else m + 9) + 2) / 5 + d - 1
  era * 146097 + (yoe * 365 + yoe / 4 - yoe / 100 + doy) - 719468

/-- The seconds since the epoch of a value that starts `YYYY-MM-DDTHH:MM:SS`,
read as UTC (the fraction and the zone of a `time` tag are ignored), or `0`
for any other value. -/
def utcSeconds : List Char → Int
  | y₁ :: y₂ :: y₃ :: y₄ :: '-' :: m₁ :: m₂ :: '-' :: d₁ :: d₂ :: 'T' ::
      h₁ :: h₂ :: ':' :: i₁ :: i₂ :: ':' :: s₁ :: s₂ :: _ =>
    daysFromCivil (decimalSeconds [y₁, y₂, y₃, y₄]) (decimalSeconds [m₁, m₂])
        (decimalSeconds [d₁, d₂]) * 86400 +
      decimalSeconds [h₁, h₂] * 3600 + decimalSeconds [i₁, i₂] * 60 + decimalSeconds [s₁, s₂]
  | _ => 0

/-- The sample host, reading `time` tags in the form the server writes them. -/
def Host.utc : Host :=
  { Host.sample with serverTimeToUnixTime := fun v => utcSeconds (v.getD "").data }

/-- **The eviction leaves a stale cache**: on a log limited to one line, the
line of `2024-01-01T00:00:00.000Z` makes way for one a hundred seconds later,
and `oldest_t` still holds the first time, neither `0` nor the minimum. -/
theorem oldestT_stale_after_eviction :
    Reachable Host.utc Op.HostOk (after Host.utc
      (Sys.init .zero .zero (fun _ => none) fun _ => false)
      [.setLimit "#a" 1 86400 0, .add "#a" [timeTag "2024-01-01T00:00:00.000Z"] "x" "",
        .add "#a" [timeTag "2024-01-01T00:01:40.000Z"] "y" ""]) ∧
    ((hbmFindObject Host.utc (after Host.utc
      (Sys.init .zero .zero (fun _ => none) fun _ => false)
      [.setLimit "#a" 1 86400 0, .add "#a" [timeTag "2024-01-01T00:00:00.000Z"] "x" "",
        .add "#a" [timeTag "2024-01-01T00:01:40.000Z"] "y" ""]).table "#a").map
      fun h => (h.entries.map Entry.t, h.oldestT)) = some ([1704067300], 1704067200) :=
  ⟨Reachable.after _ (.init _ rfl) (by simp [Op.HostOk, TagsNamed, timeTag]) (by decide), by decide⟩

/-- The run of the sentinel: a line of time `0`, then one of time `100`, on a
log that keeps lines for `10` seconds. -/
def sentinelRun : Sys :=
  after Host.sample (Sys.init .zero .zero (fun _ => none) fun _ => false)
    [.setLimit "#a" 50 10 0, .add "#a" [timeTag "0"] "x" "", .add "#a" [timeTag "100"] "y" ""]

theorem sentinelRun_reachable : Reachable Host.sample Op.HostOk sentinelRun :=
  Reachable.after _ (.init _ rfl) (by simp [Op.HostOk, TagsNamed, timeTag]) (by decide)

/-- **A time of `0` hides a line from the age pass**: after the sentinel run the
cache says `100`, and a cleanup at `105` (red line `95`) keeps the line of time
`0`. -/
theorem cleanup_keeps_expired_line :
    Reachable Host.sample Op.HostOk sentinelRun ∧
    ((hbmFindObject Host.sample sentinelRun.table "#a").bind fun h =>
      (hbmHistoryCleanup 105 h).map fun h' =>
        (h.entries.map Entry.t, h.oldestT, h'.maxTime, h'.entries.map Entry.t)) =
      some ([0, 100], 100, 10, [0, 100]) :=
  ⟨sentinelRun_reachable, by decide⟩

/-! ## Sixty timer calls -/

/-- Timer calls on a table their cleanups leave as it is, with `persist` off,
change nothing but the cursor. -/
theorem run_ticks_of_fixed (io : Fin hashTableSize → Nat → WriteIO) :
    ∀ (nows : List Int) (s : Sys), s.cfg.persist = false → s.hashnum < hashTableSize →
      s.table.All (fun h => ∀ now ∈ nows, hbmHistoryCleanup now h = some h) →
      ∃ hashnum, run H s (nows.map fun now => .tick now io) = some { s with hashnum }
  | [], s, _, _, _ => ⟨s.hashnum, rfl⟩
  | now :: nows, s, hp, hh, hfix => by
    have hstep : step H s (.tick now io) =
        some { s with hashnum := (s.hashnum + (historyCleanPerLoop + 1)) % hashTableSize } := by
      simp only [step, historyMemClean_of_fixed H hp hh fun b x hx =>
        hfix b x hx now (List.mem_cons_self _ _), Option.map_some']
    obtain ⟨hn, hrun⟩ := run_ticks_of_fixed io nows
      { s with hashnum := (s.hashnum + (historyCleanPerLoop + 1)) % hashTableSize } hp
      (Nat.mod_lt _ (by decide))
      fun b x hx now' hn' => hfix b x hx now' (List.mem_cons_of_mem _ hn')
    exact ⟨hn, by rw [List.map_cons, run, hstep, Option.some_bind, hrun]⟩

set_option maxRecDepth 10000 in
/-- **Sixty timer calls leave a line past its age**: after the sentinel run,
sixty calls of `history_mem_clean` at `105` (with `persist` off and from the
cursor `0`) change nothing, so the line of time `0` stays, `95` seconds past
the red line. -/
theorem sixty_ticks_keep_expired_line :
    Reachable Host.sample Op.HostOk sentinelRun ∧
    ∃ s', run Host.sample sentinelRun
        ((List.replicate historySpread 105).map fun now => .tick now fun _ _ => .ok) = some s' ∧
      ((hbmFindObject Host.sample s'.table "#a").map
        fun h => (h.entries.map Entry.t, h.maxTime)) = some ([0, 100], 10) := by
  have hskip : sentinelRun.table.All fun h => 105 - h.maxTime ≤ h.oldestT ∧ h.numLines ≤ h.maxLines := by
    unfold Table.All; decide
  obtain ⟨hn, hrun⟩ := @run_ticks_of_fixed Host.sample (fun _ _ => .ok)
    (List.replicate historySpread 105) sentinelRun rfl (by decide) fun b x hx now hnow => by
      rw [List.eq_of_mem_replicate hnow]
      exact hbmHistoryCleanup_of_skip (hskip b x hx).1 (hskip b x hx).2
  have hfind : ((hbmFindObject Host.sample sentinelRun.table "#a").map
      fun h => (h.entries.map Entry.t, h.maxTime)) = some ([0, 100], 10) := by decide
  exact ⟨sentinelRun_reachable, _, hrun, hfind⟩

end HistoryBackendMem
