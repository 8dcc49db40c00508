import HistoryBackendMem.System.Map

/-!
# System — the history service the backend implements

What the memory backend is for, said without hash chains, heap nodes or
caches: under each case-folded channel name it keeps a log, two limits and a
sequence of entries, oldest first. Adding pushes onto a bounded queue (a log
without a limit gets 50 lines and a day), setting a limit trims the log,
destroying forgets it, and a timer tick either leaves a log as it is or drops
exactly its entries older than `max_time` (which of the two depends on the
cached `oldest_t`, which the service does not see). A request is read off the
log.

`Table.service` reads the service off the table. In every state of a run
without boot loads on names that fit, each step of the model is a step of the
service (`step_service`) and each request is the service's
(`request_service`); the service's own invariant, no log over its limit, is
proved on the service (`ServiceStep.bounded`) and holds of the model through
the refinement.
-/

namespace HistoryBackendMem

/-! ## The service -/

/-- A log as the service keeps it: its limits and its entries, oldest first. -/
structure Log where
  maxLines : Int
  maxTime : Int
  entries : List Entry
deriving DecidableEq, Repr

/-- The log of a name seen for the first time: no limits, no entries. -/
def Log.empty : Log := ⟨0, 0, []⟩

/-- The service: the log kept under each case-folded name, if any. -/
abbrev Service := List Char → Option Log

/-- The last `m` entries. -/
def keepLast (m : Int) (es : List Entry) : List Entry := es.drop (es.length - m).toNat

/-- The entries at or past the log's horizon, `now - max_time`. -/
def Log.recent (now : Int) (l : Log) : List Entry :=
  l.entries.filter fun e => now - l.maxTime ≤ e.t

/-- Adding an entry: a log without a limit gets 50 lines and a day, and a full
log loses its oldest entry. -/
def Log.add (e : Entry) (l : Log) : Log :=
  let l := if l.maxLines = 0 then { l with maxLines := 50, maxTime := 86400 } else l
  { l with entries := pushBounded l.maxLines l.entries e }

/-- `l'` is `l` trimmed at `now`: the same limits, and the last `max_lines`
of its entries, with or without those past the horizon dropped first. -/
def Log.Trimmed (now : Int) (l l' : Log) : Prop :=
  l'.maxLines = l.maxLines ∧ l'.maxTime = l.maxTime ∧
    (l'.entries = keepLast l.maxLines l.entries ∨
      l'.entries = keepLast l.maxLines (l.recent now))

/-- `l'` is `l`, or `l` with exactly its entries past the horizon dropped. -/
def Log.Expired (now : Int) (l l' : Log) : Prop :=
  l' = l ∨ l' = { l with entries := l.recent now }

/-- One operation of the host on the service. The entry an add pushes is the
one `hbm_duplicate_mtags` makes of its tags. -/
inductive ServiceStep (H : Host) : Service → Op → Service → Prop where
  | add {svc : Service} {object : String} {mtags : List MessageTag} {line clock : String}
      {e : Entry} : newEntry H mtags line clock = some e →
      ServiceStep H svc (.add object mtags line clock)
        (Function.update svc (foldCase object)
          (some (((svc (foldCase object)).getD .empty).add e)))
  | setLimit {svc : Service} {object : String} {maxLines maxTime now : Int} {l' : Log} :
      Log.Trimmed now { (svc (foldCase object)).getD .empty with maxLines, maxTime } l' →
      ServiceStep H svc (.setLimit object maxLines maxTime now)
        (Function.update svc (foldCase object) (some l'))
  | request {svc : Service} {object : String} {filter : Option HistoryFilter} {now : Int}
      {clock : String} : ServiceStep H svc (.request object filter now clock) svc
  | destroy {svc : Service} {object : String} :
      ServiceStep H svc (.destroy object) (Function.update svc (foldCase object) none)
  | setModeP {svc : Service} {chname : String} : ServiceStep H svc (.setModeP chname) svc
  | unsetModeP {svc : Service} {chname : String} : ServiceStep H svc (.unsetModeP chname) svc
  | tick {svc svc' : Service} {now : Int} {io : Fin hashTableSize → Nat → WriteIO} :
      (∀ k, Option.Rel (Log.Expired now) (svc k) (svc' k)) → ServiceStep H svc (.tick now io) svc'
  | rehash {svc : Service} {entries : List ConfigEntry} {io : PosttestIO} :
      ServiceStep H svc (.rehash entries io) svc

/-- The red line of a request, as a C `long` holds it: a filter may only
narrow `max_time`. -/
def Log.redline (l : Log) (filter : Option HistoryFilter) (now : Int) : Int :=
  match filter with
  | some f => if f.lastSeconds ≠ 0 ∧ f.lastSeconds < l.maxTime then cLong (now - f.lastSeconds)
    else cLong (now - l.maxTime)
  | none => cLong (now - l.maxTime)

/-- What a request returns, read off the service: NULL for a name without a
log, otherwise the entries at or past the red line after the first
`lines_to_skip`, which within C's `int` leaves the last `requestCount`
(`drop_linesToSkip`). -/
def Service.request (svc : Service) (object : String) (filter : Option HistoryFilter)
    (now : Int) : Option HistoryResult :=
  (svc (foldCase object)).map fun l =>
    let S := l.entries.filter fun e => l.redline filter now ≤ e.t
    ⟨object, S.drop (linesToSkip filter S.length).toNat⟩

/-- No log holds more entries than its limit, and every limit is at least one
line. -/
def Service.Bounded (svc : Service) : Prop :=
  ∀ k l, svc k = some l → 1 ≤ l.maxLines ∧ (l.entries.length : Int) ≤ l.maxLines

/-! ## The service's invariant -/

section Bounded

variable {now : Int} {l l' : Log}

theorem keepLast_length_le (m : Int) (es : List Entry) (hm : 0 ≤ m) :
    ((keepLast m es).length : Int) ≤ m := by
  simp only [keepLast, List.length_drop]
  omega

theorem Log.Trimmed.bounded (ht : Log.Trimmed now l l') (hm : 1 ≤ l.maxLines) :
    1 ≤ l'.maxLines ∧ (l'.entries.length : Int) ≤ l'.maxLines := by
  obtain ⟨hml, -, he | he⟩ := ht <;> rw [hml] <;> refine ⟨hm, he ▸ keepLast_length_le _ _ (by omega)⟩

theorem Log.Expired.bounded (hx : Log.Expired now l l')
    (hb : 1 ≤ l.maxLines ∧ (l.entries.length : Int) ≤ l.maxLines) :
    1 ≤ l'.maxLines ∧ (l'.entries.length : Int) ≤ l'.maxLines := by
  rcases hx with rfl | rfl
  · exact hb
  · have := List.length_filter_le (fun e => now - l.maxTime ≤ e.t) l.entries
    exact ⟨hb.1, by simp only [Log.recent]; omega⟩

theorem Log.add_bounded (e : Entry) (hb : l = .empty ∨
    (1 ≤ l.maxLines ∧ (l.entries.length : Int) ≤ l.maxLines)) :
    1 ≤ (l.add e).maxLines ∧ ((l.add e).entries.length : Int) ≤ (l.add e).maxLines := by
  rcases hb with rfl | ⟨hm, hlen⟩
  · simp [Log.add, Log.empty, pushBounded]
  · have hne : l.maxLines ≠ 0 := by omega
    simp only [Log.add, hne, if_false]
    refine ⟨hm, ?_⟩
    by_cases hf : l.maxLines ≤ l.entries.length
    · simp only [pushBounded, hf, if_true, List.length_append, List.length_tail,
        List.length_singleton]
      omega
    · simp only [pushBounded, hf, if_false, List.length_append, List.length_singleton]
      omega

end Bounded

theorem optionRel_cases {α β : Type} {r : α → β → Prop} {a : Option α} {b : Option β}
    (h : Option.Rel r a b) : (a = none ∧ b = none) ∨ ∃ x y, a = some x ∧ b = some y ∧ r x y := by
  cases h with
  | some h => exact .inr ⟨_, _, rfl, rfl, h⟩
  | none => exact .inl ⟨rfl, rfl⟩

/-- Changing the service at one name keeps it bounded when the new log is. -/
theorem Service.Bounded.update {svc : Service} (hb : svc.Bounded) (k : List Char) {v : Option Log}
    (hv : ∀ l, v = some l → 1 ≤ l.maxLines ∧ (l.entries.length : Int) ≤ l.maxLines) :
    Service.Bounded (Function.update svc k v) := by
  intro k' l hl
  by_cases hk : k' = k
  · subst hk; rw [Function.update_same] at hl; exact hv l hl
  · rw [Function.update_noteq hk] at hl; exact hb k' l hl

/-- **Every step of the service keeps it bounded**, given the host's
guarantees. -/
theorem ServiceStep.bounded {H : Host} {svc svc' : Service} {op : Op}
    (hst : ServiceStep H svc op svc') (hop : op.HostOk) (hb : svc.Bounded) : svc'.Bounded := by
  cases hst with
  | @add object _ _ _ e _ =>
    refine hb.update _ fun l hl => ?_
    cases hl
    cases hs : svc (foldCase object) with
    | none => exact Log.add_bounded e (.inl rfl)
    | some l₀ => exact Log.add_bounded e (.inr (hb _ l₀ hs))
  | setLimit ht => exact hb.update _ fun l hl => by cases hl; exact ht.bounded hop
  | destroy => exact hb.update _ fun l hl => by cases hl
  | tick hrel =>
    intro k l hl
    rcases optionRel_cases (hrel k) with ⟨-, hn⟩ | ⟨l₀, l', hs, hl', hx⟩
    · rw [hn] at hl; cases hl
    · rw [hl] at hl'; cases hl'
      exact hx.bounded (hb k l₀ hs)
  | request | setModeP | unsetModeP | rehash => exact hb

/-- An expiry after an expiry is one expiry. -/
theorem Log.Expired.trans {now : Int} {l₁ l₂ l₃ : Log} (h₁ : Log.Expired now l₁ l₂)
    (h₂ : Log.Expired now l₂ l₃) : Log.Expired now l₁ l₃ := by
  rcases h₁ with rfl | rfl <;> rcases h₂ with rfl | rfl
  · exact .inl rfl
  · exact .inr rfl
  · exact .inr rfl
  · exact .inr (by simp [Log.recent, List.filter_filter])

/-- Within its limit a log's trim is an expiry: the count pass has nothing to
drop. -/
theorem Log.Trimmed.expired {now : Int} {l l' : Log} (ht : Log.Trimmed now l l')
    (hlen : (l.entries.length : Int) ≤ l.maxLines) : Log.Expired now l l' := by
  have hkeep : ∀ es : List Entry, (es.length : Int) ≤ l.maxLines → keepLast l.maxLines es = es :=
    fun es hes => by rw [keepLast, show (es.length - l.maxLines).toNat = 0 by omega, List.drop_zero]
  have hrec := List.length_filter_le (fun e => now - l.maxTime ≤ e.t) l.entries
  obtain ⟨hm, ht', he | he⟩ := ht
  · rw [hkeep _ hlen] at he
    exact .inl (by cases l'; cases l; simp_all)
  · rw [hkeep _ (by simp only [Log.recent]; omega)] at he
    exact .inr (by cases l'; cases l; simp_all)

/-- Within a `long`, the red line of a request at `now'` is at or past the
horizon at any `now ≤ now'`. -/
theorem Log.horizon_le_redline {l : Log} {filter : Option HistoryFilter} {now now' : Int}
    (hnow : now ≤ now') (hfit : RedlineFits l.maxTime filter now') :
    now - l.maxTime ≤ l.redline filter now' := by
  obtain ⟨hm, hf⟩ := hfit
  cases filter with
  | none => rw [Log.redline, cLong_of_range hm]; omega
  | some f =>
    rw [Log.redline]
    split
    · rw [cLong_of_range (hf f rfl)]; omega
    · rw [cLong_of_range hm]; omega

/-- A request at or after `now` sees the same entries of an expired log, while
its red line fits a `long`. -/
theorem Log.Expired.request_eq {now now' : Int} {l l' : Log} (hx : Log.Expired now l l')
    (hnow : now ≤ now') (filter : Option HistoryFilter) (hfit : RedlineFits l.maxTime filter now') :
    (l'.entries.filter fun e => l'.redline filter now' ≤ e.t) =
      l.entries.filter fun e => l.redline filter now' ≤ e.t := by
  rcases hx with rfl | rfl
  · rfl
  · have hr := Log.horizon_le_redline hnow hfit
    show (l.recent now).filter (fun e => l.redline filter now' ≤ e.t) = _
    simp only [Log.recent, List.filter_filter]
    refine List.filter_congr fun e _ => ?_
    by_cases he : l.redline filter now' ≤ e.t
    · simp [he, show now - l.maxTime ≤ e.t by omega]
    · simp [he]

/-- **A tick changes no request made at or after it**, on the service, while
the request's red line fits a `long`. -/
theorem Service.request_of_expired {svc svc' : Service} {now : Int}
    (hrel : ∀ k, Option.Rel (Log.Expired now) (svc k) (svc' k)) (object : String)
    (filter : Option HistoryFilter) {now' : Int} (hnow : now ≤ now')
    (hfit : ∀ l, svc (foldCase object) = some l → RedlineFits l.maxTime filter now') :
    svc'.request object filter now' = svc.request object filter now' := by
  unfold Service.request
  rcases optionRel_cases (hrel (foldCase object)) with ⟨ha, hb⟩ | ⟨l, l', ha, hb, hx⟩
  · rw [ha, hb]
  · simp only [ha, hb, Option.map_some', hx.request_eq hnow filter (hfit l ha)]

/-! ## The service a table implements -/

variable {H : Host}

/-- The log an object holds. -/
def Log.ofObject (h : HistoryLogObject) : Log := ⟨h.maxLines, h.maxTime, h.entries⟩

/-- The service the table implements: the log of the object held under each
folded name. -/
def Table.service (tb : Table) : Service := fun k => (tb.lookup k).map Log.ofObject

theorem Log.ofObject_new (n : String) : Log.ofObject (.new n) = .empty := by
  rw [Log.ofObject, (LogInv.new n).entries_eq]; rfl

theorem requestRedline_eq (h : HistoryLogObject) (filter : Option HistoryFilter) (now : Int) :
    requestRedline h filter now = (Log.ofObject h).redline filter now := by
  cases filter <;> rfl

/-- In a bucket of a shaped table an object is the first match for its own
name. -/
theorem TableShape.findIdx?_self {tb : Table} (hs : TableShape H tb) {b : Fin hashTableSize}
    {i : Nat} {h : HistoryLogObject} (hh : (tb b)[i]? = some h) :
    (tb b).findIdx? (fun x => strcasecmp h.name x.name) = some i := by
  obtain ⟨hlt, rfl⟩ := List.getElem?_eq_some_iff.mp hh
  refine List.findIdx?_eq_some_iff_getElem.mpr ⟨hlt, by simp [strcasecmp], fun j hj hm => ?_⟩
  refine List.nodup_iff_getElem?_ne_getElem?.mp (hs.unique b) j i hj (by simpa using hlt) ?_
  simp [List.getElem?_eq_getElem (show j < (tb b).length by omega), List.getElem?_eq_getElem hlt,
    strcasecmp_iff.mp hm]

/-- **Rewriting an object in place** under its name changes the map at its
name alone. -/
theorem TableShape.lookup_set {tb : Table} (hs : TableShape H tb) {b : Fin hashTableSize}
    {i : Nat} {h h' : HistoryLogObject} (hh : (tb b)[i]? = some h) (hname : h'.name = h.name)
    (k : List Char) :
    Table.lookup (Function.update tb b ((tb b).set i h')) k =
      if k = foldCase h.name then some h' else tb.lookup k := by
  obtain rfl : hbmHash H h.name = b := hs.placed b h (List.getElem?_mem hh)
  obtain ⟨hu, hl⟩ := hs.setAt (hs.findIdx?_self hh) hh hname
  split
  · subst k; exact hl
  · exact hu.others k ‹_›

/-- An object of a shaped table is what its name looks up. -/
theorem TableShape.lookup_self {tb : Table} (hs : TableShape H tb) {b : Fin hashTableSize}
    {i : Nat} {h : HistoryLogObject} (hh : (tb b)[i]? = some h) :
    tb.lookup (foldCase h.name) = some h := by
  have := hs.lookup_set hh rfl (foldCase h.name)
  rwa [if_pos rfl, set_of_getElem? hh, Function.update_eq_self] at this

theorem TableShape.service_set {tb : Table} (hs : TableShape H tb) {b : Fin hashTableSize}
    {i : Nat} {h h' : HistoryLogObject} (hh : (tb b)[i]? = some h) (hname : h'.name = h.name) :
    Table.service (Function.update tb b ((tb b).set i h')) =
      Function.update tb.service (foldCase h.name) (some (Log.ofObject h')) := by
  funext k
  simp only [Table.service, hs.lookup_set hh hname k, Function.update_apply]
  split <;> rfl

/-- Changing the map at `n` alone changes the service at `n` alone. -/
theorem UpdatesAt.service {tb tb' : Table} {n : String} (hu : UpdatesAt H tb tb' n)
    {h' : HistoryLogObject} (hl : tb'.lookup (foldCase n) = some h') :
    tb'.service = Function.update tb.service (foldCase n) (some (Log.ofObject h')) := by
  funext k
  by_cases hk : k = foldCase n
  · subst hk; simp [Table.service, hl]
  · simp [Table.service, Function.update_noteq hk, hu.others k hk]

theorem RemovesAt.service {tb tb' : Table} {n : String} (hr : RemovesAt H tb tb' n) :
    tb'.service = Function.update tb.service (foldCase n) none := by
  funext k
  by_cases hk : k = foldCase n
  · subst hk; simp [Table.service, hr.gone]
  · simp [Table.service, Function.update_noteq hk, hr.others k hk]

/-- A change of an object that its log does not see leaves the service as it
is. -/
theorem TableShape.service_modifyObject {tb : Table} (hs : TableShape H tb) (object : String)
    {f : HistoryLogObject → HistoryLogObject} (hname : ∀ h, (f h).name = h.name)
    (hlog : ∀ h, Log.ofObject (f h) = Log.ofObject h) :
    (HistoryBackendMem.modifyObject H tb object f).service = tb.service := by
  dsimp only [HistoryBackendMem.modifyObject]
  split
  · rfl
  · rename_i i _
    rw [List.modify_eq_set_get?]
    cases hx : (tb (hbmHash H object)).get? i with
    | none => simp
    | some x =>
      have hh : (tb (hbmHash H object))[i]? = some x := by simpa [List.get?_eq_getElem?] using hx
      simp only [Option.map_eq_map, Option.map_some', Option.getD_some]
      rw [hs.service_set hh (hname x), hlog, Function.update_eq_self_iff]
      simp [Table.service, hs.lookup_self hh]

/-! ## The operations on one log -/

/-- **A cleanup trims the log**: it keeps the limits, and the last `max_lines`
of the entries, with or without those past the horizon. -/
theorem hbmHistoryCleanup_trimmed {h h' : HistoryLogObject} {cells : List (Nat × Entry)}
    (hi : LogInv h cells) {now : Int} (hc : hbmHistoryCleanup now h = some h') :
    Log.Trimmed now (Log.ofObject h) (Log.ofObject h') := by
  obtain ⟨h'', hrun, hs⟩ := hbmHistoryCleanup_spec hi now
  cases hc.symm.trans hrun
  have hkeep : ∀ cs : List (Nat × Entry),
      (countCells h.maxLines cs).map Prod.snd = keepLast h.maxLines (cs.map Prod.snd) :=
    fun cs => by simp [countCells, keepLast, List.map_drop]
  have hrecent : (cells.filter fun c => ¬ c.2.t < now - h.maxTime).map Prod.snd =
      (Log.ofObject h).recent now := by
    rw [Log.recent, Log.ofObject, hi.entries_eq, List.filter_map]
    exact congrArg _ (List.filter_congr fun c _ => by simp)
  have hent : h'.entries = keepLast h.maxLines ((ageCells (now - h.maxTime) h cells).map Prod.snd) := by
    rw [hs.inv.entries_eq, cleanupCells, hkeep]
  refine ⟨hs.maxLines, hs.maxTime, ?_⟩
  show h'.entries = keepLast h.maxLines h.entries ∨
    h'.entries = keepLast h.maxLines ((Log.ofObject h).recent now)
  rw [hent, ageCells]
  split
  · exact .inr (by rw [hrecent])
  · exact .inl (by rw [hi.entries_eq])

/-- **`hbm_history_add` on one log is the service's add** of the entry
`hbm_duplicate_mtags` makes. -/
theorem LogInv.addToObject_log {h h' : HistoryLogObject} {cells : List (Nat × Entry)}
    (hi : LogInv h cells) (hm : 0 ≤ h.maxLines) {mtags : List MessageTag} {line clock : String}
    (hadd : HistoryBackendMem.addToObject H mtags line clock h = some h') :
    ∃ e, newEntry H mtags line clock = some e ∧ Log.ofObject h' = (Log.ofObject h).add e := by
  obtain ⟨e, he⟩ := addToObject_newEntry hadd
  obtain ⟨h'', hrun, hi', hmax, -⟩ := addToObject_spec H hi hm he
  cases hadd.symm.trans hrun
  refine ⟨e, he, ?_⟩
  have hent : h'.entries = pushBounded (addLimit h) h.entries e := by
    rw [hi'.entries_eq, hi.entries_eq, pushBounded_map]
  simp only [Log.ofObject, Log.add, hent, hmax, addToObject_maxTime H hrun, addLimit]
  split <;> rfl

/-- **A timer step expires the log** of a well-formed object: within its limit,
the cleanup's trim is an expiry, and the write after it changes no entry. -/
theorem ObjOk.tickObject_expired {cfg : CfgStruct} {chanP : List Char → Bool} {now : Int}
    {io : WriteIO} {disk d : Disk} {h h' : HistoryLogObject} (ho : ObjOk H h)
    (ht : HistoryBackendMem.tickObject H cfg chanP now io disk h = some (h', d)) :
    Log.Expired now (Log.ofObject h) (Log.ofObject h') := by
  obtain ⟨h₁, hc, hw⟩ := tickObject_cases H ht
  obtain ⟨cells, hl⟩ := ho.log
  have hlen : ((Log.ofObject h).entries.length : Int) ≤ (Log.ofObject h).maxLines := by
    have := ho.limit
    have := hl.inv.numLines
    simp only [Log.ofObject, hl.inv.entries_eq, List.length_map]
    rcases hl.bound with hb | hb <;> omega
  have hx := (hbmHistoryCleanup_trimmed hl.inv hc).expired hlen
  rcases hw with rfl | rfl <;> exact hx

theorem Table.lookup_mem {tb : Table} {k : List Char} {h : HistoryLogObject}
    (hl : tb.lookup k = some h) : ∃ b, h ∈ tb b := by
  obtain ⟨b, -, hb⟩ := List.mem_flatMap.mp (List.mem_of_find?_eq_some hl)
  exact ⟨b, hb⟩

/-! ## The refinement -/

/-- **A timer call expires logs**: on a shaped table of well-formed objects,
each name keeps a log exactly when it had one, and that log is the one before
or the one before with its entries past the horizon dropped. -/
theorem tickSteps_service {cfg : CfgStruct} {chanP : List Char → Bool} {now : Int}
    {s s' : Table × Disk} (hr : Relation.ReflTransGen (TickStep H cfg chanP now) s s')
    (hs : TableShape H s.1) (hok : s.1.All (ObjOk H)) :
    ∀ k, Option.Rel (Log.Expired now) (s.1.service k) (s'.1.service k) := by
  induction hr with
  | refl =>
    intro k
    cases s.1.service k
    · exact .none
    · exact .some (.inl rfl)
  | @tail s₁ _ hr₁ hst ih =>
    obtain ⟨b, i, h, io, h', d, hh, ht, rfl⟩ := hst
    have hs₁ := TableShape.tickSteps hr₁ hs
    have hok₁ := Table.All.tickSteps (fun _ _ _ _ _ ho ht => ho.tickObject ht) hr₁ hok
    have hx := (hok₁ b h (List.getElem?_mem hh)).tickObject_expired ht
    intro k
    rw [hs₁.service_set hh (tickObject_name ht), Function.update_apply]
    split
    · rename_i hk
      subst hk
      have hself : s₁.1.service (foldCase h.name) = some (Log.ofObject h) := by
        simp [Table.service, hs₁.lookup_self hh]
      have := ih (foldCase h.name)
      rw [hself] at this
      rcases optionRel_cases this with ⟨-, hn⟩ | ⟨l₀, l₁, hl₀, hl₁, hx₀⟩
      · cases hn
      · cases hl₁
        rw [hl₀]
        exact .some (hx₀.trans hx)
    · exact ih k

/-- The log `hbm_find_or_add_object(n)` works on is the service's log of `n`. -/
theorem service_getD {tb : Table} (hok : tb.All (ObjOk H)) {n : String} {g : HistoryLogObject}
    (hg : tb.lookup (foldCase n) = some g ∨ (tb.lookup (foldCase n) = none ∧ g = .new n)) :
    (tb.service (foldCase n)).getD .empty = Log.ofObject g ∧
      ∃ cells, LogOk H g cells ∧ 0 ≤ g.maxLines := by
  rcases hg with hg | ⟨hg, rfl⟩
  · obtain ⟨b, hb⟩ := Table.lookup_mem hg
    obtain ⟨⟨cells, hl⟩, hlim⟩ := hok b g hb
    exact ⟨by simp [Table.service, hg], cells, hl, by omega⟩
  · exact ⟨by simp [Table.service, hg, Log.ofObject_new], [], LogOk.new H n, le_refl _⟩

section Step

variable {s s' : Sys} (hs : TableShape H s.table) (hok : s.table.All (ObjOk H))
include hs hok

/-- **Every step of the model is a step of the service**, from a shaped table
of well-formed objects, for the host's calls other than the boot-time load on
names that fit. -/
theorem step_service {op : Op} (hop : op.HostOk ∧ op.NoLoad ∧ op.NameFits H.objectLen)
    (hst : step H s op = some s') : ServiceStep H s.table.service op s'.table.service := by
  cases op with
  | add object mtags line clock =>
    obtain ⟨tb, h, rfl⟩ := Option.map_eq_some'.mp hst
    obtain ⟨hu, g, g', hg, hadd, hl⟩ := hs.withObject hop.2.2 (fun _ _ => addToObject_name H) h
    obtain ⟨hgetD, cells, hlog, hm⟩ := service_getD hok hg
    obtain ⟨e, he, hlogeq⟩ := hlog.inv.addToObject_log hm hadd
    rw [hu.service hl, hlogeq, ← hgetD]
    exact .add he
  | setLimit object maxLines maxTime now =>
    obtain ⟨tb, h, rfl⟩ := Option.map_eq_some'.mp hst
    obtain ⟨hu, g, g', hg, hc, hl⟩ :=
      hs.withObject hop.2.2 (by exact fun _ _ hc => (hbmHistoryCleanup_frame hc).1) h
    obtain ⟨hgetD, cells, hlog, -⟩ := service_getD hok hg
    rw [hu.service hl]
    exact .setLimit (by rw [hgetD]; exact hbmHistoryCleanup_trimmed (hlog.inv.setLimits _ _) hc)
  | request object filter now clock =>
    obtain ⟨_, -, rfl⟩ := Option.map_eq_some'.mp hst
    exact .request
  | destroy object =>
    obtain ⟨⟨r, tb', d⟩, h, rfl⟩ := Option.map_eq_some'.mp hst
    obtain ⟨r', tb'', d', h', -, hrem⟩ := hs.hbmHistoryDestroy s.cfg s.disk object
    cases h.symm.trans h'
    rw [hrem.service]
    exact .destroy
  | setModeP chname => cases hst; exact .setModeP
  | unsetModeP chname =>
    obtain ⟨⟨tb', d⟩, h, rfl⟩ := Option.map_eq_some'.mp hst
    have hsvc : tb'.service = s.table.service := by
      rcases hbmModecharDel_table H h with rfl | rfl
      · rfl
      · exact hs.service_modifyObject _ (fun _ => rfl) fun _ => rfl
    rw [hsvc]
    exact .unsetModeP
  | tick now io =>
    obtain ⟨⟨n, tb', d⟩, h, rfl⟩ := Option.map_eq_some'.mp hst
    have hrel : ∀ k, Option.Rel (Log.Expired now) (s.table.service k) (tb'.service k) :=
      @tickSteps_service H _ _ _ (s.table, s.disk) (tb', d) (historyMemClean_steps H h) hs hok
    exact .tick hrel
  | load fname clock => exact hop.2.1.elim
  | rehash entries io =>
    obtain ⟨r, h, rfl⟩ := Option.map_eq_some'.mp hst
    exact .rehash

/-- **Every request is the service's.** -/
theorem request_service (object : String) (filter : Option HistoryFilter) (now : Int)
    (clock : String) :
    hbmHistoryRequest H s.table object filter now clock =
      some (s.table.service.request object filter now) := by
  simp only [Service.request, Table.service, ← hs.findObject_eq_lookup]
  cases hf : hbmFindObject H s.table object with
  | none => exact hbmHistoryRequest_of_none H hf filter now clock
  | some h =>
    obtain ⟨cells, hl⟩ := (hok _ h (hbmFindObject_mem hf)).log
    rw [hbmHistoryRequest_eq H hf hl.inv hl.timed, requestRedline_eq]
    rfl

end Step

/-! ## Over runs -/

theorem Table.service_empty : Table.empty.service = fun _ => none := by
  funext k
  simp [Table.service, Table.lookup, Table.empty]

/-- The service of every state of a run is bounded: the service's invariant,
carried to the model by the refinement. -/
theorem reachable_service_bounded {s : Sys}
    (hr : Reachable H (fun op => op.HostOk ∧ op.NoLoad ∧ op.NameFits H.objectLen) s) :
    s.table.service.Bounded := by
  induction hr with
  | init s h0 =>
    rw [h0, Table.service_empty]
    intro k l hl
    cases hl
  | tail hr₀ hop hst ih =>
    exact (step_service (reachable_tableShape (fun _ h => h.2) hr₀)
      (reachable_objOk (fun _ h => h.1) hr₀) hop hst).bounded hop.1 ih

/-- **The backend refines the history service**: in every state of a run of
the host's calls other than the boot-time load, on names that fit in
`OBJECTLEN`, the service the table implements keeps every log within its limit;
each further call is a step of the service (an add pushes onto the bounded
queue of its name's log, a limit trims it, a destroy forgets it, a tick leaves
each log or drops exactly its entries past the horizon, the other calls change
no log); and every request returns what the service says. -/
theorem backend_refines_service {s : Sys}
    (hr : Reachable H (fun op => op.HostOk ∧ op.NoLoad ∧ op.NameFits H.objectLen) s) :
    s.table.service.Bounded ∧
    (∀ op s', op.HostOk ∧ op.NoLoad ∧ op.NameFits H.objectLen → step H s op = some s' →
      ServiceStep H s.table.service op s'.table.service) ∧
    (∀ object filter now clock, hbmHistoryRequest H s.table object filter now clock =
      some (s.table.service.request object filter now)) := by
  have hs := reachable_tableShape (fun _ h => h.2) hr
  have hok := reachable_objOk (fun _ h => h.1) hr
  exact ⟨reachable_service_bounded hr, fun _ _ hop hst => step_service hs hok hop hst,
    request_service hs hok⟩

theorem backend_refines_service_sample :
    Reachable Host.sample
      (fun op => op.HostOk ∧ op.NoLoad ∧ op.NameFits Host.sample.objectLen) sampleRun ∧
    sampleRun.table.service.Bounded ∧
    (∀ op s', op.HostOk ∧ op.NoLoad ∧ op.NameFits Host.sample.objectLen →
      step Host.sample sampleRun op = some s' →
      ServiceStep Host.sample sampleRun.table.service op s'.table.service) ∧
    (∀ object filter now clock,
      hbmHistoryRequest Host.sample sampleRun.table object filter now clock =
        some (sampleRun.table.service.request object filter now)) :=
  ⟨sampleRun_reachable, backend_refines_service sampleRun_reachable⟩

/-- **A timer tick is invisible to requests**: from every state of a run of
the host's calls other than the boot-time load, on names that fit, a call of
`history_mem_clean` at `now` changes nothing that a request at `now` or later
returns, whatever it cleaned or wrote, while the request's red line fits C's
`long`. -/
theorem tick_invisible_to_requests {s s' : Sys}
    (hr : Reachable H (fun op => op.HostOk ∧ op.NoLoad ∧ op.NameFits H.objectLen) s)
    {now : Int} {io : Fin hashTableSize → Nat → WriteIO} (ht : step H s (.tick now io) = some s')
    (object : String) (filter : Option HistoryFilter) {now' : Int} (hnow : now ≤ now')
    (hfit : ∀ h, hbmFindObject H s.table object = some h → RedlineFits h.maxTime filter now')
    (clock : String) :
    hbmHistoryRequest H s'.table object filter now' clock =
      hbmHistoryRequest H s.table object filter now' clock := by
  have hs := reachable_tableShape (fun _ h => h.2) hr
  have hok := reachable_objOk (fun _ h => h.1) hr
  have hop : (Op.tick now io).HostOk ∧ (Op.tick now io).NoLoad ∧
      (Op.tick now io).NameFits H.objectLen := ⟨trivial, trivial, trivial⟩
  have hr' := Reachable.tail hr hop ht
  have hfit' : ∀ l, s.table.service (foldCase object) = some l →
      RedlineFits l.maxTime filter now' := fun l hl => by
    obtain ⟨h, hh, rfl⟩ := Option.map_eq_some'.mp hl
    exact hfit h (by rw [hs.findObject_eq_lookup]; exact hh)
  rw [request_service (reachable_tableShape (fun _ h => h.2) hr')
    (reachable_objOk (fun _ h => h.1) hr'), request_service hs hok]
  cases step_service hs hok hop ht with
  | tick hrel => rw [Service.request_of_expired hrel object filter hnow hfit']

/-- The sample run after a timer call a day after its line, which expires it. -/
def expiredRun : Sys := after Host.sample sampleRun [.tick 86501 fun _ _ => .ok]

/-- The tick empties `#a`, and a request on `#a` after it returns what it
returned before. -/
theorem tick_invisible_to_requests_expiry :
    Reachable Host.sample
      (fun op => op.HostOk ∧ op.NoLoad ∧ op.NameFits Host.sample.objectLen) sampleRun ∧
    step Host.sample sampleRun (.tick 86501 fun _ _ => .ok) = some expiredRun ∧
    (86501 : Int) ≤ 86600 ∧
    (∀ h, hbmFindObject Host.sample sampleRun.table "#a" = some h →
      RedlineFits h.maxTime (some ⟨1, 0⟩) 86600) ∧
    hbmHistoryRequest Host.sample expiredRun.table "#a" (some ⟨1, 0⟩) 86600 "x" =
      hbmHistoryRequest Host.sample sampleRun.table "#a" (some ⟨1, 0⟩) 86600 "x" ∧
    (hbmFindObject Host.sample sampleRun.table "#a").map (·.entries.length) = some 1 ∧
    (hbmFindObject Host.sample expiredRun.table "#a").map (·.entries.length) = some 0 := by
  have ht : step Host.sample sampleRun (.tick 86501 fun _ _ => .ok) = some expiredRun :=
    step_after _ (by rw [step_tick _ (by decide)]; decide)
  have hfit : ∀ h, hbmFindObject Host.sample sampleRun.table "#a" = some h →
      RedlineFits h.maxTime (some ⟨1, 0⟩) 86600 := fun h hh => by
    cases (rfl : hbmFindObject Host.sample sampleRun.table "#a" = some sampleLog).symm.trans hh
    exact ⟨by decide, fun f hf => by cases hf; decide⟩
  have hlen : (hbmFindObject Host.sample expiredRun.table "#a").map (·.entries.length) = some 0 := by
    rw [expiredRun, after_singleton, step_tick _ (by decide)]
    decide
  exact ⟨sampleRun_reachable, ht, by decide, hfit,
    tick_invisible_to_requests sampleRun_reachable ht "#a" (some ⟨1, 0⟩) (by decide) hfit "x",
    by decide, hlen⟩

end HistoryBackendMem
