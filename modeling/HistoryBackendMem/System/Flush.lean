import HistoryBackendMem.System.Invariant

/-!
# System — one spread of timer calls flushes the logs

`history_mem_clean` cleans every log of the buckets it visits and, with
`persist` on, writes each one its cleanup leaves dirty; a complete write clears
`dirty`, and a log of a channel without `+P` is not written at all. With the
release constants, `HISTORY_SPREAD` calls visit every bucket
(`cleanCalls_cover`). So when the live configuration can write and every write
completes, that many calls from any state of a run of host calls never fault,
and after them no log of a `+P` channel is dirty (`spread_flushes_logs`):
the source's "in case of persistent it will save every 5 minutes", one call
every `HISTORY_TIMER_EVERY` seconds.

The proof follows the loops of the source: one object (`tickObject_flushed`),
one bucket chain, one body of the `do ... while`, a whole call, and a run of
calls, each by induction on the one before.
-/

namespace HistoryBackendMem

variable {H : Host}

/-- No write of `h` is pending: it is clean if its channel has `+P`. -/
def Flushed (chanP : List Char → Bool) (h : HistoryLogObject) : Prop :=
  chanP (foldCase h.name) = true → h.dirty = false

/-- The live configuration can write files: `persist` on, a `db-secret` and
both salts (what `hbm_write_db` and `hbm_history_filename` would `abort()`
without). -/
structure CfgStruct.Writes (cfg : CfgStruct) : Prop where
  persist : cfg.persist = true
  secret : cfg.dbSecret.isSome
  prehash : cfg.prehash.isSome
  posthash : cfg.posthash.isSome

/-- A timer call whose every write completes. -/
def tickOk (now : Int) : Op := .tick now fun _ _ => .ok

section Visit

variable {cfg : CfgStruct} (chanP : List Char → Bool) (now : Int) (hw : cfg.Writes)
include hw

/-- **A visit flushes**: on a well-formed log, when the write completes, the
timer's step does not fault and leaves the log well formed and flushed. -/
theorem tickObject_flushed (disk : Disk) {h : HistoryLogObject} (ho : ObjOk H h) :
    ∃ h' d, tickObject H cfg chanP now .ok disk h = some (h', d) ∧
      ObjOk H h' ∧ Flushed chanP h' := by
  suffices ∃ h' d, tickObject H cfg chanP now .ok disk h = some (h', d) ∧ Flushed chanP h' by
    obtain ⟨h', d, ht, hf⟩ := this
    exact ⟨h', d, ht, ho.tickObject ht, hf⟩
  obtain ⟨cells, hl⟩ := ho.log
  obtain ⟨h₁, hc, hs⟩ := hbmHistoryCleanup_spec hl.inv now
  obtain ⟨secret, hsec⟩ := Option.isSome_iff_exists.mp hw.secret
  by_cases hd : h₁.dirty = true
  · by_cases hP : chanP (foldCase h₁.name) = true
    · -- dirty, `+P`: written, and marked clean
      obtain ⟨pre, hpre⟩ := Option.isSome_iff_exists.mp hw.prehash
      obtain ⟨post, hpost⟩ := Option.isSome_iff_exists.mp hw.posthash
      obtain ⟨real, -, hwr⟩ :=
        @hbmWriteDb_ok H cfg chanP disk h₁ secret pre post _ hsec hP hpre hpost hs.inv.chain_eq
      exact ⟨{ h₁ with dirty := false }, _,
        by rw [tickObject, hc, Option.some_bind, if_pos ⟨hw.persist, hd⟩, hwr]; rfl, fun _ => rfl⟩
    · -- dirty, no `+P`: the write pretends success and changes nothing
      exact ⟨h₁, disk, by simp [tickObject, hc, hw.persist, hd, hbmWriteDb, hsec, hP],
        fun h => absurd h hP⟩
  · -- clean after the cleanup: nothing to write
    exact ⟨h₁, disk, by simp [tickObject, hc, hd], fun _ => by simpa using hd⟩

/-- The `for` over one bucket chain flushes every log of the chain. -/
theorem cleanBucket_flushed :
    ∀ (disk : Disk) (l : List HistoryLogObject), (∀ h ∈ l, ObjOk H h) →
      ∃ l' d, cleanBucket H cfg chanP now (fun _ => .ok) disk l = some (l', d) ∧
        ∀ h ∈ l', ObjOk H h ∧ Flushed chanP h
  | disk, [], _ => ⟨[], disk, rfl, fun _ h => nomatch h⟩
  | disk, h :: l, hl => by
    obtain ⟨h', d, ht, hok, hf⟩ := tickObject_flushed chanP now hw disk (hl h (List.mem_cons_self _ _))
    obtain ⟨l', d', hc, hall⟩ :=
      cleanBucket_flushed d l fun x hx => hl x (List.mem_cons_of_mem _ hx)
    refine ⟨h' :: l', d', ?_, List.forall_mem_cons.mpr ⟨⟨hok, hf⟩, hall⟩⟩
    rw [cleanBucket, ht, Option.some_bind]
    exact congrArg (Option.map _) hc

/-- One body of the loop flushes the bucket at the cursor and leaves the
other buckets as they are. -/
theorem cleanBody_flushed {hashnum : Nat} (hh : hashnum < hashTableSize) (tb : Table)
    (disk : Disk) (hok : tb.All (ObjOk H)) :
    ∃ tb' d, cleanBody H cfg chanP now (fun _ _ => .ok) hashnum tb disk = some (tb', d) ∧
      tb'.All (ObjOk H) ∧ (∀ h ∈ tb' ⟨hashnum, hh⟩, Flushed chanP h) ∧
      ∀ b, b ≠ ⟨hashnum, hh⟩ → tb' b = tb b := by
  obtain ⟨l', d, hc, hall⟩ := cleanBucket_flushed chanP now hw disk (tb ⟨hashnum, hh⟩) (hok _)
  refine ⟨Function.update tb ⟨hashnum, hh⟩ l', d, by simp [cleanBody, hh, hc],
    fun b x hx => ?_, fun x hx => (hall x (by simpa using hx)).2,
    fun b hb => Function.update_noteq hb _ _⟩
  by_cases hb : b = ⟨hashnum, hh⟩
  · subst hb; exact (hall x (by simpa using hx)).1
  · exact hok b x (by simpa [Function.update_noteq hb] using hx)

/-- The bodies on the cursors `bs` flush the buckets they visit and keep the
ones already flushed. -/
theorem cleanBodies_flushed :
    ∀ (bs : List Nat) (tb : Table) (disk : Disk), (∀ b ∈ bs, b < hashTableSize) →
      tb.All (ObjOk H) →
      ∃ tb' d, cleanBodies H cfg chanP now (fun _ _ => .ok) bs tb disk = some (tb', d) ∧
        tb'.All (ObjOk H) ∧ ∀ b : Fin hashTableSize,
          ((∀ h ∈ tb b, Flushed chanP h) ∨ b.val ∈ bs) → ∀ h ∈ tb' b, Flushed chanP h
  | [], tb, disk, _, hok => ⟨tb, disk, rfl, hok, fun _ hb => hb.resolve_right (by simp)⟩
  | c :: bs, tb, disk, hbs, hok => by
    have hc := hbs c (List.mem_cons_self _ _)
    obtain ⟨tb₁, d₁, hbody, hok₁, hfl₁, hsame⟩ := cleanBody_flushed chanP now hw hc tb disk hok
    obtain ⟨tb', d', hrest, hok', hfl'⟩ :=
      cleanBodies_flushed bs tb₁ d₁ (fun b hb => hbs b (List.mem_cons_of_mem _ hb)) hok₁
    refine ⟨tb', d', by rw [cleanBodies, hbody, Option.some_bind, hrest], hok',
      fun b hb => hfl' b ?_⟩
    by_cases hbc : b = ⟨c, hc⟩
    · exact .inl (hbc ▸ hfl₁)
    · rcases hb with hb | hb
      · exact .inl (hsame b hbc ▸ hb)
      · exact .inr ((List.mem_cons.mp hb).resolve_left fun he => hbc (Fin.ext he))

/-- **One call flushes the `HISTORY_CLEAN_PER_LOOP + 1` buckets from the
cursor on**, keeps the buckets already flushed, and moves the cursor past
them. -/
theorem historyMemClean_flushed {hashnum : Nat} (hh : hashnum < hashTableSize) (tb : Table)
    (disk : Disk) (hok : tb.All (ObjOk H)) :
    ∃ tb' d, historyMemClean H cfg chanP now (fun _ _ => .ok) hashnum tb disk =
        some ((hashnum + (historyCleanPerLoop + 1)) % hashTableSize, tb', d) ∧
      tb'.All (ObjOk H) ∧ ∀ b : Fin hashTableSize,
        ((∀ h ∈ tb b, Flushed chanP h) ∨
          ∃ i < historyCleanPerLoop + 1, b.val = (hashnum + i) % hashTableSize) →
        ∀ h ∈ tb' b, Flushed chanP h := by
  obtain ⟨tb', d, hrun, hok', hfl⟩ := cleanBodies_flushed chanP now hw
    ((List.range (historyCleanPerLoop + 1)).map fun i => (hashnum + i) % hashTableSize) tb disk
    (by simp only [List.mem_map]; rintro _ ⟨i, -, rfl⟩; exact Nat.mod_lt _ (by decide)) hok
  refine ⟨tb', d, by rw [historyMemClean_eq H cfg chanP now _ hh, hrun]; rfl, hok',
    fun b hb => hfl b (hb.imp_right ?_)⟩
  rintro ⟨i, hi, he⟩
  exact List.mem_map.mpr ⟨i, List.mem_range.mpr hi, he.symm⟩

end Visit

/-- **A run of timer calls** whose writes complete, on a configuration that
can write, does not fault: it moves the cursor by `HISTORY_CLEAN_PER_LOOP + 1`
a call, keeps the configuration and the `+P` channels, and flushes every bucket
one of its calls visits as well as those flushed before. -/
theorem run_ticks_flushed (nows : List Int) :
    ∀ s : Sys, s.cfg.Writes → s.hashnum < hashTableSize → s.table.All (ObjOk H) →
      ∃ s', run H s (nows.map tickOk) = some s' ∧ s'.cfg = s.cfg ∧ s'.chanP = s.chanP ∧
        s'.hashnum = (s.hashnum + (historyCleanPerLoop + 1) * nows.length) % hashTableSize ∧
        s'.table.All (ObjOk H) ∧ ∀ b : Fin hashTableSize,
          ((∀ h ∈ s.table b, Flushed s.chanP h) ∨ ∃ j < nows.length, ∃ i < historyCleanPerLoop + 1,
            b.val = ((s.hashnum + (historyCleanPerLoop + 1) * j) % hashTableSize + i) %
              hashTableSize) →
          ∀ h ∈ s'.table b, Flushed s.chanP h := by
  induction nows with
  | nil =>
    intro s _ hh hok
    refine ⟨s, rfl, rfl, rfl, by simp [Nat.mod_eq_of_lt hh], hok, fun b hb => ?_⟩
    simpa using hb
  | cons now nows ih =>
    intro s hw hh hok
    obtain ⟨tb₁, d₁, hcall, hok₁, hfl₁⟩ :=
      historyMemClean_flushed s.chanP now hw hh s.table s.disk hok
    have hstep : step H s (tickOk now) = some { s with
        hashnum := (s.hashnum + (historyCleanPerLoop + 1)) % hashTableSize,
        table := tb₁, disk := d₁ } := by
      simp only [step, tickOk, hcall, Option.map_some']
    obtain ⟨s', hrun, hcfg, hch, hhash, hok', hfl'⟩ := ih { s with
        hashnum := (s.hashnum + (historyCleanPerLoop + 1)) % hashTableSize,
        table := tb₁, disk := d₁ } hw (Nat.mod_lt _ (by decide)) hok₁
    refine ⟨s', by rw [List.map_cons, run, hstep, Option.some_bind, hrun], hcfg, hch, ?_, hok',
      fun b hb => hfl' b ?_⟩
    · rw [hhash]
      simp only [historyCleanPerLoop, historySpread, hashTableSize, List.length_cons]
      omega
    · have hlt := hh
      simp only [historyCleanPerLoop, historySpread, hashTableSize, List.length_cons] at hb hlt ⊢
      rcases hb with hb | ⟨_ | j, hj, i, hi, he⟩
      · exact .inl (hfl₁ b (.inl hb))
      · exact .inl (hfl₁ b (.inr ⟨i, hi, by simpa [Nat.mod_eq_of_lt hlt] using he⟩))
      · exact .inr ⟨j, by omega, i, hi, by omega⟩

/-- **One spread of timer calls flushes every `+P` log**: from a state of a
run of host calls, on a configuration that can write and with the cursor in
the table, the `HISTORY_SPREAD` calls of `history_mem_clean` whose writes
complete do not fault, and after them no log of a `+P` channel is dirty. -/
theorem spread_flushes_logs {s : Sys} (hr : Reachable H Op.HostOk s) (hw : s.cfg.Writes)
    (hh : s.hashnum < hashTableSize) (nows : List Int) (hlen : nows.length = historySpread) :
    ∃ s', run H s (nows.map tickOk) = some s' ∧ s'.table.All (Flushed s'.chanP) := by
  obtain ⟨s', hrun, -, hch, -, -, hfl⟩ :=
    run_ticks_flushed nows s hw hh (reachable_objOk (fun _ h => h) hr)
  refine ⟨s', hrun, fun b => hch ▸ hfl b (.inr ?_)⟩
  -- the call `j` visits `b` at its step `i`, counted from the cursor
  have hb := b.isLt
  simp only [hlen, historySpread, historyCleanPerLoop, hashTableSize] at hh hb ⊢
  exact ⟨(b.val + 1019 - s.hashnum) % 1019 / 17, by omega,
    (b.val + 1019 - s.hashnum) % 1019 % 17, by omega, by omega⟩

theorem spread_flushes_logs_sample :
    Reachable Host.sample Op.HostOk sampleRun ∧ sampleRun.cfg.Writes ∧
    sampleRun.hashnum < hashTableSize ∧ (List.replicate historySpread 200).length = historySpread ∧
    ∃ s', run Host.sample sampleRun ((List.replicate historySpread 200).map tickOk) = some s' ∧
      s'.table.All (Flushed s'.chanP) :=
  have hr : Reachable Host.sample Op.HostOk sampleRun := sampleRun_reachable.mono _ fun _ h => h.1
  have hw : sampleRun.cfg.Writes := ⟨by decide, by decide, by decide, by decide⟩
  ⟨hr, hw, by decide, List.length_replicate _ _,
    spread_flushes_logs hr hw (by decide) _ (List.length_replicate _ _)⟩

end HistoryBackendMem
