import HistoryBackendMem.System.Step

/-!
# System — configuration rounds in a run

Two records outlive a round: `test`, whose `persist` no reset touches, and
`cfg`, whose salts `hbm_rehash` frees after the post-test has read them from
`master.db`. So a rehash that passes leaves the live salts NULL
(`rehash_clears_salts`): the next write of a log reaches the `abort()` of
`hbm_history_filename` and `hbm_delete_db` skips its unlink. And a round is
judged with the `persist` an earlier round left (`persist_leaks_into_next_round`).
-/

namespace HistoryBackendMem

variable {H : Host}

/-! ## Sample rounds -/

/-- `persist yes` and a `db-secret`. -/
def persistEntries : List ConfigEntry :=
  [⟨some "persist", some "yes", "unrealircd.conf", 1⟩,
    ⟨some "db-secret", some "s3cret", "unrealircd.conf", 2⟩]

/-- A `db-secret` alone. -/
def secretEntries : List ConfigEntry := [⟨some "db-secret", some "s3cret", "unrealircd.conf", 2⟩]

/-- The host's answers when every call goes through; the salts it makes up are
`pre` and `post`. -/
def okIO : PosttestIO := ⟨none, true, none, .ok, ("pre", "post"), ""⟩

/-- A boot with persistence on, on the sample host, with no files yet. -/
def persistBoot : Sys :=
  (boot Host.sample (fun _ => none) persistEntries okIO).getD
    (Sys.init .zero .zero (fun _ => none) fun _ => false)

/-! ## Rehash -/

/-- **A rehash that passes leaves the live salts NULL**, so that every later
write of a `+P` log faults in `hbm_history_filename` and `hbm_delete_db`
deletes nothing. -/
theorem rehash_clears_salts {s s' : Sys} {entries : List ConfigEntry} {io : PosttestIO}
    (hpass : ∃ r, checkRound H s.test s.cfg s.disk entries io = some (false, r))
    (h : step H s (.rehash entries io) = some s') :
    s'.cfg.prehash = none ∧ s'.cfg.posthash = none ∧
    (∀ chanP wio disk (g : HistoryLogObject), s'.cfg.dbSecret.isSome →
      chanP (foldCase g.name) = true → hbmWriteDb H s'.cfg chanP wio disk g = none) ∧
    (∀ disk name, hbmDeleteDb H s'.cfg disk name = some disk) := by
  obtain ⟨⟨cfg', test', disk'⟩, hr, rfl⟩ := Option.map_eq_some'.mp h
  obtain ⟨hpre, hpost⟩ := rehashRound_salts H hr hpass
  refine ⟨hpre, hpost, fun chanP wio disk g hsec hP => ?_, fun disk name => ?_⟩
  · obtain ⟨secret, hsec⟩ := Option.isSome_iff_exists.mp hsec
    simp [hbmWriteDb, hbmHistoryFilename, hsec, hP, hpre]
  · simp [hbmDeleteDb, hpre]

/-- The boot with persistence on, then a rehash with the same entries: the
boot sets both salts; the rehash passes and clears them. -/
theorem rehash_clears_salts_boot :
    persistBoot.cfg =
      ⟨true, some "history", some "history/master.db", some "s3cret", some "pre", some "post"⟩ ∧
    (∃ r, checkRound Host.sample persistBoot.test persistBoot.cfg persistBoot.disk persistEntries
      okIO = some (false, r)) ∧
    step Host.sample persistBoot (.rehash persistEntries okIO) =
      some (after Host.sample persistBoot [.rehash persistEntries okIO]) ∧
    ((after Host.sample persistBoot [.rehash persistEntries okIO]).cfg.prehash = none ∧
    (after Host.sample persistBoot [.rehash persistEntries okIO]).cfg.posthash = none ∧
    (∀ chanP wio disk (g : HistoryLogObject),
      (after Host.sample persistBoot [.rehash persistEntries okIO]).cfg.dbSecret.isSome →
      chanP (foldCase g.name) = true →
      hbmWriteDb Host.sample (after Host.sample persistBoot [.rehash persistEntries okIO]).cfg
        chanP wio disk g = none) ∧
    (∀ disk name, hbmDeleteDb Host.sample
      (after Host.sample persistBoot [.rehash persistEntries okIO]).cfg disk name = some disk)) :=
  have hpass : ∃ r, checkRound Host.sample persistBoot.test persistBoot.cfg persistBoot.disk
      persistEntries okIO = some (false, r) := ⟨_, rfl⟩
  have hstep := step_after Host.sample (by decide :
    (step Host.sample persistBoot (.rehash persistEntries okIO)).isSome)
  ⟨by decide, hpass, hstep, rehash_clears_salts hpass hstep⟩

/-! ## Rounds of configuration tests -/

/-- **A round without a `persist` entry passes its `persist` on**: the test
record a configuration check leaves, which the next round starts from, has the
`persist` the round started with, since neither the test hooks of its entries
nor the post-test's reset touch it. -/
theorem checkRound_keeps_persist {test cfg : CfgStruct} {disk : Disk}
    {entries : List ConfigEntry} {io : PosttestIO}
    (hno : ∀ ce ∈ entries, ce.varname ≠ some "persist") {r : Bool × Posttest}
    (h : checkRound H test cfg disk entries io = some r) : r.2.test.persist = test.persist := by
  obtain ⟨p, hp, rfl⟩ := Option.map_eq_some'.mp h
  exact (hbmConfigPosttest_persist H hp).trans (configTestRound_persist H hno)

/-- A `db-secret` alone, checked with a test record that has `persist` on. -/
theorem checkRound_keeps_persist_secret :
    (∀ ce ∈ secretEntries, ce.varname ≠ some "persist") ∧
    ∃ r, checkRound Host.sample { setcfg Host.sample .zero with persist := true } .zero
        (fun _ => none) secretEntries okIO = some r ∧ r.2.test.persist = true := by
  have hno : ∀ ce ∈ secretEntries, ce.varname ≠ some "persist" := by decide
  obtain ⟨r, hr⟩ := Option.isSome_iff_exists.mp (by decide : (checkRound Host.sample
    { setcfg Host.sample .zero with persist := true } .zero (fun _ => none) secretEntries okIO).isSome)
  exact ⟨hno, r, hr, checkRound_keeps_persist hno hr⟩

set_option maxRecDepth 4000 in
/-- **`persist` leaks from one round into the next**: after a round with
`persist yes` and a `db-secret`, a round with the `db-secret` alone gets no
verdict, where the same round from a fresh start is told that `db-secret` is
set but `persist` is disabled. -/
theorem persist_leaks_into_next_round :
    ((checkRound Host.sample (setcfg Host.sample .zero) .zero (fun _ => none) persistEntries
      okIO).bind fun r =>
        (checkRound Host.sample r.2.test r.2.cfg r.2.disk secretEntries okIO).map
          fun r' => consistencyVerdict r'.2.msgs) = some [] ∧
    ((checkRound Host.sample (setcfg Host.sample .zero) .zero (fun _ => none) secretEntries
      okIO).map fun r => consistencyVerdict r.2.msgs) = some [msgSecretWithoutPersist] := by
  decide

end HistoryBackendMem
