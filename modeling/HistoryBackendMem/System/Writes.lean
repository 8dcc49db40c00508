import HistoryBackendMem.System.Isolation

/-!
# What reaches the disk

The module writes two kinds of file: `master.db`, from the post-test of a
configuration round (`hbm_write_masterdb`), and a channel's history file, from
the timer (`hbm_write_db`), which skips every channel without `+P`. The other
calls only unlink files. So every value a step other than a boot load puts on
disk is a `master.db` record or (a prefix of) the file of a log that the table
holds for a channel with `+P`, with a sublist of that log's lines: no line of a
channel without `+P` is ever written.
-/

namespace HistoryBackendMem

/-- Every file that changes from `d` to `d'` and is there in `d'` holds values
that satisfy `P`. -/
def DiskWrites (P : List DbValue → Prop) (d d' : Disk) : Prop :=
  ∀ p vals, d' p = some vals → d' p ≠ d p → P vals

/-- The record `hbm_write_masterdb` writes, or the prefix of it a failed
write leaves: version 5000 and the two salts. -/
def MasterRecord (vals : List DbValue) : Prop :=
  ∃ pre post, vals <+: [.int32 5000, .str pre, .str post]

/-- `vals` is what `hbm_write_db` writes, or a prefix of it, with the salts of
`cfg`, for a log made from a log of `tb` whose channel has `+P`: the same name
and a sublist of its lines. -/
def PlusPFile (cfg : CfgStruct) (chanP : List Char → Bool) (tb : Table) (vals : List DbValue) :
    Prop :=
  ∃ b g g₁, g ∈ tb b ∧ chanP (foldCase g.name) = true ∧ g₁.name = g.name ∧
    g₁.entries.Sublist g.entries ∧ vals <+: hbmWriteDbValues cfg.prehash cfg.posthash g₁ g₁.entries

section DiskWrites

variable {P Q : List DbValue → Prop} {d₁ d₂ d₃ : Disk}

theorem DiskWrites.refl (P : List DbValue → Prop) (d : Disk) : DiskWrites P d d :=
  fun _ _ _ hne => absurd rfl hne

theorem DiskWrites.trans (h₁ : DiskWrites P d₁ d₂) (h₂ : DiskWrites P d₂ d₃) :
    DiskWrites P d₁ d₃ := by
  intro p vals hv hne
  by_cases h : d₃ p = d₂ p
  · exact h₁ p vals (h ▸ hv) (h ▸ hne)
  · exact h₂ p vals hv h

theorem DiskWrites.mono (h : DiskWrites P d₁ d₂) (hPQ : ∀ vals, P vals → Q vals) :
    DiskWrites Q d₁ d₂ :=
  fun p vals hv hne => hPQ vals (h p vals hv hne)

theorem DiskWrites.update (h : DiskWrites P d₁ d₂) (p : String) {v : Option (List DbValue)}
    (hv : ∀ vals, v = some vals → P vals) : DiskWrites P d₁ (Function.update d₂ p v) := by
  intro q vals hq hne
  by_cases hp : q = p
  · subst hp; rw [Function.update_same] at hq; exact hv vals hq
  · rw [Function.update_noteq hp] at hq hne; exact h q vals hq hne

/-- An unlink writes nothing. -/
theorem DiskWrites.unlink (d : Disk) (p : String) : DiskWrites P d (Function.update d p none) :=
  (DiskWrites.refl P d).update p fun _ h => nomatch h

end DiskWrites

variable {H : Host}

/-! ## The writers -/

/-- **`hbm_write_db` writes only the file of a `+P` channel**, the values of
its lines or a prefix of them. -/
theorem hbmWriteDb_writes {cfg : CfgStruct} {chanP : List Char → Bool} {io : WriteIO}
    {disk d : Disk} {h h' : HistoryLogObject} {r : Int}
    (hw : hbmWriteDb H cfg chanP io disk h = some (r, h', d)) :
    DiskWrites (fun vals => chanP (foldCase h.name) = true ∧
      vals <+: hbmWriteDbValues cfg.prehash cfg.posthash h h.entries) disk d := by
  unfold hbmWriteDb at hw
  obtain ⟨_, -, hw⟩ := Option.bind_eq_some.mp hw
  split at hw
  · rename_i hP
    obtain ⟨real, -, hw⟩ := Option.bind_eq_some.mp hw
    obtain ⟨cells, hc, hw⟩ := Option.map_eq_some'.mp hw
    have hent : cells.map Prod.snd = h.entries := by simp [HistoryLogObject.entries, hc]
    rw [hent] at hw
    split at hw <;> cases hw
    · exact .refl _ _
    · exact (DiskWrites.refl _ _).update _ fun _ hv => by cases hv; exact ⟨hP, List.take_prefix _ _⟩
    · exact (DiskWrites.refl _ _).update _ fun _ hv => by cases hv; exact ⟨hP, List.prefix_refl _⟩
    · exact (DiskWrites.refl _ _).update _ fun _ hv => by cases hv; exact ⟨hP, List.prefix_refl _⟩
    · exact (DiskWrites.unlink _ _).update _ fun _ hv => by cases hv; exact ⟨hP, List.prefix_refl _⟩
  · cases hw; exact .refl _ _

theorem tickObject_entries {cfg : CfgStruct} {chanP : List Char → Bool} {now : Int}
    {io : WriteIO} {disk d : Disk} {h h' : HistoryLogObject} (ho : ObjOk H h)
    (ht : tickObject H cfg chanP now io disk h = some (h', d)) : h'.entries.Sublist h.entries := by
  obtain ⟨h₁, hc, hw⟩ := tickObject_cases H ht
  obtain ⟨cells, hl⟩ := ho.log
  obtain ⟨h₂, hrun, hsub⟩ := hbmHistoryCleanup_entries hl.inv now
  cases hc.symm.trans hrun
  rcases hw with rfl | rfl <;> exact hsub

/-- A timer visit of a well-formed object writes only what `hbm_write_db`
writes for its cleaned log. -/
theorem tickObject_writes {cfg : CfgStruct} {chanP : List Char → Bool} {now : Int}
    {io : WriteIO} {disk d : Disk} {h h' : HistoryLogObject} (ho : ObjOk H h)
    (ht : tickObject H cfg chanP now io disk h = some (h', d)) :
    DiskWrites (fun vals => ∃ h₁ : HistoryLogObject, h₁.name = h.name ∧
      h₁.entries.Sublist h.entries ∧ chanP (foldCase h₁.name) = true ∧
      vals <+: hbmWriteDbValues cfg.prehash cfg.posthash h₁ h₁.entries) disk d := by
  obtain ⟨h₁, hc, hw⟩ := Option.bind_eq_some.mp ht
  obtain ⟨cells, hl⟩ := ho.log
  obtain ⟨h₂, hrun, hsub⟩ := hbmHistoryCleanup_entries hl.inv now
  cases hc.symm.trans hrun
  split at hw
  · obtain ⟨⟨r, h₃, d₃⟩, hwr, hr⟩ := Option.map_eq_some'.mp hw
    cases hr
    exact (hbmWriteDb_writes hwr).mono fun _ ⟨hP, hpre⟩ =>
      ⟨h₁, (hbmHistoryCleanup_frame hc).1, hsub, hP, hpre⟩
  · cases hw; exact .refl _ _

/-- `tb₁` holds only objects made from objects of `tb`: the same name and a
sublist of the lines. -/
def Table.From (tb tb₁ : Table) : Prop :=
  ∀ b h, h ∈ tb₁ b → ∃ b' g, g ∈ tb b' ∧ h.name = g.name ∧ h.entries.Sublist g.entries

/-- **A timer call writes only `+P` files of the table it started from.** -/
theorem tickSteps_writes {cfg : CfgStruct} {chanP : List Char → Bool} {now : Int} {tb : Table}
    {disk : Disk} {s' : Table × Disk}
    (hr : Relation.ReflTransGen (TickStep H cfg chanP now) (tb, disk) s')
    (hok : tb.All (ObjOk H)) :
    DiskWrites (PlusPFile cfg chanP tb) disk s'.2 ∧ tb.From s'.1 := by
  induction hr with
  | refl => exact ⟨.refl _ _, fun b h hh => ⟨b, h, hh, rfl, List.Sublist.refl _⟩⟩
  | @tail s₁ _ hr₁ hst ih =>
    obtain ⟨hw₁, hfrom⟩ := ih
    obtain ⟨b, i, h, io, h', d, hh, ht, rfl⟩ := hst
    have ho := Table.All.tickSteps (fun _ _ _ _ _ ho ht => ho.tickObject ht) hr₁ hok b h
      (List.getElem?_mem hh)
    obtain ⟨b', g, hg, hname, hsub⟩ := hfrom b h (List.getElem?_mem hh)
    refine ⟨hw₁.trans ((tickObject_writes ho ht).mono fun _ ⟨h₁, hn₁, hs₁, hP, hpre⟩ =>
      ⟨b', g, h₁, hg, by rwa [hn₁, hname] at hP, hn₁.trans hname, hs₁.trans hsub, hpre⟩), ?_⟩
    intro c x hx
    dsimp only at hx
    rw [Function.update_apply] at hx
    split at hx
    · subst c
      rcases List.mem_or_eq_of_mem_set hx with hx | rfl
      · exact hfrom b x hx
      · exact ⟨b', g, hg, (tickObject_name ht).trans hname, (tickObject_entries ho ht).trans hsub⟩
    · exact hfrom c x hx

theorem hbmWriteMasterdb_writes {test cfg : CfgStruct} {path : String} {disk : Disk}
    {io : PosttestIO} {r : Bool × CfgStruct × Disk × List ConfigMsg}
    (h : hbmWriteMasterdb test cfg path disk io = some r) : DiskWrites MasterRecord disk r.2.2.1 := by
  obtain ⟨_, -, rfl⟩ := Option.map_eq_some'.mp h
  split
  · exact .refl _ _
  · exact (DiskWrites.refl _ _).update _ fun _ hv => by cases hv; exact ⟨_, _, List.take_prefix _ _⟩
  · exact (DiskWrites.refl _ _).update _ fun _ hv => by cases hv; exact ⟨_, _, List.prefix_rfl⟩

theorem hbmReadMasterdb_writes {test cfg : CfgStruct} {disk : Disk} {io : PosttestIO}
    {r : Bool × CfgStruct × Disk × List ConfigMsg} (h : hbmReadMasterdb test cfg disk io = some r) :
    DiskWrites MasterRecord disk r.2.2.1 := by
  obtain ⟨path, -, h⟩ := Option.bind_eq_some.mp h
  split at h
  · obtain ⟨w, hw, rfl⟩ := Option.map_eq_some'.mp h
    exact (hbmWriteMasterdb_writes hw :)
  · split at h <;> cases h <;> exact .refl _ _

/-- **A configuration round writes only `master.db` records.** -/
theorem rehashRound_writes {cfg test : CfgStruct} {disk : Disk} {entries : List ConfigEntry}
    {io : PosttestIO} {r : CfgStruct × CfgStruct × Disk}
    (h : rehashRound H cfg test disk entries io = some r) : DiskWrites MasterRecord disk r.2.2 := by
  obtain ⟨c, hc, h⟩ := Option.bind_eq_some.mp h
  have hdisk : r.2.2 = c.2.disk := by
    split at h
    · cases h; rfl
    · obtain ⟨_, -, rfl⟩ := Option.map_eq_some'.mp h; rfl
  obtain ⟨p, hp, rfl⟩ := Option.map_eq_some'.mp hc
  obtain ⟨q, hq, rfl⟩ := Option.map_eq_some'.mp hp
  rw [hdisk]
  unfold posttestChecks at hq
  repeat' split at hq
  all_goals first
    | (cases hq; exact .refl _ _)
    | (obtain ⟨m, hm, rfl⟩ := Option.map_eq_some'.mp hq; exact hbmReadMasterdb_writes hm)

theorem hbmDeleteDb_writes {P : List DbValue → Prop} {cfg : CfgStruct} {disk d : Disk}
    {name : String} (h : hbmDeleteDb H cfg disk name = some d) : DiskWrites P disk d := by
  unfold hbmDeleteDb at h
  split at h
  · obtain ⟨_, -, rfl⟩ := Option.map_eq_some'.mp h
    exact .unlink _ _
  · cases h; exact .refl _ _

/-! ## Every step -/

/-- **Only `+P` history reaches the disk**: from every state of a run of the
host's calls, boot loads included, on names that fit, every file that a call
other than a boot load writes holds a `master.db` record, written by a
configuration round, or what `hbm_write_db` writes (or a prefix of it) for a log
made from a log the table holds for a channel with `+P`, with a sublist of
its lines. -/
theorem only_plusP_history_reaches_disk {s s' : Sys}
    (hr : Reachable H (fun op => op.HostOk ∧ op.NameFits H.objectLen) s) {op : Op}
    (hl : op.NoLoad) (h : step H s op = some s') :
    DiskWrites (fun vals => ((∃ entries io, op = .rehash entries io) ∧ MasterRecord vals) ∨
      PlusPFile s.cfg s.chanP s.table vals) s.disk s'.disk := by
  cases op with
  | add | setLimit | request | setModeP =>
    first
      | (obtain ⟨_, -, rfl⟩ := Option.map_eq_some'.mp h; exact .refl _ _)
      | (cases h; exact .refl _ _)
  | destroy object =>
    obtain ⟨⟨r, tb', d⟩, hd, rfl⟩ := Option.map_eq_some'.mp h
    rcases hbmHistoryDestroy_eq H hd with ⟨-, -, -, rfl⟩ | ⟨i, g, -, -, -, -, hdel⟩
    · exact .refl _ _
    · split at hdel
      · exact hbmDeleteDb_writes hdel
      · cases hdel; exact .refl _ _
  | unsetModeP chname =>
    obtain ⟨⟨tb', d⟩, hd, rfl⟩ := Option.map_eq_some'.mp h
    unfold hbmModecharDel at hd
    repeat' split at hd
    all_goals first
      | (cases hd; exact .refl _ _)
      | (obtain ⟨d', hdel, hd⟩ := Option.map_eq_some'.mp hd; cases hd; exact hbmDeleteDb_writes hdel)
  | tick now io =>
    obtain ⟨⟨n, tb', d⟩, ht, rfl⟩ := Option.map_eq_some'.mp h
    exact (tickSteps_writes (historyMemClean_steps H ht) (reachable_objOk (fun _ h => h.1) hr)).1.mono
      fun _ hv => .inr hv
  | load => exact hl.elim
  | rehash entries io =>
    obtain ⟨r, hre, rfl⟩ := Option.map_eq_some'.mp h
    exact (rehashRound_writes hre).mono fun _ hv => .inl ⟨⟨entries, io, rfl⟩, hv⟩

/-- A timer call on the sample run writes the file of `#a`, which has `+P`. -/
theorem only_plusP_history_reaches_disk_sample :
    Reachable Host.sample (fun op => op.HostOk ∧ op.NameFits Host.sample.objectLen) sampleRun ∧
    (Op.tick 200 fun _ _ => .ok).NoLoad ∧
    step Host.sample sampleRun (.tick 200 fun _ _ => .ok) =
      some (after Host.sample sampleRun [.tick 200 fun _ _ => .ok]) ∧
    sampleRun.disk "history/pre #a post.db" = none ∧
    ((after Host.sample sampleRun [.tick 200 fun _ _ => .ok]).disk "history/pre #a post.db").isSome ∧
    DiskWrites (fun vals =>
        ((∃ entries io, Op.tick 200 (fun _ _ => .ok) = .rehash entries io) ∧ MasterRecord vals) ∨
        PlusPFile sampleRun.cfg sampleRun.chanP sampleRun.table vals)
      sampleRun.disk (after Host.sample sampleRun [.tick 200 fun _ _ => .ok]).disk := by
  have h := step_after Host.sample (show (step Host.sample sampleRun (.tick 200 fun _ _ => .ok)).isSome by
    rw [step_tick _ (by decide)]; decide)
  have hfile : ((after Host.sample sampleRun [.tick 200 fun _ _ => .ok]).disk
      "history/pre #a post.db").isSome := by
    rw [after_singleton, step_tick _ (by decide)]; decide
  have hw := only_plusP_history_reaches_disk sampleRun_reachable_host
    (show (Op.tick 200 fun _ _ => .ok).NoLoad from trivial) h
  exact ⟨sampleRun_reachable_host, trivial, h, by decide, hfile, hw⟩

end HistoryBackendMem
