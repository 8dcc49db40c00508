import HistoryBackendMem.System.Progress
import HistoryBackendMem.System.Boot

/-!
# Channels are isolated

A host call on a channel (`hbm_history_add`, `hbm_history_set_limit`,
`hbm_history_request`, `hbm_history_destroy`, `+P` set or `hbm_modechar_del`
on `-P`) touches the object held under the channel's name, and the channel's
`+P`, and nothing else of the table. Its effect there is a function of what the
channel held before (`Op.onObject`, `Op.onMode`). So after any interleaving of
calls on many channels, each channel holds what the calls on that channel
alone, in the same order, would leave.
-/

namespace HistoryBackendMem

/-- The folded name a call on a channel acts on; `none` for the timer, a load
and a rehash. -/
def Op.channel : Op → Option (List Char)
  | .add object _ _ _ | .setLimit object _ _ _ | .request object _ _ _ | .destroy object =>
    some (foldCase object)
  | .setModeP chname | .unsetModeP chname => some (foldCase chname)
  | _ => none

/-- What a call on a channel does to the object held under the channel's
name, with the live record `cfg`. -/
def Op.onObject (H : Host) (cfg : CfgStruct) : Op → Option HistoryLogObject → Option HistoryLogObject
  | .add object mtags line clock, o => addToObject H mtags line clock (o.getD (.new object))
  | .setLimit object maxLines maxTime now, o =>
    hbmHistoryCleanup now { o.getD (.new object) with maxLines, maxTime }
  | .destroy _, _ => none
  | .unsetModeP _, o => if cfg.persist then o.map fun h => { h with dirty := true } else o
  | _, o => o

/-- What a call on a channel does to the channel's `+P`. -/
def Op.onMode : Op → Bool → Bool
  | .setModeP _, _ => true
  | .unsetModeP _, _ => false
  | _, b => b

variable {H : Host}

theorem Op.noLoad_of_channel {op : Op} {k : List Char} (hk : op.channel = some k) : op.NoLoad := by
  cases op <;> trivial

theorem TableShape.lookup_modifyObject {tb : Table} (hs : TableShape H tb) (object : String)
    {f : HistoryLogObject → HistoryLogObject} (hf : ∀ h, (f h).name = h.name) (k : List Char) :
    (HistoryBackendMem.modifyObject H tb object f).lookup k =
      if k = foldCase object then (tb.lookup k).map f else tb.lookup k := by
  cases hg : hbmFindObject H tb object with
  | some g =>
    obtain ⟨i, hi, hgi, hmod, -⟩ := modifyObject_of_found H hg (hf g)
    obtain ⟨hu, hl⟩ := hs.setAt hi hgi (hf g)
    rw [hmod]
    split_ifs with hk
    · subst hk; rw [hl, ← hs.findObject_eq_lookup, hg]; rfl
    · exact hu.others k hk
  | none =>
    have hmod : HistoryBackendMem.modifyObject H tb object f = tb := by
      dsimp only [HistoryBackendMem.modifyObject]
      split
      · rfl
      · rename_i i hi
        obtain ⟨hlt, -⟩ := List.findIdx?_eq_some_iff_getElem.mp hi
        rw [hbmFindObject_eq, hi] at hg
        simp [List.getElem?_eq_getElem hlt] at hg
    rw [hmod]
    split_ifs with hk
    · subst hk; rw [← hs.findObject_eq_lookup, hg]; rfl
    · rfl

/-- `withObject` on `n` as an update of the map: the key of `n` then holds `f`
of what it held, or of a new object, and every other key keeps its object. -/
theorem TableShape.lookup_withObject {tb tb' : Table} (hs : TableShape H tb) {n : String}
    (hn : n.length ≤ H.objectLen) {f : HistoryLogObject → Option HistoryLogObject}
    (hf : ∀ h h', f h = some h' → h'.name = h.name)
    (hw : HistoryBackendMem.withObject H tb n f = some tb') (k : List Char) :
    tb'.lookup k = if k = foldCase n then f ((tb.lookup k).getD (.new n)) else tb.lookup k := by
  obtain ⟨hu, g, g', hg, hfg, hl⟩ := hs.withObject hn hf hw
  split_ifs with hk
  · subst hk
    rcases hg with hg | ⟨hg, rfl⟩ <;> rw [hl, hg] <;> exact hfg.symm
  · exact hu.others k hk

/-- **What a call on a channel does**: it keeps the live record; under the
channel's name it leaves `Op.onObject` of the object before and `Op.onMode` of
the `+P` before; under every other name it changes nothing. -/
theorem step_channel {s s' : Sys} {op : Op} (hs : TableShape H s.table)
    (hn : op.NameFits H.objectLen) {k' : List Char} (hk : op.channel = some k')
    (h : step H s op = some s') (k : List Char) :
    s'.cfg = s.cfg ∧
    s'.table.lookup k =
      (if k = k' then op.onObject H s.cfg (s.table.lookup k) else s.table.lookup k) ∧
    s'.chanP k = (if k = k' then op.onMode (s.chanP k) else s.chanP k) := by
  cases op with
  | add object mtags line clock =>
    cases hk
    obtain ⟨tb, ht, rfl⟩ := Option.map_eq_some'.mp h
    exact ⟨rfl, hs.lookup_withObject hn (fun _ _ => addToObject_name H) ht k, by split <;> rfl⟩
  | setLimit object maxLines maxTime now =>
    cases hk
    obtain ⟨tb, ht, rfl⟩ := Option.map_eq_some'.mp h
    exact ⟨rfl, hs.lookup_withObject hn (by exact fun _ _ hc => (hbmHistoryCleanup_frame hc).1)
      ht k, by split <;> rfl⟩
  | request object filter now clock =>
    obtain ⟨_, -, rfl⟩ := Option.map_eq_some'.mp h
    exact ⟨rfl, by split <;> rfl, by split <;> rfl⟩
  | destroy object =>
    cases hk
    obtain ⟨⟨r, tb', d⟩, ht, rfl⟩ := Option.map_eq_some'.mp h
    obtain ⟨r', tb'', d', h', -, hrem⟩ := hs.hbmHistoryDestroy s.cfg s.disk object
    cases ht.symm.trans h'
    refine ⟨rfl, ?_, by split <;> rfl⟩
    split_ifs with hkk
    · subst hkk; exact hrem.gone
    · exact hrem.others k hkk
  | setModeP chname =>
    cases hk; cases h
    refine ⟨rfl, by split <;> rfl, ?_⟩
    simp only [Function.update_apply]
    split <;> rfl
  | unsetModeP chname =>
    cases hk
    obtain ⟨⟨tb', d⟩, ht, rfl⟩ := Option.map_eq_some'.mp h
    refine ⟨rfl, ?_, by simp only [Function.update_apply]; split <;> rfl⟩
    have hlook := hs.findObject_eq_lookup chname
    unfold hbmModecharDel at ht
    split at ht
    · rename_i hp
      have hp : s.cfg.persist = true := by simpa using hp
      split at ht
      · rename_i hf
        cases ht
        split_ifs with hkk
        · subst hkk; simp [Op.onObject, hp, ← hlook, hf]
        · rfl
      · obtain ⟨d, -, ht⟩ := Option.map_eq_some'.mp ht
        cases ht
        dsimp only
        rw [@TableShape.lookup_modifyObject H _ hs chname (fun h => { h with dirty := true })
          (fun _ => rfl) k]
        split_ifs <;> simp [Op.onObject, hp]
    · rename_i hp
      have hp : s.cfg.persist = false := by simpa using hp
      cases ht
      split_ifs <;> simp [Op.onObject, hp]
  | tick | load | rehash => cases hk

/-- A call on a channel never faults on a table of well-formed objects. -/
theorem step_channel_isSome {s : Sys} {op : Op} (hok : s.table.All (ObjOk H)) (hop : op.HostOk)
    {k : List Char} (hk : op.channel = some k) : (step H s op).isSome := by
  cases op with
  | add object mtags line clock => simpa [step] using hbmHistoryAdd_isSome hok object hop line clock
  | setLimit object maxLines maxTime now =>
    simpa [step] using hbmHistorySetLimit_isSome hok object maxLines maxTime now
  | request object filter now clock =>
    simpa [step] using hbmHistoryRequest_isSome hok object filter now clock
  | destroy object => simpa [step] using hbmHistoryDestroy_isSome H s.cfg s.table s.disk object
  | setModeP chname => rfl
  | unsetModeP chname => simpa [step] using hbmModecharDel_isSome s.cfg s.table s.disk chname 'P'
  | tick | load | rehash => cases hk

/-- **A channel's state after a run of calls on channels** is the fold of the
effects of the calls on that channel, in order, from what it held at the
start; such a run never faults. -/
theorem run_channel_fold (k : List Char) {ops : List Op} :
    ∀ {s : Sys}, TableShape H s.table → s.table.All (ObjOk H) →
      (∀ op ∈ ops, op.HostOk ∧ op.NameFits H.objectLen ∧ op.channel.isSome) →
      ∃ s'', run H s ops = some s'' ∧
        s''.table.lookup k = (ops.filter fun op => op.channel = some k).foldl
          (fun o op => op.onObject H s.cfg o) (s.table.lookup k) ∧
        s''.chanP k =
          (ops.filter fun op => op.channel = some k).foldl (fun b op => op.onMode b) (s.chanP k) := by
  induction ops with
  | nil => exact fun {s} _ _ _ => ⟨s, rfl, by rw [List.filter_nil, List.foldl_nil],
    by rw [List.filter_nil, List.foldl_nil]⟩
  | cons op ops ih =>
    intro s hs hok hops
    obtain ⟨hop, hn, hc⟩ := hops op (List.mem_cons_self _ _)
    obtain ⟨k', hk⟩ := Option.isSome_iff_exists.mp hc
    obtain ⟨s', h⟩ := Option.isSome_iff_exists.mp (step_channel_isSome hok hop hk)
    obtain ⟨s'', hrun, hl'', hm''⟩ := ih (step_tableShape hs ⟨Op.noLoad_of_channel hk, hn⟩ h)
      (step_objOk hok hop h) fun o ho => hops o (List.mem_cons_of_mem _ ho)
    obtain ⟨hcfg, hl, hm⟩ := step_channel hs hn hk h k
    refine ⟨s'', by rw [run, h, Option.some_bind, hrun], ?_⟩
    rw [hl'', hm'', hl, hm, hcfg]
    by_cases hkk : k = k'
    · subst hkk; simp [List.filter_cons, hk]
    · simp [List.filter_cons, hk, Ne.symm hkk, hkk]

/-- **Channels are isolated**: from every state of a run of the host's calls,
boot loads included, on names that fit, any interleaving of calls on channels
(adds, limits, requests, destroys, changes of `+P`) never faults, nor do the
calls on one channel alone, and after them each channel holds the object, and
has the `+P`, that the calls on that channel alone, in the same order, leave. -/
theorem channels_isolated {s : Sys}
    (hr : Reachable H (fun op => op.HostOk ∧ op.NameFits H.objectLen) s) {ops : List Op}
    (hops : ∀ op ∈ ops, op.HostOk ∧ op.NameFits H.objectLen ∧ op.channel.isSome)
    (k : List Char) :
    (run H s ops).isSome ∧ (run H s (ops.filter fun op => op.channel = some k)).isSome ∧
    (after H s ops).table.lookup k =
        (after H s (ops.filter fun op => op.channel = some k)).table.lookup k ∧
      (after H s ops).chanP k = (after H s (ops.filter fun op => op.channel = some k)).chanP k := by
  obtain ⟨hs, hok⟩ := reachable_tableShape_load hr
  obtain ⟨s₁, hrun₁, hl₁, hm₁⟩ := run_channel_fold k hs hok hops
  obtain ⟨s₂, hrun₂, hl₂, hm₂⟩ :=
    run_channel_fold k hs hok fun op ho => hops op (List.mem_filter.mp ho).1
  have hidem : ((ops.filter fun op => op.channel = some k).filter fun op => op.channel = some k) =
      ops.filter fun op => op.channel = some k :=
    List.filter_eq_self.mpr fun _ ha => (List.mem_filter.mp ha).2
  rw [hidem] at hl₂ hm₂
  rw [after, after, hrun₁, hrun₂, Option.getD_some, Option.getD_some]
  exact ⟨rfl, rfl, hl₁.trans hl₂.symm, hm₁.trans hm₂.symm⟩

/-- Calls on `#a` and `#b`, interleaved. -/
def interleaved : List Op :=
  [.add "#b" [timeTag "101"] "hey" "x", .setLimit "#a" 1 86400 200, .unsetModeP "#b",
    .add "#a" [timeTag "102"] "hi" "x", .destroy "#b", .setModeP "#a"]

theorem channels_isolated_sample :
    Reachable Host.sample (fun op => op.HostOk ∧ op.NameFits Host.sample.objectLen) sampleRun ∧
    (∀ op ∈ interleaved, op.HostOk ∧ op.NameFits Host.sample.objectLen ∧ op.channel.isSome) ∧
    (run Host.sample sampleRun interleaved).isSome ∧
    (run Host.sample sampleRun
      (interleaved.filter fun op => op.channel = some (foldCase "#a"))).isSome ∧
    (after Host.sample sampleRun interleaved).table.lookup (foldCase "#a") =
        (after Host.sample sampleRun
          (interleaved.filter fun op => op.channel = some (foldCase "#a"))).table.lookup
            (foldCase "#a") ∧
      (after Host.sample sampleRun interleaved).chanP (foldCase "#a") =
        (after Host.sample sampleRun
          (interleaved.filter fun op => op.channel = some (foldCase "#a"))).chanP (foldCase "#a") := by
  have hops : ∀ op ∈ interleaved,
      op.HostOk ∧ op.NameFits Host.sample.objectLen ∧ op.channel.isSome := by
    simp [interleaved, Op.HostOk, Op.NameFits, Op.channel, TagsNamed, timeTag]; decide
  have hc := channels_isolated sampleRun_reachable_host hops (foldCase "#a")
  exact ⟨sampleRun_reachable_host, hops, hc⟩

end HistoryBackendMem
