import HistoryBackendMem.Persist.File
import Mathlib.Logic.Relation

/-!
# System — the timer `history_mem_clean`

Each call sweeps a slice of the table: the `do { ... } while
(loopcnt++ < HISTORY_CLEAN_PER_LOOP)` loop runs its body for `loopcnt` from
`0` to `HISTORY_CLEAN_PER_LOOP`, that is `17` times, each on the bucket at the
static cursor `hashnum`, which then moves on, wrapping at the table's size.
In every bucket each object is cleaned, then written when `persist` is on and
it is dirty.

`cleanLoop_eq` says which buckets one call visits; `cleanCalls_cover`, that
`HISTORY_SPREAD` calls in a row visit every bucket, from any cursor.
-/

namespace HistoryBackendMem

variable (H : Host)

/-! ## One call -/

/-- The body of the inner `for` on one object: `hbm_history_cleanup(h)`, then
`if (cfg.persist && h->dirty) hbm_write_db(h)`. -/
def tickObject (cfg : CfgStruct) (chanP : List Char → Bool) (now : Int) (io : WriteIO)
    (disk : Disk) (h : HistoryLogObject) : Option (HistoryLogObject × Disk) :=
  (hbmHistoryCleanup now h).bind fun h =>
    if cfg.persist ∧ h.dirty then (hbmWriteDb H cfg chanP io disk h).map fun r => r.2
    else some (h, disk)

/-- What a timer step does to an object: a cleanup, after which a write may
mark it clean. -/
theorem tickObject_cases {cfg : CfgStruct} {chanP : List Char → Bool} {now : Int} {io : WriteIO}
    {disk d : Disk} {h h' : HistoryLogObject}
    (ht : tickObject H cfg chanP now io disk h = some (h', d)) :
    ∃ h₁, hbmHistoryCleanup now h = some h₁ ∧ (h' = h₁ ∨ h' = { h₁ with dirty := false }) := by
  obtain ⟨h₁, hc, hw⟩ := Option.bind_eq_some.mp ht
  refine ⟨h₁, hc, ?_⟩
  split at hw
  · obtain ⟨⟨r, h₂, d₂⟩, hw, hr⟩ := Option.map_eq_some'.mp hw
    cases hr
    exact hbmWriteDb_object H hw
  · cases hw; exact .inl rfl

/-- The inner `for` over a bucket chain; `io k` is how the write of the `k`-th
object fares. -/
def cleanBucket (cfg : CfgStruct) (chanP : List Char → Bool) (now : Int) :
    (Nat → WriteIO) → Disk → List HistoryLogObject → Option (List HistoryLogObject × Disk)
  | _, disk, [] => some ([], disk)
  | io, disk, h :: rest =>
    (tickObject H cfg chanP now (io 0) disk h).bind fun r =>
      (cleanBucket cfg chanP now (fun k => io (k + 1)) r.2 rest).map fun rs => (r.1 :: rs.1, rs.2)

/-- The cursor after `hashnum++; if (hashnum >= SIZE) hashnum = 0;`. -/
def nextHashnum (hashnum : Nat) : Nat := if hashnum + 1 ≥ hashTableSize then 0 else hashnum + 1

/-- The body of the loop on the bucket at `hashnum`; a cursor past the table is
a fault. -/
def cleanBody (cfg : CfgStruct) (chanP : List Char → Bool) (now : Int)
    (io : Fin hashTableSize → Nat → WriteIO) (hashnum : Nat) (tb : Table) (disk : Disk) :
    Option (Table × Disk) :=
  if hb : hashnum < hashTableSize then
    (cleanBucket H cfg chanP now (io ⟨hashnum, hb⟩) disk (tb ⟨hashnum, hb⟩)).map fun r =>
      (Function.update tb ⟨hashnum, hb⟩ r.1, r.2)
  else none

/-- `do { body } while (loopcnt++ < HISTORY_CLEAN_PER_LOOP)`, with `left`
standing for `HISTORY_CLEAN_PER_LOOP - loopcnt`: the body runs, then the loop
goes on while `left` is positive. The cursor, table and files it ends with. -/
def cleanLoop (cfg : CfgStruct) (chanP : List Char → Bool) (now : Int)
    (io : Fin hashTableSize → Nat → WriteIO) :
    (left hashnum : Nat) → Table → Disk → Option (Nat × Table × Disk)
  | left, hashnum, tb, disk =>
    (cleanBody H cfg chanP now io hashnum tb disk).bind fun r =>
      match left with
      | 0 => some (nextHashnum hashnum, r.1, r.2)
      | left + 1 => cleanLoop cfg chanP now io left (nextHashnum hashnum) r.1 r.2

/-- `history_mem_clean()` at `TStime() = now`, with the cursor `hashnum`: the
loop from `loopcnt = 0`. -/
def historyMemClean (cfg : CfgStruct) (chanP : List Char → Bool) (now : Int)
    (io : Fin hashTableSize → Nat → WriteIO) (hashnum : Nat) (tb : Table) (disk : Disk) :
    Option (Nat × Table × Disk) :=
  cleanLoop H cfg chanP now io historyCleanPerLoop hashnum tb disk

/-! ## Which buckets a call visits -/

/-- The bodies of the loop on the buckets `bs`, in order. -/
def cleanBodies (cfg : CfgStruct) (chanP : List Char → Bool) (now : Int)
    (io : Fin hashTableSize → Nat → WriteIO) : List Nat → Table → Disk → Option (Table × Disk)
  | [], tb, disk => some (tb, disk)
  | b :: bs, tb, disk =>
    (cleanBody H cfg chanP now io b tb disk).bind fun r => cleanBodies cfg chanP now io bs r.1 r.2

/-- The `n` cursors from `hashnum` on. -/
def cursors : Nat → Nat → List Nat
  | 0, _ => []
  | n + 1, hashnum => hashnum :: cursors n (nextHashnum hashnum)

/-- **The `do ... while` loop** runs its body `left + 1` times, on
consecutive cursors. -/
theorem cleanLoop_eq (cfg : CfgStruct) (chanP : List Char → Bool) (now : Int)
    (io : Fin hashTableSize → Nat → WriteIO) :
    ∀ (left hashnum : Nat) (tb : Table) (disk : Disk),
    cleanLoop H cfg chanP now io left hashnum tb disk =
      (cleanBodies H cfg chanP now io (cursors (left + 1) hashnum) tb disk).map fun r =>
        (nextHashnum^[left + 1] hashnum, r.1, r.2)
  | 0, hashnum, tb, disk => by
    rw [cleanLoop]
    simp only [cursors, cleanBodies]
    cases cleanBody H cfg chanP now io hashnum tb disk <;> rfl
  | left + 1, hashnum, tb, disk => by
    rw [cleanLoop, cursors, cleanBodies]
    cases cleanBody H cfg chanP now io hashnum tb disk with
    | none => rfl
    | some r =>
      simp only [Option.some_bind]
      rw [cleanLoop_eq cfg chanP now io left _ _ _]
      rfl

theorem nextHashnum_iterate {hashnum : Nat} (h : hashnum < hashTableSize) :
    ∀ n, nextHashnum^[n] hashnum = (hashnum + n) % hashTableSize
  | 0 => by simp [Nat.mod_eq_of_lt h]
  | n + 1 => by
    rw [Function.iterate_succ_apply', nextHashnum_iterate h n]
    simp only [nextHashnum, hashTableSize] at h ⊢
    split <;> omega

theorem cursors_eq {hashnum : Nat} (h : hashnum < hashTableSize) :
    ∀ n, cursors n hashnum = (List.range n).map fun i => (hashnum + i) % hashTableSize
  | 0 => rfl
  | n + 1 => by
    have hn : nextHashnum hashnum < hashTableSize := by
      simp only [nextHashnum, hashTableSize] at h ⊢; split <;> omega
    rw [cursors, cursors_eq hn n, List.range_succ_eq_map]
    simp only [List.map_cons, List.map_map, Nat.add_zero, Nat.mod_eq_of_lt h, List.cons.injEq,
      true_and]
    apply List.map_congr_left
    intro i _
    have := nextHashnum_iterate h 1
    simp only [Function.iterate_one] at this
    simp only [Function.comp_apply, this, hashTableSize]
    omega

/-- **One call of `history_mem_clean`** cleans the `HISTORY_CLEAN_PER_LOOP + 1`
buckets from the cursor on, in order, and moves the cursor past them. -/
theorem historyMemClean_eq (cfg : CfgStruct) (chanP : List Char → Bool) (now : Int)
    (io : Fin hashTableSize → Nat → WriteIO) {hashnum : Nat} (h : hashnum < hashTableSize)
    (tb : Table) (disk : Disk) :
    historyMemClean H cfg chanP now io hashnum tb disk =
      (cleanBodies H cfg chanP now io
          ((List.range (historyCleanPerLoop + 1)).map fun i => (hashnum + i) % hashTableSize)
          tb disk).map fun r =>
        ((hashnum + (historyCleanPerLoop + 1)) % hashTableSize, r.1, r.2) := by
  rw [historyMemClean, cleanLoop_eq H cfg chanP now io historyCleanPerLoop hashnum tb disk,
    cursors_eq h, nextHashnum_iterate h]

/-- **`HISTORY_SPREAD` calls visit every bucket**: from any cursor, every
bucket is among those whose bodies one of the calls `0, ..., 59` runs, the
call `j` starting at the cursor the `j` calls before it leave. -/
theorem cleanCalls_cover (cfg : CfgStruct) (chanP : List Char → Bool) (now : Int)
    (io : Fin hashTableSize → Nat → WriteIO) {hashnum : Nat} (h : hashnum < hashTableSize)
    (b : Fin hashTableSize) :
    ∃ j < historySpread, ∃ bs : List Nat, b.val ∈ bs ∧ ∀ tb disk,
      historyMemClean H cfg chanP now io
          ((hashnum + (historyCleanPerLoop + 1) * j) % hashTableSize) tb disk =
        (cleanBodies H cfg chanP now io bs tb disk).map fun r =>
          ((hashnum + (historyCleanPerLoop + 1) * (j + 1)) % hashTableSize, r.1, r.2) := by
  have hb := b.isLt
  -- the call `j` visits `b` at its step `i`, counted from the cursor
  have hj : (b.val + 1019 - hashnum) % 1019 / 17 < historySpread := by
    simp only [historySpread, hashTableSize] at h hb ⊢; omega
  have hc : ((hashnum + (historyCleanPerLoop + 1) * ((b.val + 1019 - hashnum) % 1019 / 17)) %
      hashTableSize + (historyCleanPerLoop + 1)) % hashTableSize =
      (hashnum + (historyCleanPerLoop + 1) * ((b.val + 1019 - hashnum) % 1019 / 17 + 1)) %
        hashTableSize := by
    simp only [historyCleanPerLoop, historySpread, hashTableSize]; omega
  refine ⟨_, hj, _, ?_, fun tb disk => by
    rw [historyMemClean_eq H cfg chanP now io (Nat.mod_lt _ (by decide)), hc]⟩
  simp only [List.mem_map, List.mem_range, historyCleanPerLoop, historySpread, hashTableSize]
    at h hb ⊢
  exact ⟨(b.val + 1019 - hashnum) % 1019 % 17, by omega, by omega⟩

theorem cleanCalls_cover_last :
    (0 : Nat) < hashTableSize ∧ ∃ j < historySpread, ∃ bs : List Nat, 1018 ∈ bs ∧ ∀ tb disk,
      historyMemClean Host.sample .zero (fun _ => false) 0 (fun _ _ => .ok)
          ((0 + (historyCleanPerLoop + 1) * j) % hashTableSize) tb disk =
        (cleanBodies Host.sample .zero (fun _ => false) 0 (fun _ _ => .ok) bs tb disk).map fun r =>
          ((0 + (historyCleanPerLoop + 1) * (j + 1)) % hashTableSize, r.1, r.2) :=
  ⟨by decide, cleanCalls_cover Host.sample .zero _ 0 _ (by decide) ⟨1018, by decide⟩⟩

/-! ## Calls that change nothing -/

section Fixed

variable {cfg : CfgStruct} {chanP : List Char → Bool} {now : Int} (hp : cfg.persist = false)
include hp

/-- With `persist` off nothing is written: a timer step is the cleanup. -/
theorem tickObject_of_noPersist (io : WriteIO) (disk : Disk) (h : HistoryLogObject) :
    tickObject H cfg chanP now io disk h = (hbmHistoryCleanup now h).map fun h => (h, disk) := by
  simp [tickObject, hp, Option.bind_eq_bind, Option.map_eq_bind]

theorem cleanBucket_of_fixed :
    ∀ (l : List HistoryLogObject) (io : Nat → WriteIO) (disk : Disk),
      (∀ h ∈ l, hbmHistoryCleanup now h = some h) → cleanBucket H cfg chanP now io disk l = some (l, disk)
  | [], _, _, _ => rfl
  | h :: l, io, disk, hfix => by
    rw [cleanBucket, tickObject_of_noPersist H hp, hfix h (List.mem_cons_self _ _), Option.map_some',
      Option.some_bind, cleanBucket_of_fixed l _ disk fun x hx => hfix x (List.mem_cons_of_mem _ hx)]
    rfl

theorem cleanBodies_of_fixed {io : Fin hashTableSize → Nat → WriteIO} {tb : Table} {disk : Disk}
    (hfix : tb.All fun h => hbmHistoryCleanup now h = some h) :
    ∀ bs : List Nat, (∀ b ∈ bs, b < hashTableSize) →
      cleanBodies H cfg chanP now io bs tb disk = some (tb, disk)
  | [], _ => rfl
  | b :: bs, hbs => by
    have hb := hbs b (List.mem_cons_self _ _)
    rw [cleanBodies, cleanBody, dif_pos hb, cleanBucket_of_fixed H hp _ _ _ (hfix _),
      Option.map_some', Option.some_bind, Function.update_eq_self]
    exact cleanBodies_of_fixed hfix bs fun x hx => hbs x (List.mem_cons_of_mem _ hx)

/-- **A call on a table its cleanups leave as it is** changes nothing but the
cursor, when `persist` is off. -/
theorem historyMemClean_of_fixed {io : Fin hashTableSize → Nat → WriteIO} {hashnum : Nat}
    {tb : Table} {disk : Disk} (hh : hashnum < hashTableSize)
    (hfix : tb.All fun h => hbmHistoryCleanup now h = some h) :
    historyMemClean H cfg chanP now io hashnum tb disk =
      some ((hashnum + (historyCleanPerLoop + 1)) % hashTableSize, tb, disk) := by
  rw [historyMemClean_eq H cfg chanP now io hh, cleanBodies_of_fixed H hp hfix]
  · rfl
  · intro b hb
    obtain ⟨i, -, rfl⟩ := List.mem_map.mp hb
    exact Nat.mod_lt _ (by decide)

end Fixed

/-! ## What a call does to the objects and the files -/

/-- One object of the table goes through `tickObject`, the files with it. -/
def TickStep (cfg : CfgStruct) (chanP : List Char → Bool) (now : Int) (s s' : Table × Disk) :
    Prop :=
  ∃ b i h io h' d, (s.1 b)[i]? = some h ∧ tickObject H cfg chanP now io s.2 h = some (h', d) ∧
    s' = (Function.update s.1 b ((s.1 b).set i h'), d)

theorem cleanBucket_steps (cfg : CfgStruct) (chanP : List Char → Bool) (now : Int)
    (b : Fin hashTableSize) :
    ∀ (l done : List HistoryLogObject) (io : Nat → WriteIO) (tb : Table) (disk disk' : Disk)
      (l' : List HistoryLogObject), tb b = done ++ l →
    cleanBucket H cfg chanP now io disk l = some (l', disk') →
    Relation.ReflTransGen (TickStep H cfg chanP now) (tb, disk)
      (Function.update tb b (done ++ l'), disk')
  | [], done, _, tb, disk, disk', l', hb, hc => by
    cases hc
    simp only [List.append_nil, ← hb, Function.update_eq_self]
    exact .refl
  | h :: rest, done, io, tb, disk, disk', l', hb, hc => by
    obtain ⟨⟨h', d⟩, hobj, hrest⟩ := Option.bind_eq_some.mp hc
    obtain ⟨⟨rest', d'⟩, hrun, hl⟩ := Option.map_eq_some'.mp hrest
    cases hl
    dsimp only at hrun ⊢
    have hset : (tb b).set done.length h' = done ++ h' :: rest := by simp [hb]
    have hstep : TickStep H cfg chanP now (tb, disk)
        (Function.update tb b (done ++ h' :: rest), d) :=
      ⟨b, done.length, h, io 0, h', d,
        by dsimp only; rw [hb, List.getElem?_append_right (le_refl _)]; simp,
        hobj, by rw [hset]⟩
    have := cleanBucket_steps cfg chanP now b rest (done ++ [h']) _
      (Function.update tb b (done ++ h' :: rest)) d d' rest' (by simp) hrun
    simp only [Function.update_idem, List.append_assoc, List.singleton_append] at this
    exact .head hstep this

theorem cleanBodies_steps (cfg : CfgStruct) (chanP : List Char → Bool) (now : Int)
    (io : Fin hashTableSize → Nat → WriteIO) :
    ∀ (bs : List Nat) (tb tb' : Table) (disk disk' : Disk),
    cleanBodies H cfg chanP now io bs tb disk = some (tb', disk') →
    Relation.ReflTransGen (TickStep H cfg chanP now) (tb, disk) (tb', disk')
  | [], tb, tb', disk, disk', h => by cases h; exact .refl
  | b :: bs, tb, tb', disk, disk', h => by
    obtain ⟨⟨tb₁, d₁⟩, hbody, hrest⟩ := Option.bind_eq_some.mp h
    unfold cleanBody at hbody
    split at hbody
    · rename_i hlt
      obtain ⟨⟨l', d⟩, hc, hr⟩ := Option.map_eq_some'.mp hbody
      cases hr
      exact (cleanBucket_steps H cfg chanP now _ _ [] _ tb disk d l' rfl hc).trans
        (cleanBodies_steps cfg chanP now io bs _ tb' d disk' hrest)
    · cases hbody

/-- **A call is a sequence of object steps**: every change it makes to the
table and the files is one object going through `tickObject`. -/
theorem historyMemClean_steps {cfg : CfgStruct} {chanP : List Char → Bool} {now : Int}
    {io : Fin hashTableSize → Nat → WriteIO} {hashnum hashnum' : Nat} {tb tb' : Table}
    {disk disk' : Disk} (h : historyMemClean H cfg chanP now io hashnum tb disk =
      some (hashnum', tb', disk')) :
    Relation.ReflTransGen (TickStep H cfg chanP now) (tb, disk) (tb', disk') := by
  rw [historyMemClean, cleanLoop_eq H cfg chanP now io historyCleanPerLoop hashnum tb disk] at h
  obtain ⟨⟨tb₁, d₁⟩, hrun, hr⟩ := Option.map_eq_some'.mp h
  simp only [Prod.mk.injEq] at hr
  obtain ⟨-, rfl, rfl⟩ := hr
  exact cleanBodies_steps H cfg chanP now io _ tb tb₁ disk d₁ hrun

end HistoryBackendMem
