import HistoryBackendMem.Log.Cleanup

/-!
# Store — the hash table and the per-object operations

`history_hash_table` is 1019 bucket chains of objects. A chain is kept as the
list it links (`AddListItem` pushes at the front, `DelListItem` unlinks), so an
object is known by its bucket and its position there.

`hbm_history_add` and `hbm_history_set_limit` are here, and the unlinking
`DelListItem` of `hbm_history_destroy`, whose disk side is in `Persist.File`.
-/

namespace HistoryBackendMem

variable (H : Host)

/-- `history_hash_table`. -/
abbrev Table := Fin hashTableSize → List HistoryLogObject

/-- The table `MOD_INIT` leaves: every chain empty. -/
def Table.empty : Table := fun _ => []

/-- `hbm_hash(object)`. -/
def hbmHash (object : String) : Fin hashTableSize :=
  ⟨H.siphashNocase object % hashTableSize, Nat.mod_lt _ (by decide)⟩

/-- `strlcpy(h->name, object, sizeof(h->name))`: at most `OBJECTLEN`
characters. C counts bytes; the two agree on every name of at most
`OBJECTLEN` bytes, which the model copies whole as C does. -/
def strlcpyName (object : String) : String := ⟨object.data.take H.objectLen⟩

theorem strlcpyName_of_le {n : String} (hn : n.length ≤ H.objectLen) : strlcpyName H n = n := by
  cases n
  simp only [String.length] at hn
  simp [strlcpyName, List.take_of_length_le hn]

/-- Names equal under `strcasecmp` hash alike. -/
theorem hbmHash_eq {a b : String} (h : strcasecmp a b = true) : hbmHash H a = hbmHash H b := by
  simp [hbmHash, Host.siphashNocase, strcasecmp_iff.mp h]

/-- `hbm_find_object(object)`: the first object of bucket `hbm_hash(object)`
whose name matches case-insensitively. -/
def hbmFindObject (tb : Table) (object : String) : Option HistoryLogObject :=
  (tb (hbmHash H object)).find? fun h => strcasecmp object h.name

/-- `hbm_find_or_add_object(object)`: the chain of bucket `hbm_hash(object)`
after the call and the position of the object returned. A new object is pushed
at the front (`AddListItem`). -/
def hbmFindOrAddObject (tb : Table) (object : String) : List HistoryLogObject × Nat :=
  let chain := tb (hbmHash H object)
  match chain.findIdx? fun h => strcasecmp object h.name with
  | some i => (chain, i)
  | none => (.new (strlcpyName H object) :: chain, 0)

/-- Run `f` on the object `hbm_find_or_add_object(object)` returns and store
the result in its place; `none` when `f` faults. -/
def withObject (tb : Table) (object : String)
    (f : HistoryLogObject → Option HistoryLogObject) : Option Table :=
  let r := hbmFindOrAddObject H tb object
  match r.1[r.2]? with
  | none => none
  | some h => (f h).map fun h' => Function.update tb (hbmHash H object) (r.1.set r.2 h')

/-- **What `withObject` does**: it either rewrites the first object of the
bucket whose name matches, in place, or pushes the new object's result at the
front of the bucket. -/
theorem withObject_eq {tb tb' : Table} {object : String}
    {f : HistoryLogObject → Option HistoryLogObject} (hw : withObject H tb object f = some tb') :
    (∃ i h h', (tb (hbmHash H object)).findIdx? (fun x => strcasecmp object x.name) = some i ∧
      (tb (hbmHash H object))[i]? = some h ∧ f h = some h' ∧
      tb' = Function.update tb (hbmHash H object) ((tb (hbmHash H object)).set i h')) ∨
    ((tb (hbmHash H object)).findIdx? (fun x => strcasecmp object x.name) = none ∧
      ∃ h', f (.new (strlcpyName H object)) = some h' ∧
        tb' = Function.update tb (hbmHash H object) (h' :: tb (hbmHash H object))) := by
  simp only [withObject, hbmFindOrAddObject] at hw
  cases hfind : (tb (hbmHash H object)).findIdx? (fun x => strcasecmp object x.name) with
  | none =>
    simp only [hfind, List.getElem?_cons_zero] at hw
    obtain ⟨h', hf, rfl⟩ := Option.map_eq_some'.mp hw
    exact .inr ⟨rfl, h', hf, rfl⟩
  | some i =>
    simp only [hfind] at hw
    cases hh : (tb (hbmHash H object))[i]? with
    | none => simp [hh] at hw
    | some h =>
      simp only [hh] at hw
      obtain ⟨h', hf, rfl⟩ := Option.map_eq_some'.mp hw
      exact .inl ⟨i, h, h', rfl, hh, hf, rfl⟩

/-! ## Finding an object again -/

/-- The first match is the element at the first matching position. -/
theorem find?_eq_findIdx?_bind {α : Type} (p : α → Bool) :
    ∀ l : List α, l.find? p = (l.findIdx? p).bind fun i => l[i]?
  | [] => rfl
  | y :: l => by
    by_cases hy : p y
    · simp [hy]
    · simp [hy, List.findIdx?_succ, find?_eq_findIdx?_bind p l, Option.bind_map, Function.comp_def]

/-- Writing a matching element at the first matching position keeps it first. -/
theorem findIdx?_set {α : Type} {p : α → Bool} {y : α} (hy : p y = true) :
    ∀ {l : List α} {i : Nat}, l.findIdx? p = some i → (l.set i y).findIdx? p = some i
  | [], _, h => by simp at h
  | x :: l, i, h => by
    by_cases hx : p x
    · simp only [List.findIdx?_cons, hx, if_true, Option.some.injEq] at h
      subst h
      simp [hy]
    · simp only [List.findIdx?_cons, hx, List.findIdx?_succ, Bool.false_eq_true, if_false,
        Option.map_eq_some'] at h
      obtain ⟨j, hj, rfl⟩ := h
      simp [hx, List.findIdx?_succ, findIdx?_set hy hj]

theorem hbmFindObject_eq (tb : Table) (object : String) :
    hbmFindObject H tb object =
      ((tb (hbmHash H object)).findIdx? fun h => strcasecmp object h.name).bind
        fun i => (tb (hbmHash H object))[i]? :=
  find?_eq_findIdx?_bind _ _

/-- **`withObject` on an object that exists** rewrites it in place, where
`hbm_find_object` finds the result next time. -/
theorem withObject_of_found {tb : Table} {object : String} {g g' : HistoryLogObject}
    {f : HistoryLogObject → Option HistoryLogObject} (hg : hbmFindObject H tb object = some g)
    (hf : f g = some g') (hname : g'.name = g.name) :
    ∃ i, (tb (hbmHash H object)).findIdx? (fun x => strcasecmp object x.name) = some i ∧
      (tb (hbmHash H object))[i]? = some g ∧
      withObject H tb object f =
        some (Function.update tb (hbmHash H object) ((tb (hbmHash H object)).set i g')) ∧
      hbmFindObject H (Function.update tb (hbmHash H object)
        ((tb (hbmHash H object)).set i g')) object = some g' := by
  have hmatch : strcasecmp object g'.name = true := by
    have hfind : (tb (hbmHash H object)).find? (fun x => strcasecmp object x.name) = some g := hg
    have := List.find?_some hfind
    rwa [hname]
  rw [hbmFindObject_eq] at hg
  obtain ⟨i, hi, hgi⟩ := Option.bind_eq_some.mp hg
  have hlt : i < (tb (hbmHash H object)).length := (List.getElem?_eq_some_iff.mp hgi).1
  refine ⟨i, hi, hgi, ?_, ?_⟩
  · simp [withObject, hbmFindOrAddObject, hi, hgi, hf]
  · rw [hbmFindObject_eq, Function.update_same, @findIdx?_set _ (fun x => strcasecmp object x.name) g' hmatch _ _ hi]
    simp [hlt]

/-- **`withObject` on a name no object matches** pushes the result for a new
object at the front of the bucket, where `hbm_find_object` finds it next time
when its name matches. -/
theorem withObject_of_none {tb : Table} {object : String} {g' : HistoryLogObject}
    {f : HistoryLogObject → Option HistoryLogObject} (hg : hbmFindObject H tb object = none)
    (hf : f (.new (strlcpyName H object)) = some g') (hname : strcasecmp object g'.name = true) :
    withObject H tb object f =
        some (Function.update tb (hbmHash H object) (g' :: tb (hbmHash H object))) ∧
      hbmFindObject H (Function.update tb (hbmHash H object) (g' :: tb (hbmHash H object)))
        object = some g' := by
  have hi : (tb (hbmHash H object)).findIdx? (fun x => strcasecmp object x.name) = none :=
    List.findIdx?_eq_none_iff.mpr fun x hx => by
      simpa using List.find?_eq_none.mp hg x hx
  refine ⟨by simp [withObject, hbmFindOrAddObject, hi, hf], ?_⟩
  simp [hbmFindObject, hname]

/-- Every object of the table satisfies `P`. -/
def Table.All (P : HistoryLogObject → Prop) (tb : Table) : Prop := ∀ b, ∀ h ∈ tb b, P h

theorem Table.All.empty (P : HistoryLogObject → Prop) : Table.empty.All P := fun _ _ h => nomatch h

/-- `withObject` keeps a property of all objects when `f` makes it hold of
what it returns, for the object found or the new one. -/
theorem Table.All.withObject {P : HistoryLogObject → Prop} {tb tb' : Table} {object : String}
    {f : HistoryLogObject → Option HistoryLogObject} (hP : tb.All P)
    (hw : HistoryBackendMem.withObject H tb object f = some tb')
    (hf : ∀ h h', (h ∈ tb (hbmHash H object) ∨ h = .new (strlcpyName H object)) →
      f h = some h' → P h') : tb'.All P := by
  intro b x hx
  rcases withObject_eq H hw with ⟨i, h, h', -, hh, hfh, rfl⟩ | ⟨-, h', hfh, rfl⟩
  · by_cases hb : b = hbmHash H object
    · subst hb
      rw [Function.update_same] at hx
      rcases List.mem_or_eq_of_mem_set hx with hx | rfl
      · exact hP _ x hx
      · exact hf h x (.inl (List.getElem?_mem hh)) hfh
    · rw [Function.update_noteq hb] at hx
      exact hP b x hx
  · by_cases hb : b = hbmHash H object
    · subst hb
      rw [Function.update_same] at hx
      rcases List.mem_cons.mp hx with rfl | hx
      · exact hf _ x (.inr rfl) hfh
      · exact hP _ x hx
    · rw [Function.update_noteq hb] at hx
      exact hP b x hx

/-- Putting an object with the property in place of one keeps it of all. -/
theorem Table.All.set {P : HistoryLogObject → Prop} {tb : Table} (hP : tb.All P)
    (b : Fin hashTableSize) (i : Nat) {h' : HistoryLogObject} (h'P : P h') :
    Table.All P (Function.update tb b ((tb b).set i h')) := by
  intro c x hx
  by_cases hc : c = b
  · subst hc
    rw [Function.update_same] at hx
    rcases List.mem_or_eq_of_mem_set hx with hx | rfl
    · exact hP _ x hx
    · exact h'P
  · rw [Function.update_noteq hc] at hx
    exact hP c x hx

/-- Change the object `hbm_find_object(object)` finds, in place (`h->dirty = ...`
through the pointer it returned); nothing when there is none. -/
def modifyObject (tb : Table) (object : String) (f : HistoryLogObject → HistoryLogObject) :
    Table :=
  let b := hbmHash H object
  match (tb b).findIdx? fun h => strcasecmp object h.name with
  | none => tb
  | some i => Function.update tb b ((tb b).modify f i)

/-- **`modifyObject` on an object that exists** changes it in place, where
`hbm_find_object` finds the result next time. -/
theorem modifyObject_of_found {tb : Table} {object : String} {g : HistoryLogObject}
    {f : HistoryLogObject → HistoryLogObject} (hg : hbmFindObject H tb object = some g)
    (hname : (f g).name = g.name) :
    ∃ i, (tb (hbmHash H object)).findIdx? (fun x => strcasecmp object x.name) = some i ∧
      (tb (hbmHash H object))[i]? = some g ∧
      modifyObject H tb object f =
        Function.update tb (hbmHash H object) ((tb (hbmHash H object)).set i (f g)) ∧
      hbmFindObject H (modifyObject H tb object f) object = some (f g) := by
  obtain ⟨i, hi, hgi, -, hfind⟩ :=
    @withObject_of_found H tb object g (f g) (fun h => some (f h)) hg rfl hname
  have hmod : modifyObject H tb object f =
      Function.update tb (hbmHash H object) ((tb (hbmHash H object)).set i (f g)) := by
    simp [modifyObject, hi, List.modify_eq_set_get?, List.get?_eq_getElem?, hgi]
  exact ⟨i, hi, hgi, hmod, hmod ▸ hfind⟩

/-- `modifyObject` keeps a property of all objects that `f` keeps. -/
theorem Table.All.modifyObject {P : HistoryLogObject → Prop} {tb : Table} (hP : tb.All P)
    (object : String) {f : HistoryLogObject → HistoryLogObject} (hf : ∀ h, P h → P (f h)) :
    (HistoryBackendMem.modifyObject H tb object f).All P := by
  dsimp only [HistoryBackendMem.modifyObject]
  split
  · exact hP
  · rename_i i _
    rw [List.modify_eq_set_get?]
    cases hx : (tb (hbmHash H object)).get? i with
    | none => simpa [Function.update_eq_self] using hP
    | some x =>
      exact hP.set _ _ (hf x (hP _ x (List.getElem?_mem (by simpa [List.get?_eq_getElem?] using hx))))

/-! ## `hbm_history_add` and `hbm_history_set_limit` -/

/-- `hbm_history_del_line(h, h->head)`; a NULL (or freed) head is a fault. -/
def delHead (h : HistoryLogObject) : Option HistoryLogObject :=
  match h.head with
  | none => none
  | some p =>
    match h.lines p with
    | none => none
    | some l => some (hbmHistoryDelLine h p l)

/-- `hbm_history_add` on the object once found, in the release build: a
missing limit defaults to 50 lines and 86400 seconds, a full log loses its
head, then the line is appended. -/
def addToObject (mtags : List MessageTag) (line clock : String) (h : HistoryLogObject) :
    Option HistoryLogObject :=
  let h := if h.maxLines = 0 then { h with maxLines := 50, maxTime := 86400 } else h
  let evicted := if h.maxLines ≤ h.numLines then delHead h else some h
  evicted.bind fun h => hbmHistoryAddLine H h mtags line clock

/-- `hbm_history_add(object, mtags, line)` at wall clock `clock`. -/
def hbmHistoryAdd (tb : Table) (object : String) (mtags : List MessageTag)
    (line clock : String) : Option Table :=
  withObject H tb object (addToObject H mtags line clock)

/-- The bounded queue `hbm_history_add` implements: pushing onto a queue
holding at least `m` elements first drops its head. -/
def pushBounded {α : Type} (m : Int) (xs : List α) (x : α) : List α :=
  (if m ≤ xs.length then xs.tail else xs) ++ [x]

theorem pushBounded_map {α β : Type} (f : α → β) (m : Int) (xs : List α) (x : α) :
    (pushBounded m xs x).map f = pushBounded m (xs.map f) (f x) := by
  by_cases hm : m ≤ xs.length <;> simp [pushBounded, hm]

/-- The limit `hbm_history_add` enforces: `max_lines`, or 50 when it is unset. -/
def addLimit (h : HistoryLogObject) : Int := if h.maxLines = 0 then 50 else h.maxLines

/-- The limits are not part of the chain. -/
theorem LogInv.setLimits {h : HistoryLogObject} {cells : List (Nat × Entry)}
    (hi : LogInv h cells) (m t : Int) : LogInv { h with maxLines := m, maxTime := t } cells :=
  ⟨hi.seg, hi.nodup, hi.head, hi.tail, hi.numLines, hi.fresh⟩

theorem delHead_spec {h : HistoryLogObject} {c : Nat × Entry} {rest : List (Nat × Entry)}
    (hi : LogInv h (c :: rest)) :
    delHead h = some (hbmHistoryDelLine h c.1 (.ofEntry none (firstPtr rest none) c.2)) := by
  have hnode : h.lines c.1 = _ := @LogInv.node h [] rest c.1 c.2 hi
  simp [delHead, hi.head, hnode]

/-- **`hbm_history_add` on one log**: with a limit that is not negative and
tags that copy, it never faults (the head it evicts exists), and the chain
becomes `pushBounded (addLimit h) cells new`. -/
theorem addToObject_spec {h : HistoryLogObject} {cells : List (Nat × Entry)}
    (hi : LogInv h cells) (hm : 0 ≤ h.maxLines) {mtags : List MessageTag} {line clock : String}
    {e : Entry} (he : newEntry H mtags line clock = some e) :
    ∃ h', addToObject H mtags line clock h = some h' ∧
      LogInv h' (pushBounded (addLimit h) cells (h.nextAddr, e)) ∧
      h'.maxLines = addLimit h ∧ h'.name = h.name ∧ h'.dirty = true ∧
      h'.oldestT = oldestStep h.oldestT e.t := by
  set h₀ : HistoryLogObject :=
    if h.maxLines = 0 then { h with maxLines := 50, maxTime := 86400 } else h with hh₀
  have hi₀ : LogInv h₀ cells := by rw [hh₀]; split <;> [exact hi.setLimits _ _; exact hi]
  have hm₀ : h₀.maxLines = addLimit h := by rw [hh₀, addLimit]; split <;> rfl
  have hf₀ : h₀.name = h.name ∧ h₀.oldestT = h.oldestT ∧ h₀.nextAddr = h.nextAddr := by
    rw [hh₀]; split <;> exact ⟨rfl, rfl, rfl⟩
  obtain ⟨hE, hev, hiE, hEf⟩ : ∃ hE,
      (if h₀.maxLines ≤ h₀.numLines then delHead h₀ else some h₀) = some hE ∧
      LogInv hE (if addLimit h ≤ cells.length then cells.tail else cells) ∧
      hE.maxLines = addLimit h ∧ hE.name = h.name ∧ hE.oldestT = h.oldestT ∧
        hE.nextAddr = h.nextAddr := by
    rw [hm₀, hi₀.numLines]
    by_cases hfull : addLimit h ≤ (cells.length : Int)
    · obtain ⟨c, rest, rfl⟩ : ∃ c rest, cells = c :: rest := by
        cases cells with
        | nil => simp [addLimit] at hfull; split at hfull <;> omega
        | cons c rest => exact ⟨c, rest, rfl⟩
      rw [if_pos hfull, if_pos hfull, delHead_spec hi₀]
      exact ⟨_, rfl, @LogInv.delLine _ [] rest c.1 c.2 hi₀, by simpa using hm₀, by simpa using hf₀⟩
    · rw [if_neg hfull, if_neg hfull]
      exact ⟨h₀, rfl, hi₀, hm₀, hf₀⟩
  refine ⟨linkLine hE e, ?_, ?_, ?_⟩
  · simp only [addToObject, ← hh₀, hev, Option.some_bind, hbmHistoryAddLine, he, Option.map_some']
  · rw [← hEf.2.2.2]; exact hiE.linkLine e
  · simp [hEf]

theorem delHead_name {h h' : HistoryLogObject} (hd : delHead h = some h') : h'.name = h.name := by
  unfold delHead at hd
  split at hd
  · cases hd
  · split at hd
    · cases hd
    · cases hd; rfl

/-- `hbm_history_add` keeps the object's name, whatever its chain. -/
theorem addToObject_name {mtags : List MessageTag} {line clock : String} {h h' : HistoryLogObject}
    (hadd : addToObject H mtags line clock h = some h') : h'.name = h.name := by
  obtain ⟨h₁, hev, hl⟩ := Option.bind_eq_some.mp hadd
  obtain ⟨e, -, rfl⟩ := Option.map_eq_some'.mp hl
  generalize hh₀ : (if h.maxLines = 0 then { h with maxLines := 50, maxTime := 86400 } else h) = h₀
    at hev
  have h₀n : h₀.name = h.name := by rw [← hh₀]; split <;> rfl
  rw [linkLine_name, ← h₀n]
  split at hev
  · exact delHead_name hev
  · cases hev; rfl

theorem addToObject_maxTime {mtags : List MessageTag} {line clock : String}
    {h h' : HistoryLogObject} (hadd : addToObject H mtags line clock h = some h') :
    h'.maxTime = if h.maxLines = 0 then 86400 else h.maxTime := by
  obtain ⟨h₁, hev, hl⟩ := Option.bind_eq_some.mp hadd
  obtain ⟨e, -, rfl⟩ := Option.map_eq_some'.mp hl
  generalize hh₀ : (if h.maxLines = 0 then { h with maxLines := 50, maxTime := 86400 } else h) = h₀
    at hev
  have h₀t : h₀.maxTime = if h.maxLines = 0 then 86400 else h.maxTime := by
    rw [← hh₀]; split <;> rfl
  rw [linkLine_maxTime, ← h₀t]
  split at hev
  · unfold delHead at hev
    split at hev
    · cases hev
    · split at hev
      · cases hev
      · cases hev; rfl
  · cases hev; rfl

/-- `hbm_history_set_limit(object, max_lines, max_time)` at `TStime() = now`. -/
def hbmHistorySetLimit (tb : Table) (object : String) (maxLines maxTime now : Int) :
    Option Table :=
  withObject H tb object fun h => hbmHistoryCleanup now { h with maxLines, maxTime }

/-! ## Unlinking an object -/

/-- `DelListItem(h, history_hash_table[b'])` for the object at position `i` of
bucket `b`: it leaves the chain. Unlinking from a bucket other than its own
leaves that chain pointing at freed memory, a fault (`none`); it cannot
happen, since `b'` is the hash of a name equal under `strcasecmp` to the one
that found the object (`hbmHash_eq`). -/
def delListItem (tb : Table) (b : Fin hashTableSize) (i : Nat) (b' : Fin hashTableSize) :
    Option Table :=
  if b' = b then some (Function.update tb b ((tb b).eraseIdx i)) else none

/-- Taking an object out of a bucket keeps a property of all the others. -/
theorem Table.All.eraseIdx {P : HistoryLogObject → Prop} {tb : Table} (hP : tb.All P)
    (b : Fin hashTableSize) (i : Nat) :
    Table.All P (Function.update tb b ((tb b).eraseIdx i)) := by
  intro c x hx
  by_cases hc : c = b
  · subst hc
    rw [Function.update_same] at hx
    exact hP _ x ((List.eraseIdx_sublist _ _).subset hx)
  · rw [Function.update_noteq hc] at hx
    exact hP c x hx

end HistoryBackendMem
