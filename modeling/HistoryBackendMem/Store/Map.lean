import HistoryBackendMem.Store.Table
import Mathlib.Data.List.FinRange
import Mathlib.Algebra.BigOperators.Group.Finset

/-!
# Store — the table as a map

The hash table implements a finite map from case-folded names to objects:
`Table.lookup k` is the object held under the key `k`, looked for across all
buckets. `TableShape` is what `hbm_find_or_add_object` keeps: every object
sits in the bucket of its name's hash, and no two names of a bucket are equal
under `strcasecmp`. Under it `hbm_find_object(n)` is the lookup of `n`'s fold
(`TableShape.findObject_eq_lookup`), and `withObject` on `n` is an update of the
map at that one key (`TableShape.withObject`).
-/

namespace HistoryBackendMem

variable (H : Host)

/-! ## The map -/

/-- The map the table implements: the object held under the folded name `k`. -/
def Table.lookup (tb : Table) (k : List Char) : Option HistoryLogObject :=
  ((List.finRange hashTableSize).flatMap tb).find? fun h => decide (foldCase h.name = k)

/-- The number of objects in the table. -/
def Table.size (tb : Table) : Nat := ∑ b, (tb b).length

/-- The bucket of the folded name `k`. -/
def bucketOf (k : List Char) : Fin hashTableSize :=
  ⟨H.siphash k % hashTableSize, Nat.mod_lt _ (by decide)⟩

theorem hbmHash_eq_bucketOf (n : String) : hbmHash H n = bucketOf H (foldCase n) := rfl

/-- What `hbm_find_or_add_object` keeps. -/
structure TableShape (tb : Table) : Prop where
  /-- Every object sits in the bucket of its name's hash. -/
  placed : ∀ b, ∀ h ∈ tb b, hbmHash H h.name = b
  /-- No two names of a bucket are equal under `strcasecmp`. -/
  unique : ∀ b, ((tb b).map fun h => foldCase h.name).Nodup

theorem TableShape.empty : TableShape H Table.empty :=
  ⟨(fun _ _ h => nomatch h), fun _ => List.nodup_nil⟩

/-- `tb'` is `tb` with the map changed at the key of `n` alone: the shape
holds, every other key keeps its object, and an object is created exactly
when none was held under `n`. -/
structure UpdatesAt (tb tb' : Table) (n : String) : Prop where
  shape : TableShape H tb'
  others : ∀ k, k ≠ foldCase n → tb'.lookup k = tb.lookup k
  size : tb'.size = tb.size + (if (tb.lookup (foldCase n)).isSome then 0 else 1)

/-- `tb'` is `tb` with the object held under the key of `n`, if any, unlinked:
the shape holds, `n` maps to nothing, every other key keeps its object, every
other bucket is unchanged, and the bucket of `n` loses one object exactly
when one was held. -/
structure RemovesAt (tb tb' : Table) (n : String) : Prop where
  shape : TableShape H tb'
  gone : tb'.lookup (foldCase n) = none
  others : ∀ k, k ≠ foldCase n → tb'.lookup k = tb.lookup k
  chains : ∀ b, b ≠ hbmHash H n → tb' b = tb b
  sublist : (tb' (hbmHash H n)).Sublist (tb (hbmHash H n))
  size : tb'.size + (if (tb.lookup (foldCase n)).isSome then 1 else 0) = tb.size

/-! ## Lists -/

/-- A search through concatenated lists, where only `f b` can hold a match. -/
theorem find?_flatMap_of_only {α β : Type} {p : α → Bool} {f : β → List α} {b : β} :
    ∀ {bs : List β}, b ∈ bs → bs.Nodup → (∀ c ∈ bs, c ≠ b → ∀ x ∈ f c, p x = false) →
      (bs.flatMap f).find? p = (f b).find? p
  | c :: cs, hb, hnd, honly => by
    have hnone : ∀ d ∈ cs, d ≠ b → ∀ x ∈ f d, p x = false :=
      fun d hd => honly d (List.mem_cons_of_mem _ hd)
    rw [List.flatMap_cons, List.find?_append]
    by_cases hc : c = b
    · subst hc
      have hcs : (cs.flatMap f).find? p = none := by
        rw [List.find?_eq_none]
        intro x hx
        obtain ⟨d, hd, hx⟩ := List.mem_flatMap.mp hx
        have hdc : d ≠ c := fun h => (List.nodup_cons.mp hnd).1 (h ▸ hd)
        simp [hnone d hd hdc x hx]
      rw [hcs, Option.or_none]
    · have hfc : (f c).find? p = none := List.find?_eq_none.mpr fun x hx => by
        simp [honly c (List.mem_cons_self _ _) hc x hx]
      rw [hfc, Option.none_or]
      exact find?_flatMap_of_only ((List.mem_cons.mp hb).resolve_left (Ne.symm hc))
        (List.nodup_cons.mp hnd).2 hnone

/-- Replacing a non-match by a non-match changes no search. -/
theorem find?_set_of_false {α : Type} {p : α → Bool} {y : α} (hy : p y = false) :
    ∀ {l : List α} {i : Nat}, (∀ x, l[i]? = some x → p x = false) → (l.set i y).find? p = l.find? p
  | [], _, _ => rfl
  | x :: l, 0, hx => by simp [hy, hx x (by simp)]
  | x :: l, i + 1, hx => by
    have ih : (l.set i y).find? p = l.find? p :=
      find?_set_of_false hy fun z hz => hx z (by simpa using hz)
    by_cases hpx : p x <;> simp [hpx, ih]

/-- Removing a non-match changes no search. -/
theorem find?_eraseIdx_of_false {α : Type} {p : α → Bool} :
    ∀ {l : List α} {i : Nat}, (∀ x, l[i]? = some x → p x = false) →
      (l.eraseIdx i).find? p = l.find? p
  | [], _, _ => rfl
  | x :: l, 0, hx => by simp [hx x (by simp)]
  | x :: l, i + 1, hx => by
    have ih : (l.eraseIdx i).find? p = l.find? p :=
      find?_eraseIdx_of_false fun z hz => hx z (by simpa using hz)
    by_cases hpx : p x <;> simp [hpx, ih]

/-- Writing back the element a position holds changes nothing. -/
theorem set_of_getElem? {α : Type} {l : List α} {i : Nat} {a : α} (h : l[i]? = some a) :
    l.set i a = l := by
  apply List.ext_getElem?
  intro j
  rw [List.getElem?_set]
  split
  · rename_i hij; subst hij; simp [(List.getElem?_eq_some_iff.mp h).1, h]
  · rfl

/-- In a list with no two equal keys, nothing left after removing position `i`
has the key of the element that stood there. -/
theorem key_ne_of_mem_eraseIdx {α β : Type} {key : α → β} :
    ∀ {l : List α} {i : Nat} {y : α}, (l.map key).Nodup → l[i]? = some y →
      ∀ x ∈ l.eraseIdx i, key x ≠ key y
  | x :: l, 0, y, hnd, hy, z, hz => by
    simp only [List.getElem?_cons_zero, Option.some.injEq] at hy
    subst hy
    exact fun h => (List.nodup_cons.mp hnd).1 (h ▸ List.mem_map_of_mem key hz)
  | x :: l, i + 1, y, hnd, hy, z, hz => by
    simp only [List.getElem?_cons_succ] at hy
    rcases List.mem_cons.mp hz with rfl | hz
    · exact fun h => (List.nodup_cons.mp hnd).1 (h ▸ List.mem_map_of_mem key (List.getElem?_mem hy))
    · exact key_ne_of_mem_eraseIdx (List.nodup_cons.mp hnd).2 hy z hz

theorem Table.size_update (tb : Table) (b : Fin hashTableSize) (l : List HistoryLogObject) :
    Table.size (Function.update tb b l) + (tb b).length = tb.size + l.length := by
  unfold Table.size
  have h1 := Finset.sum_update_of_mem (Finset.mem_univ b) (fun x => (tb x).length) l.length
  have h2 := Finset.sum_update_of_mem (Finset.mem_univ b) (fun x => (tb x).length) (tb b).length
  rw [Function.update_eq_self] at h2
  simp only [Function.apply_update (fun _ => List.length) tb b l]
  omega

/-- The object at the index `findIdx?` gives matches the name looked for. -/
theorem foldCase_of_findIdx? {l : List HistoryLogObject} {n : String} {i : Nat}
    {g : HistoryLogObject} (hi : l.findIdx? (fun x => strcasecmp n x.name) = some i)
    (hg : l[i]? = some g) : foldCase g.name = foldCase n := by
  have := (List.findIdx?_eq_some_iff_getElem.mp hi).2.1
  rw [(List.getElem?_eq_some_iff.mp hg).2] at this
  exact (strcasecmp_iff.mp this).symm

/-! ## Lookups -/

variable {H}

/-- Under the shape, the key `k` is looked up in its own bucket only. -/
theorem TableShape.lookup_eq {tb : Table} (hs : TableShape H tb) (k : List Char) :
    tb.lookup k = (tb (bucketOf H k)).find? fun h => decide (foldCase h.name = k) := by
  refine find?_flatMap_of_only (List.mem_finRange _) (List.nodup_finRange _) fun c _ hc x hx => ?_
  have hx' := hs.placed c x hx
  simp only [decide_eq_false_iff_not]
  intro hk
  rw [hbmHash_eq_bucketOf, hk] at hx'
  exact hc hx'.symm

/-- **`hbm_find_object` is the map's lookup** of the folded name. -/
theorem TableShape.findObject_eq_lookup {tb : Table} (hs : TableShape H tb) (n : String) :
    hbmFindObject H tb n = tb.lookup (foldCase n) := by
  rw [hs.lookup_eq, hbmFindObject, hbmHash_eq_bucketOf]
  congr 1
  funext h
  rw [Bool.eq_iff_iff, strcasecmp_iff, decide_eq_true_iff]
  exact eq_comm

/-! ## Changing one bucket -/

/-- A new chain for one bucket keeps the shape when its objects are placed
there and no two of its names are equal. -/
theorem TableShape.update {tb : Table} (hs : TableShape H tb) {b : Fin hashTableSize}
    {l : List HistoryLogObject} (hp : ∀ h ∈ l, hbmHash H h.name = b)
    (hu : (l.map fun h => foldCase h.name).Nodup) : TableShape H (Function.update tb b l) := by
  refine ⟨fun c x hx => ?_, fun c => ?_⟩ <;> by_cases hc : c = b
  · subst hc; rw [Function.update_same] at hx; exact hp x hx
  · rw [Function.update_noteq hc] at hx; exact hs.placed c x hx
  · subst hc; rw [Function.update_same]; exact hu
  · rw [Function.update_noteq hc]; exact hs.unique c

/-- A key keeps its value when the search of its bucket does. -/
theorem TableShape.lookup_update {tb : Table} (hs : TableShape H tb) {b : Fin hashTableSize}
    {l : List HistoryLogObject} (hs' : TableShape H (Function.update tb b l)) (k : List Char)
    (hk : (l.find? fun h => decide (foldCase h.name = k)) =
      (tb b).find? fun h => decide (foldCase h.name = k)) :
    Table.lookup (Function.update tb b l) k = tb.lookup k := by
  rw [hs'.lookup_eq, hs.lookup_eq]
  by_cases hb : bucketOf H k = b
  · rw [hb, Function.update_same, hk]
  · rw [Function.update_noteq hb]

/-- Rewriting an object in place, under the same name, keeps the shape. -/
theorem TableShape.set {tb : Table} (hs : TableShape H tb) {b : Fin hashTableSize} {i : Nat}
    {g g' : HistoryLogObject} (hg : (tb b)[i]? = some g) (hname : g'.name = g.name) :
    TableShape H (Function.update tb b ((tb b).set i g')) := by
  refine hs.update (fun x hx => ?_) ?_
  · rcases List.mem_or_eq_of_mem_set hx with hx | rfl
    · exact hs.placed _ x hx
    · rw [hname]; exact hs.placed _ g (List.getElem?_mem hg)
  · rw [List.map_set, hname, set_of_getElem? (by simp [hg] :
      ((tb b).map fun h => foldCase h.name)[i]? = some (foldCase g.name))]
    exact hs.unique _

/-- `modifyObject` with an `f` that keeps names keeps the shape. -/
theorem TableShape.modifyObject {tb : Table} (hs : TableShape H tb) (object : String)
    {f : HistoryLogObject → HistoryLogObject} (hf : ∀ h, (f h).name = h.name) :
    TableShape H (HistoryBackendMem.modifyObject H tb object f) := by
  dsimp only [HistoryBackendMem.modifyObject]
  split
  · exact hs
  · rename_i i _
    rw [List.modify_eq_set_get?]
    cases hx : (tb (hbmHash H object)).get? i with
    | none => simpa [Function.update_eq_self] using hs
    | some x => exact hs.set (by simpa [List.get?_eq_getElem?] using hx) (hf x)

/-- **Rewriting the object found under `n` in place**, under its name,
updates the map at `n` only, and `n` then holds the new object. -/
theorem TableShape.setAt {tb : Table} (hs : TableShape H tb) {n : String} {i : Nat}
    {g g' : HistoryLogObject}
    (hi : (tb (hbmHash H n)).findIdx? (fun x => strcasecmp n x.name) = some i)
    (hg : (tb (hbmHash H n))[i]? = some g) (hname : g'.name = g.name) :
    UpdatesAt H tb (Function.update tb (hbmHash H n) ((tb (hbmHash H n)).set i g')) n ∧
      Table.lookup (Function.update tb (hbmHash H n) ((tb (hbmHash H n)).set i g'))
        (foldCase n) = some g' := by
  have hfind : hbmFindObject H tb n = some g := by rw [hbmFindObject_eq, hi]; exact hg
  have hlookup : tb.lookup (foldCase n) = some g := hs.findObject_eq_lookup n ▸ hfind
  have hkey := foldCase_of_findIdx? hi hg
  have hs' := hs.set hg hname
  refine ⟨⟨hs', fun k hk => hs.lookup_update hs' k ?_, ?_⟩, ?_⟩
  · refine find?_set_of_false (by simp [hname, hkey, Ne.symm hk]) fun x hx => ?_
    rw [hg] at hx; cases hx
    simp [hkey, Ne.symm hk]
  · have := Table.size_update tb (hbmHash H n) ((tb (hbmHash H n)).set i g')
    simp only [List.length_set, hlookup, Option.isSome_some, if_true] at this ⊢
    omega
  · obtain ⟨i', hi', -, -, hfind'⟩ :=
      @withObject_of_found H tb n g g' (fun _ => some g') hfind rfl hname
    rw [hi] at hi'; cases hi'
    rw [← hs'.findObject_eq_lookup]; exact hfind'

/-- **Pushing a new object when nothing matches `n`** updates the map at `n`
only, and `n` then holds the new object. -/
theorem TableShape.pushNew {tb : Table} (hs : TableShape H tb) {n : String}
    {g' : HistoryLogObject}
    (hi : (tb (hbmHash H n)).findIdx? (fun x => strcasecmp n x.name) = none)
    (hname : g'.name = n) :
    UpdatesAt H tb (Function.update tb (hbmHash H n) (g' :: tb (hbmHash H n))) n ∧
      Table.lookup (Function.update tb (hbmHash H n) (g' :: tb (hbmHash H n)))
        (foldCase n) = some g' := by
  have hlookup : tb.lookup (foldCase n) = none := by
    rw [← hs.findObject_eq_lookup, hbmFindObject_eq, hi]; rfl
  have hfresh : foldCase n ∉ (tb (hbmHash H n)).map fun h => foldCase h.name := by
    intro hm
    obtain ⟨x, hx, hxk⟩ := List.mem_map.mp hm
    have := List.findIdx?_eq_none_iff.mp hi x hx
    simp [strcasecmp, hxk] at this
  have hs' : TableShape H (Function.update tb (hbmHash H n) (g' :: tb (hbmHash H n))) := by
    refine hs.update (fun x hx => ?_) ?_
    · rcases List.mem_cons.mp hx with rfl | hx
      · rw [hname]
      · exact hs.placed _ x hx
    · rw [List.map_cons, hname]
      exact List.nodup_cons.mpr ⟨hfresh, hs.unique _⟩
  refine ⟨⟨hs', fun k hk => hs.lookup_update hs' k ?_, ?_⟩, ?_⟩
  · exact List.find?_cons_of_neg _ (by simp [hname, Ne.symm hk])
  · have := Table.size_update tb (hbmHash H n) (g' :: tb (hbmHash H n))
    simp only [List.length_cons, hlookup, Option.isSome_none, Bool.false_eq_true, if_false]
      at this ⊢
    omega
  · rw [hs'.lookup_eq, ← hbmHash_eq_bucketOf, Function.update_same, List.find?_cons_of_pos]
    simp [hname]

/-- **`withObject` on `n` updates the map at the one key `n`**: for a name
that fits and an `f` that keeps names, the shape holds after it, every other
key is left alone, an object is created exactly when none matched, and the
key then holds `f` of what it held, or of a new object. -/
theorem TableShape.withObject {tb tb' : Table} (hs : TableShape H tb) {n : String}
    (hn : n.length ≤ H.objectLen) {f : HistoryLogObject → Option HistoryLogObject}
    (hf : ∀ h h', f h = some h' → h'.name = h.name) (hw : withObject H tb n f = some tb') :
    UpdatesAt H tb tb' n ∧ ∃ h h', (tb.lookup (foldCase n) = some h ∨ (tb.lookup (foldCase n) = none ∧ h = .new n)) ∧
      f h = some h' ∧ tb'.lookup (foldCase n) = some h' := by
  have hlookup := (hs.findObject_eq_lookup n).symm.trans (hbmFindObject_eq H tb n)
  rcases withObject_eq H hw with ⟨i, g, g', hi, hg, hfg, rfl⟩ | ⟨hi, g', hfg, rfl⟩
  · -- the object exists: it is rewritten in place
    obtain ⟨hu, hl⟩ := hs.setAt hi hg (hf _ _ hfg)
    exact ⟨hu, g, g', .inl (by rw [hlookup, hi]; exact hg), hfg, hl⟩
  · -- no object matches: a new one is pushed at the front of the bucket
    rw [strlcpyName_of_le H hn] at hfg
    obtain ⟨hu, hl⟩ := hs.pushNew hi (hf _ _ hfg)
    exact ⟨hu, .new n, g', .inr ⟨by rw [hlookup, hi]; rfl, rfl⟩, hfg, hl⟩

/-- **Unlinking the object found under `n` removes the key `n`**, and that
object only. -/
theorem TableShape.eraseIdx {tb : Table} (hs : TableShape H tb) {n : String} {i : Nat}
    {g : HistoryLogObject}
    (hi : (tb (hbmHash H n)).findIdx? (fun x => strcasecmp n x.name) = some i)
    (hg : (tb (hbmHash H n))[i]? = some g) {tb' : Table}
    (htb : tb' = Function.update tb (hbmHash H n) ((tb (hbmHash H n)).eraseIdx i)) :
    RemovesAt H tb tb' n := by
  subst htb
  have hkey := foldCase_of_findIdx? hi hg
  have hlookup : tb.lookup (foldCase n) = some g := by
    rw [← hs.findObject_eq_lookup, hbmFindObject_eq, hi]; exact hg
  have hs' : TableShape H (Function.update tb (hbmHash H n) ((tb (hbmHash H n)).eraseIdx i)) :=
    hs.update (fun x hx => hs.placed _ x (List.mem_of_mem_eraseIdx hx))
      ((hs.unique _).sublist ((List.eraseIdx_sublist _ i).map _))
  refine ⟨hs', ?_, fun k hk => hs.lookup_update hs' k (find?_eraseIdx_of_false fun x hx => ?_),
    fun b hb => Function.update_noteq hb _ _, ?_, ?_⟩
  · rw [hs'.lookup_eq, ← hbmHash_eq_bucketOf, Function.update_same, List.find?_eq_none]
    intro x hx
    simpa [hkey] using key_ne_of_mem_eraseIdx (hs.unique _) hg x hx
  · rw [hg] at hx; cases hx
    simp [hkey, Ne.symm hk]
  · rw [Function.update_same]; exact List.eraseIdx_sublist _ i
  · have := Table.size_update tb (hbmHash H n) ((tb (hbmHash H n)).eraseIdx i)
    have := List.length_eraseIdx_add_one (List.getElem?_eq_some_iff.mp hg).1
    simp only [hlookup, Option.isSome_some, if_true]
    omega

/-- Nothing held under `n`: removing it leaves the table as it is. -/
theorem TableShape.removesAt_self {tb : Table} (hs : TableShape H tb) {n : String}
    (hn : tb.lookup (foldCase n) = none) : RemovesAt H tb tb n :=
  ⟨hs, hn, fun _ _ => rfl, fun _ _ => rfl, List.Sublist.refl _, by simp [hn]⟩

end HistoryBackendMem
