import HistoryBackendMem.Basic
import Mathlib.Data.List.Nodup

/-!
# Log — the doubly-linked chain of lines

`Seg hp pv cells nx` says that the heap `hp` holds the cells `cells`
(address and entry) as a doubly-linked segment: each node's `next` is the next
cell's address, each node's `prev` the previous one's, the first node points
back to `pv` and the last one forward to `nx`. A whole log is the segment from
`NULL` to `NULL` (`LogInv` in `Log.Line`).

The segment is a list, so it is finite; that its addresses are distinct (the
chain is acyclic) is carried next to it as `Nodup`. The lemmas here are the
separation-logic facts the line operations need: a segment splits at any point
(`seg_append`), it only reads the nodes on it (`Seg.congr`), and the two pointer
writes of `hbm_history_add_line` and `hbm_history_del_line` relink its ends.
-/

namespace HistoryBackendMem

/-- The address of the first cell, or `nx` for an empty segment. -/
def firstPtr : List (Nat × Entry) → Option Nat → Option Nat
  | [], nx => nx
  | c :: _, _ => some c.1

/-- The address of the last cell, or `pv` for an empty segment. -/
def lastPtr : Option Nat → List (Nat × Entry) → Option Nat
  | pv, [] => pv
  | _, c :: rest => lastPtr (some c.1) rest

@[simp] theorem firstPtr_nil (nx : Option Nat) : firstPtr [] nx = nx := rfl

@[simp] theorem firstPtr_cons (c : Nat × Entry) (rest : List (Nat × Entry))
    (nx : Option Nat) : firstPtr (c :: rest) nx = some c.1 := rfl

@[simp] theorem lastPtr_nil (pv : Option Nat) : lastPtr pv [] = pv := rfl

@[simp] theorem lastPtr_cons (pv : Option Nat) (c : Nat × Entry)
    (rest : List (Nat × Entry)) : lastPtr pv (c :: rest) = lastPtr (some c.1) rest := rfl

theorem firstPtr_append (xs ys : List (Nat × Entry)) (nx : Option Nat) :
    firstPtr (xs ++ ys) nx = firstPtr xs (firstPtr ys nx) := by
  cases xs <;> rfl

theorem lastPtr_append (pv : Option Nat) (xs ys : List (Nat × Entry)) :
    lastPtr pv (xs ++ ys) = lastPtr (lastPtr pv xs) ys := by
  induction xs generalizing pv with
  | nil => rfl
  | cons c rest ih => exact ih _

theorem lastPtr_concat (pv : Option Nat) (xs : List (Nat × Entry)) (c : Nat × Entry) :
    lastPtr pv (xs ++ [c]) = some c.1 := by
  rw [lastPtr_append]; rfl

/-- The last address of a segment is `pv` or one of its own. -/
theorem lastPtr_mem {pv : Option Nat} {xs : List (Nat × Entry)} {q : Nat}
    (h : lastPtr pv xs = some q) : pv = some q ∨ q ∈ xs.map Prod.fst := by
  induction xs generalizing pv with
  | nil => exact .inl h
  | cons c rest ih =>
    rcases ih h with h' | h'
    · cases h'; simp
    · simp [h']

/-! ## Heap writes -/

/-- `q->next = v` (a write to a freed `q` is not modelled: it leaves the heap). -/
def Heap.setNext (hp : Heap) (q : Nat) (v : Option Nat) : Heap :=
  fun r => if r = q then (hp r).map fun n => { n with next := v } else hp r

/-- `q->prev = v`. -/
def Heap.setPrev (hp : Heap) (q : Nat) (v : Option Nat) : Heap :=
  fun r => if r = q then (hp r).map fun n => { n with prev := v } else hp r

/-- `if (a) a->next = v;` -/
def Heap.setNextOpt (hp : Heap) : Option Nat → Option Nat → Heap
  | some a, v => hp.setNext a v
  | none, _ => hp

/-- `if (b) b->prev = v;` -/
def Heap.setPrevOpt (hp : Heap) : Option Nat → Option Nat → Heap
  | some b, v => hp.setPrev b v
  | none, _ => hp

theorem Heap.setNext_ne (hp : Heap) {q r : Nat} (v : Option Nat) (h : r ≠ q) :
    hp.setNext q v r = hp r := if_neg h

theorem Heap.setPrev_ne (hp : Heap) {q r : Nat} (v : Option Nat) (h : r ≠ q) :
    hp.setPrev q v r = hp r := if_neg h

/-! ## Segments -/

/-- `cells` is a doubly-linked segment of `hp` from `pv` to `nx`. -/
def Seg (hp : Heap) : Option Nat → List (Nat × Entry) → Option Nat → Prop
  | _, [], _ => True
  | pv, c :: rest, nx =>
    hp c.1 = some (.ofEntry pv (firstPtr rest nx) c.2) ∧ Seg hp (some c.1) rest nx

@[simp] theorem seg_nil (hp : Heap) (pv nx : Option Nat) : Seg hp pv [] nx := trivial

@[simp] theorem seg_cons (hp : Heap) (pv nx : Option Nat) (c : Nat × Entry)
    (rest : List (Nat × Entry)) :
    Seg hp pv (c :: rest) nx ↔
      hp c.1 = some (.ofEntry pv (firstPtr rest nx) c.2) ∧ Seg hp (some c.1) rest nx :=
  Iff.rfl

/-- **Splitting a segment**: a segment is two segments meeting where the first
one's last node points to the second one's first. -/
theorem seg_append (hp : Heap) (pv nx : Option Nat) (xs ys : List (Nat × Entry)) :
    Seg hp pv (xs ++ ys) nx ↔ Seg hp pv xs (firstPtr ys nx) ∧ Seg hp (lastPtr pv xs) ys nx := by
  induction xs generalizing pv with
  | nil => simp
  | cons c rest ih => simp [ih, firstPtr_append, and_assoc]

/-- A segment reads only the nodes on it: the frame rule. -/
theorem Seg.congr {hp hp' : Heap} {pv nx : Option Nat} {xs : List (Nat × Entry)}
    (hs : Seg hp pv xs nx) (he : ∀ c ∈ xs, hp' c.1 = hp c.1) : Seg hp' pv xs nx := by
  induction xs generalizing pv with
  | nil => trivial
  | cons c rest ih =>
    obtain ⟨hc, hr⟩ := hs
    exact ⟨(he c (by simp)).trans hc, ih hr fun d hd => he d (by simp [hd])⟩

section Frame
variable {hp : Heap} {pv nx : Option Nat} {xs : List (Nat × Entry)} {q : Nat}

theorem Seg.setNext_ne (hs : Seg hp pv xs nx) (hq : q ∉ xs.map Prod.fst)
    (v : Option Nat) : Seg (hp.setNext q v) pv xs nx :=
  hs.congr fun _ hc => Heap.setNext_ne _ _ (ne_of_mem_of_not_mem (List.mem_map_of_mem _ hc) hq)

theorem Seg.setPrev_ne (hs : Seg hp pv xs nx) (hq : q ∉ xs.map Prod.fst)
    (v : Option Nat) : Seg (hp.setPrev q v) pv xs nx :=
  hs.congr fun _ hc => Heap.setPrev_ne _ _ (ne_of_mem_of_not_mem (List.mem_map_of_mem _ hc) hq)

theorem Seg.update_ne (hs : Seg hp pv xs nx) (hq : q ∉ xs.map Prod.fst)
    (v : Option HistoryLogLine) : Seg (Function.update hp q v) pv xs nx :=
  hs.congr fun _ hc =>
    Function.update_noteq (ne_of_mem_of_not_mem (List.mem_map_of_mem _ hc) hq) _ _

theorem Seg.setNextOpt_ne {o : Option Nat} (hs : Seg hp pv xs nx)
    (ho : ∀ a, o = some a → a ∉ xs.map Prod.fst) (v : Option Nat) :
    Seg (hp.setNextOpt o v) pv xs nx := by
  cases o with
  | none => exact hs
  | some a => exact hs.setNext_ne (ho a rfl) v

theorem Seg.setPrevOpt_ne {o : Option Nat} (hs : Seg hp pv xs nx)
    (ho : ∀ a, o = some a → a ∉ xs.map Prod.fst) (v : Option Nat) :
    Seg (hp.setPrevOpt o v) pv xs nx := by
  cases o with
  | none => exact hs
  | some a => exact hs.setPrev_ne (ho a rfl) v

end Frame

/-- A non-empty segment ends at one of its own cells. -/
theorem lastPtr_of_ne_nil {ys : List (Nat × Entry)} (hys : ys ≠ []) (pv : Option Nat) :
    ∃ q ∈ ys.map Prod.fst, lastPtr pv ys = some q := by
  obtain ⟨xs, c, rfl⟩ := List.eq_nil_or_concat ys |>.resolve_left hys
  rw [List.concat_eq_append]
  exact ⟨c.1, by simp, lastPtr_concat _ _ _⟩

/-- The end of a non-empty segment does not depend on what precedes it. -/
theorem lastPtr_indep {ys : List (Nat × Entry)} (hys : ys ≠ []) (pv pv' : Option Nat) :
    lastPtr pv ys = lastPtr pv' ys := by
  cases ys with
  | nil => exact absurd rfl hys
  | cons c rest => rfl

/-- Re-pointing the last node's `next`. -/
theorem Seg.setNext_last {hp : Heap} {pv nx : Option Nat} {xs : List (Nat × Entry)}
    {c : Nat × Entry} (hs : Seg hp pv (xs ++ [c]) nx) (hc : c.1 ∉ xs.map Prod.fst)
    (v : Option Nat) : Seg (hp.setNext c.1 v) pv (xs ++ [c]) v := by
  rw [seg_append] at hs ⊢
  obtain ⟨hxs, hlast, -⟩ := hs
  refine ⟨hxs.setNext_ne hc v, ?_, trivial⟩
  simp [Heap.setNext, hlast, HistoryLogLine.ofEntry]

/-- Re-pointing the first node's `prev`. -/
theorem Seg.setPrev_first {hp : Heap} {pv nx : Option Nat} {xs : List (Nat × Entry)}
    {c : Nat × Entry} (hs : Seg hp pv (c :: xs) nx) (hc : c.1 ∉ xs.map Prod.fst)
    (v : Option Nat) : Seg (hp.setPrev c.1 v) v (c :: xs) nx := by
  obtain ⟨hfirst, hrest⟩ := hs
  exact ⟨by simp [Heap.setPrev, hfirst, HistoryLogLine.ofEntry], hrest.setPrev_ne hc v⟩

/-- `if (l->prev) l->prev->next = ...` on the segment before `l`: it re-points
that segment's last node. -/
theorem Seg.setNextOpt_last {hp : Heap} {pv nx : Option Nat} {xs : List (Nat × Entry)}
    (hs : Seg hp pv xs nx) (hnd : (xs.map Prod.fst).Nodup) (v : Option Nat) :
    Seg (hp.setNextOpt (lastPtr pv xs) v) pv xs v := by
  rcases List.eq_nil_or_concat xs with rfl | ⟨xs, c, rfl⟩
  · trivial
  rw [List.concat_eq_append] at *
  rw [lastPtr_concat]
  refine hs.setNext_last (fun hm => ?_) v
  rw [List.map_append] at hnd
  exact (List.nodup_append.mp hnd).2.2 hm (List.mem_singleton_self _)

/-- `if (l->next) l->next->prev = ...` on the segment after `l`: it re-points
that segment's first node. -/
theorem Seg.setPrevOpt_first {hp : Heap} {pv nx : Option Nat} {xs : List (Nat × Entry)}
    (hs : Seg hp pv xs nx) (hnd : (xs.map Prod.fst).Nodup) (nx' v : Option Nat) :
    Seg (hp.setPrevOpt (firstPtr xs nx') v) v xs nx := by
  cases xs with
  | nil => trivial
  | cons c rest => exact hs.setPrev_first (List.nodup_cons.mp hnd).1 v

/-! ## Walking a segment -/

/-- The cells met by `for (l = p; l; l = l->next)`, at most `fuel` of them;
`none` when the walk reaches a freed address or runs out of fuel. -/
def walk (hp : Heap) : Nat → Option Nat → Option (List (Nat × Entry))
  | _, none => some []
  | 0, some _ => none
  | fuel + 1, some p =>
    match hp p with
    | none => none
    | some l => (walk hp fuel l.next).map fun rest => (p, l.entry) :: rest

/-- Walking a segment that ends in `NULL` visits exactly its cells. -/
theorem walk_seg {hp : Heap} {pv : Option Nat} {cells : List (Nat × Entry)}
    (hs : Seg hp pv cells none) (fuel : Nat) (hf : cells.length ≤ fuel) :
    walk hp fuel (firstPtr cells none) = some cells := by
  induction cells generalizing pv fuel with
  | nil => cases fuel <;> rfl
  | cons c rest ih =>
    obtain ⟨fuel, rfl⟩ : ∃ f, fuel = f + 1 := ⟨fuel - 1, by simp at hf; omega⟩
    simp [walk, hs.1, ih hs.2 fuel (by simp at hf; omega)]

end HistoryBackendMem
