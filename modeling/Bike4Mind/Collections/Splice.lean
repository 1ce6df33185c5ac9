import Mathlib.Data.List.Sort

/-!
Replacing intervals of a list. Disjoint intervals spliced in from the last one up leave every other
entry in place, so the result is the list read once from the front.
-/

namespace Collections
variable {α β : Type}

/-- The interval of a list to take out, and what goes in its place. -/
structure Cut (α : Type) where
  start : Nat
  length : Nat
  lines : List α

/-- `xs.splice(start, length, ...lines)` -/
def Cut.splice (c : Cut α) (xs : List α) : List α := xs.take c.start ++ c.lines ++ xs.drop (c.start + c.length)

/-- Disjoint intervals in increasing order, from `k` on and within the first `n` entries. -/
def Ascending (n : Nat) : Nat → List (Cut α) → Prop
  | k, [] => k ≤ n
  | k, c :: rest => k ≤ c.start ∧ Ascending n (c.start + c.length) rest

/-- The entries from `k` on with each interval replaced. -/
def rebuild (xs : List α) : Nat → List (Cut α) → List α
  | k, [] => xs.drop k
  | k, c :: rest => (xs.drop k).take (c.start - k) ++ c.lines ++ rebuild xs (c.start + c.length) rest

section Ascending
variable {n k : Nat} {c : Cut α} {cuts : List (Cut α)} {xs tail : List α}

theorem Ascending.bound (ascending : Ascending n k cuts) : k ≤ n := by
  induction cuts generalizing k with
  | nil => exact ascending
  | cons c rest ih =>
    have later := ih ascending.2
    have first := ascending.1
    omega

theorem Ascending.pairwise (ascending : Ascending n k cuts) :
    cuts.Pairwise (fun c d => c.start + c.length ≤ d.start) ∧ ∀ c ∈ cuts, k ≤ c.start ∧ c.start + c.length ≤ n := by
  induction cuts generalizing k with
  | nil => exact ⟨.nil, fun c member => nomatch member⟩
  | cons c rest ih =>
    obtain ⟨first, later⟩ := ascending
    obtain ⟨apart, within⟩ := ih later
    refine ⟨List.Pairwise.cons (fun d member => (within d member).1) apart, fun d member => ?_⟩
    rcases List.mem_cons.mp member with rfl | member
    · exact ⟨first, later.bound⟩
    · have := within d member
      omega

/-- Splicing from the last interval up is reading the list once from the front. -/
theorem foldr_splice (ascending : Ascending n k cuts) (long : n ≤ xs.length) :
    cuts.foldr Cut.splice xs = xs.take k ++ rebuild xs k cuts := by
  induction cuts generalizing k with
  | nil => simp [rebuild]
  | cons c rest ih =>
    have later := ascending.2.bound
    have first := ascending.1
    have kept : (xs.take (c.start + c.length)).length = c.start + c.length := List.length_take_of_le (by omega)
    have behind : (xs.take (c.start + c.length)).drop (c.start + c.length) = [] := List.drop_of_length_le (by omega)
    have front : (xs.take (c.start + c.length)).take c.start = xs.take k ++ (xs.drop k).take (c.start - k) := by
      rw [List.take_take, show min c.start (c.start + c.length) = k + (c.start - k) by omega, List.take_add]
    rw [List.foldr_cons, ih ascending.2]
    unfold Cut.splice
    rw [List.take_append_of_le_length (by omega), front, List.drop_append_of_le_length (by omega), behind]
    simp [rebuild]

theorem rebuild_append (ascending : Ascending xs.length k cuts) : rebuild (xs ++ tail) k cuts = rebuild xs k cuts ++ tail := by
  induction cuts generalizing k with
  | nil => exact List.drop_append_of_le_length ascending
  | cons c rest ih =>
    have later := ascending.2.bound
    have first := ascending.1
    unfold rebuild
    rw [ih ascending.2, List.drop_append_of_le_length (by omega),
      List.take_append_of_le_length (by rw [List.length_drop]; omega)]
    simp

theorem rebuild_same (ascending : Ascending xs.length k cuts)
    (same : ∀ c ∈ cuts, c.lines = (xs.drop c.start).take c.length) : rebuild xs k cuts = xs.drop k := by
  induction cuts generalizing k with
  | nil => rfl
  | cons c rest ih =>
    have later := ascending.2.bound
    have first := ascending.1
    unfold rebuild
    rw [ih ascending.2 fun d member => same d (List.mem_cons_of_mem _ member), same c List.mem_cons_self,
      List.append_assoc, ← List.drop_drop, List.take_append_drop]
    have split : xs.drop c.start = (xs.drop k).drop (c.start - k) := by
      rw [List.drop_drop, show k + (c.start - k) = c.start by omega]
    rw [split, List.take_append_drop]

theorem rebuild_map {f : α → β} : (rebuild xs k cuts).map f =
    rebuild (xs.map f) k (cuts.map fun c => ⟨c.start, c.length, c.lines.map f⟩) := by
  induction cuts generalizing k with
  | nil => simp [rebuild]
  | cons c rest ih => simp [rebuild, ih, List.map_take, List.map_drop]

end Ascending

/-! ### Stable sorting of two blocks -/

section Sorting
variable {le : α → α → Bool} {p : α → Bool} {l : List α}

theorem sorted_split (sorted : l.Pairwise (le · ·)) (lower : ∀ a b, le a b = true → p b = true → p a = true) :
    l = l.filter p ++ l.filter (!p ·) := by
  induction l with
  | nil => rfl
  | cons a rest ih =>
    obtain ⟨first, rest_sorted⟩ := List.pairwise_cons.mp sorted
    cases inside : p a with
    | true =>
      simp only [List.filter_cons, inside, ↓reduceIte, Bool.not_true, Bool.false_eq_true, List.cons_append]
      rw [← ih rest_sorted]
    | false =>
      have none : rest.filter p = [] := by
        rw [List.filter_eq_nil_iff]
        intro b member within
        rw [lower a b (first b member) within] at inside
        cases inside
      have all : rest.filter (!p ·) = rest := by
        rw [List.filter_eq_self]
        intro b member
        have := List.filter_eq_nil_iff.mp none b member
        simpa using this
      simp [inside, none, all]

theorem mergeSort_blocks (transitive : ∀ a b c, le a b = true → le b c = true → le a c = true)
    (total : ∀ a b, (le a b || le b a) = true) (lower : ∀ a b, le a b = true → p b = true → p a = true)
    (low : (l.filter p).Pairwise (le · ·)) (high : (l.filter (!p ·)).Pairwise (le · ·)) :
    l.mergeSort le = l.filter p ++ l.filter (!p ·) := by
  have block : ∀ q : α → Bool, (l.filter q).Pairwise (le · ·) → (l.mergeSort le).filter q = l.filter q := by
    intro q sorted
    have inside : ((l.filter q).filter q).Sublist ((l.mergeSort le).filter q) :=
      (List.sublist_mergeSort transitive total sorted List.filter_sublist).filter q
    rw [List.filter_filter] at inside
    simp only [Bool.and_self] at inside
    have long : ((l.mergeSort le).filter q).length = (l.filter q).length :=
      ((List.mergeSort_perm l le).filter q).length_eq
    exact (inside.eq_of_length long.symm).symm
  rw [sorted_split (List.pairwise_mergeSort transitive total l) lower, block p low, block _ high]

end Sorting
end Collections
