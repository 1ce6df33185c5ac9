import Mathlib.Data.List.MinMax
import Mathlib.Data.List.Sort

/-! The element a scan keeps that replaces what it holds only by something strictly greater, and the first few of a sort. -/

namespace Collections
variable {α β : Type} [LinearOrder β] {key : α → β}

def challenge (key : α → β) (held : Option α) (candidate : α) : Option α :=
  match held with
  | none => some candidate
  | some incumbent => if key incumbent < key candidate then some candidate else some incumbent

theorem argmax_eq_foldl (l : List α) : l.argmax key = l.foldl (challenge key) none := by
  unfold List.argmax
  congr 1
  funext held candidate
  cases held <;> rfl

/-- What a scan ends with does not depend on its order when the keys tell the elements apart. -/
theorem argmax_perm {l l' : List α} (same : l.Perm l') (apart : ∀ a ∈ l, ∀ b ∈ l, key a = key b → a = b) :
    l.argmax key = l'.argmax key := by
  cases found : l.argmax key with
  | none =>
    have empty := List.argmax_eq_none.mp found
    subst empty
    rw [List.nil_perm.mp same, List.argmax_nil]
  | some a =>
    cases found' : l'.argmax key with
    | none =>
      have empty := List.argmax_eq_none.mp found'
      subst empty
      rw [List.perm_nil.mp same] at found
      cases found
    | some b =>
      have here := List.argmax_mem found
      have there := same.mem_iff.mpr (List.argmax_mem found')
      have below := List.le_of_mem_argmax there found
      have above := List.le_of_mem_argmax (same.mem_iff.mp here) found'
      rw [apart a here b there (le_antisymm above below)]

/-- The accumulators of two scans, the first of which has seen `x` besides. -/
def Ahead (key : α → β) (x : α) (held other : Option α) : Prop :=
  held = other ∨ held = some x ∧ ∀ b ∈ other, key b ≤ key x

theorem Ahead.challenge {x y : α} {held other : Option α} (ahead : Ahead key x held other) :
    Ahead key x (challenge key held y) (challenge key other y) := by
  rcases ahead with same | ⟨mine, below⟩
  · exact .inl (by rw [same])
  · subst mine
    by_cases greater : key x < key y
    · have taken : Collections.challenge key (some x) y = some y := if_pos greater
      left
      rw [taken]
      cases other with
      | none => rfl
      | some b => exact (if_pos (lt_of_le_of_lt (below b rfl) greater)).symm
    · have kept : Collections.challenge key (some x) y = some x := if_neg greater
      right
      refine ⟨kept, ?_⟩
      cases other with
      | none =>
        intro b same
        cases same
        exact not_lt.mp greater
      | some b =>
        intro c same
        unfold Collections.challenge at same
        simp only at same
        split at same
        · cases same
          exact not_lt.mp greater
        · cases same
          exact below b rfl

theorem foldl_ahead {x : α} (l : List α) {held other : Option α} (ahead : Ahead key x held other) :
    Ahead key x (l.foldl (challenge key) held) (l.foldl (challenge key) other) := by
  induction l generalizing held other with
  | nil => exact ahead
  | cons y l ih => exact ih ahead.challenge

theorem argmax_insert (before after : List α) (x : α) :
    (before ++ x :: after).argmax key = some x ∨ (before ++ x :: after).argmax key = (before ++ after).argmax key := by
  rw [argmax_eq_foldl, argmax_eq_foldl, List.foldl_append, List.foldl_append, List.foldl_cons]
  have start : Ahead key x (challenge key (before.foldl (challenge key) none) x) (before.foldl (challenge key) none) := by
    cases held : before.foldl (challenge key) none with
    | none => exact .inr ⟨rfl, fun b same => by cases same⟩
    | some b =>
      by_cases greater : key b < key x
      · refine .inr ⟨if_pos greater, fun c same => ?_⟩
        cases same
        exact greater.le
      · exact .inl (if_neg greater)
  rcases foldl_ahead after start with same | ⟨mine, _⟩
  · exact .inr same
  · exact .inl mine

/-! ### The first few of a sort -/

section Leading
variable {γ : Type} (r : γ → γ → Prop) [DecidableRel r]

/-- The first `k` elements in order. -/
def leading (k : Nat) (xs : List γ) : List γ := (xs.insertionSort r).take k

variable {r} {k : Nat} {x : γ} {xs ys sorted : List γ}

/-- What does not come first before an insertion does not come first after it. -/
theorem take_orderedInsert_take : ((sorted.take k).orderedInsert r x).take k = (sorted.orderedInsert r x).take k := by
  induction sorted generalizing k with
  | nil => rw [List.take_nil]
  | cons y rest ih =>
    cases k with
    | zero => rw [List.take_zero, List.take_zero]
    | succ k =>
      rw [List.take_succ_cons, List.orderedInsert_cons, List.orderedInsert_cons]
      split
      · refine congrArg (x :: ·) ?_
        rw [← List.take_succ_cons, List.take_take, Nat.min_eq_left (Nat.le_succ k)]
      · rw [List.take_succ_cons, List.take_succ_cons, ih]

theorem leading_cons : leading r k (x :: xs) = ((leading r k xs).orderedInsert r x).take k := take_orderedInsert_take.symm

variable [Std.Total r] [IsTrans γ r] [Std.Antisymm r]

theorem leading_perm (same : xs.Perm ys) : leading r k xs = leading r k ys := by
  unfold leading
  rw [List.Perm.eq_of_pairwise' (List.pairwise_insertionSort r xs) (List.pairwise_insertionSort r ys)
    ((List.perm_insertionSort r xs).trans (same.trans (List.perm_insertionSort r ys).symm))]

omit [Std.Antisymm r] in
theorem leading_leading : leading r k (leading r k xs) = leading r k xs := by
  have sorted : (leading r k xs).Pairwise r := (List.pairwise_insertionSort r xs).sublist (List.take_sublist ..)
  unfold leading at sorted ⊢
  rw [sorted.insertionSort_eq, List.take_take, Nat.min_self]

theorem leading_append : leading r k (leading r k xs ++ ys) = leading r k (xs ++ ys) := by
  have turned (zs : List γ) : leading r k (zs ++ ys) = leading r k (ys ++ zs) := leading_perm List.perm_append_comm
  rw [turned, turned]
  clear turned
  induction ys with
  | nil => exact leading_leading
  | cons y rest ih => rw [List.cons_append, List.cons_append, leading_cons, leading_cons, ih]

theorem leading_flatMap (parts : List (List γ)) : leading r k (parts.flatMap (leading r k)) = leading r k parts.flatten := by
  induction parts with
  | nil => rfl
  | cons part rest ih =>
    rw [List.flatMap_cons, List.flatten_cons, leading_append, leading_perm List.perm_append_comm, ← leading_append, ih, leading_append,
      leading_perm List.perm_append_comm]

end Leading

end Collections
