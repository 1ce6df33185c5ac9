import Bike4Mind.Collections.Tally
import Mathlib.Logic.Relation

/-! Dependency orders: lists in which what an element needs comes first, and the degrees that count what is still needed. -/

namespace Collections
variable {α : Type} {deps : α → List α} {a b : α} {l : List α}

def Needs (deps : α → List α) (a b : α) : Prop := b ∈ deps a

/-! ### Dependencies first -/

/-- The latest first: what each element needs is among the earlier ones. -/
def Sorted (deps : α → List α) : List α → Prop
  | [] => True
  | a :: earlier => (∀ b ∈ deps a, b ∈ earlier) ∧ Sorted deps earlier

theorem Sorted.closed (sorted : Sorted deps l) (member : a ∈ l) (reached : Relation.ReflTransGen (Needs deps) a b) : b ∈ l := by
  have step : ∀ {l : List α} {a b}, Sorted deps l → a ∈ l → Needs deps a b → b ∈ l := by
    intro l a b sorted member need
    induction l with
    | nil => cases member
    | cons last earlier ih =>
      refine List.mem_cons_of_mem _ ?_
      rcases List.mem_cons.mp member with rfl | old
      · exact sorted.1 b need
      · exact ih sorted.2 old
  induction reached with
  | refl => exact member
  | tail _ need ih => exact step sorted ih need

/-- An element of such a list does not need itself, however far. -/
theorem Sorted.acyclic (sorted : Sorted deps l) (member : a ∈ l) : ¬Relation.TransGen (Needs deps) a a := by
  induction l with
  | nil => cases member
  | cons last earlier ih =>
    intro cycle
    by_cases old : a ∈ earlier
    · exact ih sorted.2 old cycle
    · -- The last element needs earlier ones only, so what it leads to is earlier.
      obtain rfl : a = last := (List.mem_cons.mp member).resolve_right old
      obtain ⟨b, need, path⟩ := Relation.TransGen.head'_iff.mp cycle
      exact old (sorted.2.closed (sorted.1 b need) path)

/-- Among elements with such an order, a set that misses one misses one of which it has all that is needed. -/
theorem Sorted.first_missing (done : α → Prop) (sorted : Sorted deps l) (member : a ∈ l) (missing : ¬done a) :
    ∃ b ∈ l, ¬done b ∧ ∀ c ∈ deps b, done c := by
  induction l generalizing a with
  | nil => cases member
  | cons last earlier ih =>
    by_cases older : ∃ b ∈ earlier, ¬done b
    · obtain ⟨b, old, remains⟩ := older
      obtain ⟨first, inside, rest⟩ := ih sorted.2 old remains
      exact ⟨first, List.mem_cons_of_mem _ inside, rest⟩
    · have all : ∀ b ∈ earlier, done b := fun b old => by_contra fun no => older ⟨b, old, no⟩
      rcases List.mem_cons.mp member with rfl | old
      · exact ⟨a, member, missing, fun c need => all c (sorted.1 c need)⟩
      · exact absurd (all a old) missing

/-! ### Degrees -/

section Degrees
variable [DecidableEq α]

/-- Takes one off the degree of each of `dependents`, and gives those that come to 0; a key without a degree has none to come to 0. -/
def release (degrees : OrderedMap α Int) : List α → OrderedMap α Int × List α
  | [] => (degrees, [])
  | dependent :: rest =>
    match degrees.get? dependent with
    | none => release degrees rest
    | some degree =>
      let released := release (degrees.set dependent (degree - 1)) rest
      (released.1, if degree - 1 = 0 then dependent :: released.2 else released.2)

variable {degrees : OrderedMap α Int} {dependents : List α} {k : α}

theorem release_degree : (release degrees dependents).1.get? k = (degrees.get? k).map fun degree : Int => degree - dependents.count k := by
  induction dependents generalizing degrees with
  | nil =>
    unfold release
    simp
  | cons dependent rest ih =>
    unfold release
    split
    · rename_i absent
      rw [ih]
      by_cases own : dependent = k
      · rw [← own, absent]
        rfl
      · rw [List.count_cons_of_ne own]
    · rename_i degree found
      dsimp only
      rw [ih, OrderedMap.get?_set]
      by_cases own : k = dependent
      · rw [if_pos own, own, found, List.count_cons_self]
        simp only [Option.map_some, Option.some.injEq]
        omega
      · rw [if_neg own, List.count_cons_of_ne (Ne.symm own)]

/-- A key comes to 0 when its degree is no more than its occurrences. -/
theorem mem_release : k ∈ (release degrees dependents).2 ↔ ∃ degree, degrees.get? k = some degree ∧ 0 < degree ∧ degree ≤ dependents.count k := by
  induction dependents generalizing degrees with
  | nil =>
    unfold release
    constructor
    · intro inside
      cases inside
    · rintro ⟨degree, _, positive, small⟩
      rw [List.count_nil] at small
      omega
  | cons dependent rest ih =>
    unfold release
    split
    · rename_i absent
      rw [ih]
      by_cases own : dependent = k
      · rw [← own, absent]
        simp
      · rw [List.count_cons_of_ne own]
    · rename_i degree found
      dsimp only
      by_cases own : k = dependent
      · have later : k ∈ (release (degrees.set dependent (degree - 1)) rest).2 ↔ 0 < degree - 1 ∧ degree - 1 ≤ rest.count k := by
          rw [ih, own, OrderedMap.get?_set_self]
          simp
        rw [own] at later ⊢
        rw [found, List.count_cons_self]
        split
        · rename_i zero
          simp only [List.mem_cons, true_or, true_iff, Option.some.injEq, exists_eq_left']
          omega
        · rename_i more
          rw [later]
          simp only [Option.some.injEq, exists_eq_left']
          omega
      · have later : k ∈ (release (degrees.set dependent (degree - 1)) rest).2 ↔
            ∃ degree, degrees.get? k = some degree ∧ 0 < degree ∧ degree ≤ rest.count k := by
          rw [ih, OrderedMap.get?_set_other own]
        rw [List.count_cons_of_ne (Ne.symm own), ← later]
        split
        · rw [List.mem_cons, or_iff_right own]
        · rfl

theorem release_nodup : (release degrees dependents).2.Nodup := by
  induction dependents generalizing degrees with
  | nil => exact List.nodup_nil
  | cons dependent rest ih =>
    unfold release
    split
    · exact ih
    · rename_i degree found
      dsimp only
      split
      · rename_i zero
        refine List.nodup_cons.mpr ⟨fun again => ?_, ih⟩
        obtain ⟨left, found, positive, _⟩ := mem_release.mp again
        rw [OrderedMap.get?_set_self] at found
        cases found
        omega
      · exact ih

def positives (degrees : OrderedMap α Int) : Nat := degrees.values.countP (0 < ·)

theorem release_positives : positives (release degrees dependents).1 + (release degrees dependents).2.length = positives degrees := by
  induction dependents generalizing degrees with
  | nil => rfl
  | cons dependent rest ih =>
    unfold release
    split
    · exact ih
    · rename_i degree found
      have less := OrderedMap.countP_set (v := degree - 1) found (decide <| 0 < ·)
      have later : positives (release (degrees.set dependent (degree - 1)) rest).1 + (release (degrees.set dependent (degree - 1)) rest).2.length =
          positives (degrees.set dependent (degree - 1)) := ih
      unfold positives at later ⊢
      dsimp only
      by_cases last : degree = 1
      · subst last
        simp only [sub_self, ↓reduceIte, List.length_cons] at later less ⊢
        simp at less
        omega
      · have even : decide (0 < degree - 1) = decide (0 < degree) := decide_eq_decide.mpr (by omega)
        rw [if_neg (by omega)]
        rw [even] at less
        omega

/-! ### Kahn's count -/

/-- The degree of each node is how many of its dependencies are not done, repeated ones each time. -/
def Counts (nodes : List α) (deps : α → List α) (done : List α) (degrees : OrderedMap α Int) : Prop :=
  ∀ k ∈ nodes, degrees.get? k = some (((deps k).countP (· ∉ done) : Nat) : Int)

variable {nodes done batch : List α} {dependentsOf : α → List α}

theorem countP_mem_eq_sum (l : List α) (distinct : batch.Nodup) : l.countP (· ∈ batch) = (batch.map (l.count ·)).sum := by
  induction batch with
  | nil => simp
  | cons p batch ih =>
    obtain ⟨fresh, distinct⟩ := List.nodup_cons.mp distinct
    rw [List.map_cons, List.sum_cons, ← ih distinct, List.count]
    clear ih
    induction l with
    | nil => rfl
    | cons x l ih =>
      simp only [List.countP_cons, List.mem_cons, decide_eq_true_eq, beq_iff_eq] at ih ⊢
      rw [ih]
      by_cases own : x = p
      · subst own
        simp [fresh]
        omega
      · simp [own]
        omega

theorem countP_open (l : List α) (apart : (done ++ batch).Nodup) :
    l.countP (· ∉ done ++ batch) + l.countP (· ∈ batch) = l.countP (· ∉ done) := by
  have disjoint := (List.nodup_append.mp apart).2.2
  induction l with
  | nil => rfl
  | cons x l ih =>
    simp only [List.countP_cons, List.mem_append, decide_eq_true_eq] at ih ⊢
    by_cases old : x ∈ done
    · have fresh : x ∉ batch := fun again => disjoint x old x again rfl
      simp [old, fresh]
      simpa using ih
    · by_cases now : x ∈ batch
      · simp [old, now]
        simp at ih
        omega
      · simp [old, now]
        simp at ih
        omega

section Batch
variable (counts : Counts nodes deps done degrees) (apart : (done ++ batch).Nodup)
  (mirror : ∀ k ∈ nodes, ∀ p ∈ batch, (dependentsOf p).count k = (deps k).count p)
include apart mirror

theorem count_flatMap_dependents (node : k ∈ nodes) : (batch.flatMap dependentsOf).count k = (deps k).countP (· ∈ batch) := by
  rw [countP_mem_eq_sum (deps k) (List.nodup_append.mp apart).2.1, List.count_flatMap]
  exact congrArg List.sum (List.map_congr_left fun p member => mirror k node p member)

include counts

theorem Counts.release : Counts nodes deps (done ++ batch) (release degrees (batch.flatMap dependentsOf)).1 := by
  intro k node
  rw [release_degree, counts k node, count_flatMap_dependents apart mirror node, ← countP_open (deps k) apart]
  simp

/-- What comes to 0 are the nodes that have the last of their dependencies in the batch. -/
theorem Counts.mem_release (node : k ∈ nodes) : k ∈ (Collections.release degrees (batch.flatMap dependentsOf)).2 ↔
    (∃ b ∈ deps k, b ∉ done) ∧ ∀ b ∈ deps k, b ∈ done ++ batch := by
  have parts := countP_open (deps k) apart
  rw [Collections.mem_release, count_flatMap_dependents apart mirror node, counts k node]
  have missing : 0 < (deps k).countP (· ∉ done) ↔ ∃ b ∈ deps k, b ∉ done := by simp [List.countP_pos_iff]
  have settled : (deps k).countP (· ∉ done ++ batch) = 0 ↔ ∀ b ∈ deps k, b ∈ done ++ batch := by
    simp only [List.countP_eq_zero, decide_eq_true_eq, not_not]
  rw [← missing, ← settled]
  simp only [Option.some.injEq, exists_eq_left']
  omega

end Batch
end Degrees
end Collections
