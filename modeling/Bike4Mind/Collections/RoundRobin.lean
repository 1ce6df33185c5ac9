import Mathlib.Data.List.Basic
import Mathlib.Data.List.Infix
import Mathlib.Data.List.Nodup
import Mathlib.Order.Lattice

/-! Queues that are emptied in rounds, one item of each queue in a round. -/

namespace Collections
variable {α κ : Type}

/-- The items that the queues give in a round. -/
def roundOf (queues : List (List α)) (round : Nat) : List α := queues.filterMap (·[round]?)

def longest (queues : List (List α)) : Nat := queues.foldl (fun most queue => max most queue.length) 0

def roundRobin (queues : List (List α)) : List α := (List.range (longest queues)).flatMap (roundOf queues)

theorem longest_ge {queues : List (List α)} {queue : List α} (member : queue ∈ queues) : queue.length ≤ longest queues := by
  have grows (most : Nat) : most ≤ queues.foldl (fun most queue => max most queue.length) most ∧
      ∀ queue ∈ queues, queue.length ≤ queues.foldl (fun most queue => max most queue.length) most := by
    clear member
    induction queues generalizing most with
    | nil => exact ⟨le_rfl, fun _ none => by cases none⟩
    | cons first rest ih =>
      obtain ⟨start, later⟩ := ih (max most first.length)
      refine ⟨(le_max_left _ _).trans start, fun queue member => ?_⟩
      rcases List.mem_cons.mp member with rfl | there
      · exact (le_max_right _ _).trans start
      · exact later queue there
  exact (grows 0).2 queue member

theorem mem_roundRobin {queues : List (List α)} {x : α} (emitted : x ∈ roundRobin queues) : ∃ queue ∈ queues, x ∈ queue := by
  obtain ⟨round, _, given⟩ := List.mem_flatMap.mp emitted
  obtain ⟨queue, listed, item⟩ := List.mem_filterMap.mp given
  exact ⟨queue, listed, List.mem_of_getElem? item⟩

section Owners
variable [DecidableEq κ] {owner : α → κ} {keys : List κ} {queue : κ → List α} {key : κ}

theorem perm_of_owners {left right : List α} (each : ∀ key, left.filter (owner · = key) = right.filter (owner · = key)) :
    left.Perm right := by
  classical
  rw [List.perm_iff_count]
  intro x
  have kept (items : List α) : items.count x = (items.filter (owner · = owner x)).count x :=
    (List.count_filter (p := (owner · = owner x)) (decide_eq_true rfl)).symm
  rw [kept left, kept right, each (owner x)]

theorem roundOf_filter (distinct : keys.Nodup) (owned : ∀ key, ∀ x ∈ queue key, owner x = key) (member : key ∈ keys) (round : Nat) :
    (roundOf (keys.map queue) round).filter (owner · = key) = (queue key)[round]?.toList := by
  unfold roundOf
  induction keys with
  | nil => cases member
  | cons first rest ih =>
    obtain ⟨fresh, distinct⟩ := List.nodup_cons.mp distinct
    have head : ((queue first)[round]?.toList).filter (owner · = key) = if first = key then (queue key)[round]?.toList else [] := by
      cases item : (queue first)[round]? with
      | none =>
        split
        · rename_i same
          rw [← same, item]
          rfl
        · rfl
      | some x =>
        have mine := owned first x (List.mem_of_getElem? item)
        by_cases same : first = key
        · rw [if_pos same, ← same, item]
          simp [mine]
        · rw [if_neg same]
          simp [mine, same]
    have split : (List.filterMap (·[round]?) ((first :: rest).map queue)).filter (owner · = key) =
        ((queue first)[round]?.toList).filter (owner · = key) ++ ((rest.map queue).filterMap (·[round]?)).filter (owner · = key) := by
      rw [List.map_cons, List.filterMap_cons, ← List.filter_append]
      cases (queue first)[round]? <;> rfl
    rw [split, head]
    rcases List.mem_cons.mp member with rfl | there
    · have none : ((rest.map queue).filterMap (·[round]?)).filter (owner · = key) = [] := by
        rw [List.filter_eq_nil_iff]
        intro x inside same
        obtain ⟨items, listed, at_⟩ := List.mem_filterMap.mp inside
        obtain ⟨other, present, rfl⟩ := List.mem_map.mp listed
        have mine := owned other x (List.mem_of_getElem? at_)
        have key_other : owner x = key := of_decide_eq_true same
        exact fresh (key_other ▸ mine ▸ present)
      rw [if_pos rfl, none, List.append_nil]
    · have other : first ≠ key := fun same => fresh (same ▸ there)
      rw [if_neg other, List.nil_append]
      exact ih distinct there

theorem flatMap_getElem (items : List α) (bound : Nat) :
    (List.range bound).flatMap (fun round => items[round]?.toList) = items.take bound := by
  induction bound with
  | zero => rfl
  | succ n ih =>
    rw [List.range_succ, List.flatMap_append, ih, List.take_add_one]
    simp

theorem rounds_filter (distinct : keys.Nodup) (owned : ∀ key, ∀ x ∈ queue key, owner x = key) (member : key ∈ keys) (bound : Nat) :
    ((List.range bound).flatMap (roundOf (keys.map queue))).filter (owner · = key) = (queue key).take bound := by
  rw [List.filter_flatMap, ← flatMap_getElem]
  congr 1
  exact funext (roundOf_filter distinct owned member)

theorem roundRobin_filter (distinct : keys.Nodup) (owned : ∀ key, ∀ x ∈ queue key, owner x = key) (member : key ∈ keys) :
    (roundRobin (keys.map queue)).filter (owner · = key) = queue key :=
  (rounds_filter distinct owned member _).trans (List.take_of_length_le (longest_ge (List.mem_map_of_mem member)))

theorem prefix_rounds {f : Nat → List α} {bound : Nat} {front : List α} (cut : front <+: (List.range bound).flatMap f) :
    ∃ round last, front = (List.range round).flatMap f ++ last ∧ last <+: f round := by
  induction bound with
  | zero => exact ⟨0, [], by rw [List.prefix_nil.mp cut]; rfl, List.nil_prefix⟩
  | succ bound ih =>
    rw [List.range_succ, List.flatMap_append, List.flatMap_singleton] at cut
    obtain ⟨rest, whole⟩ := cut
    rcases List.append_eq_append_iff.mp whole with ⟨more, early, _⟩ | ⟨last, same, late⟩
    · exact ih ⟨more, early.symm⟩
    · exact ⟨bound, last, same, ⟨rest, late.symm⟩⟩

/-- After any number of items, queues that have more to give have given as many as one another, or one more. -/
theorem roundRobin_fair (distinct : keys.Nodup) (owned : ∀ key, ∀ x ∈ queue key, owner x = key) {front : List α}
    (cut : front <+: roundRobin (keys.map queue)) : ∃ round, ∀ key ∈ keys, front.countP (owner · = key) < (queue key).length →
      front.countP (owner · = key) = round ∨ front.countP (owner · = key) = round + 1 := by
  obtain ⟨round, last, same, inside⟩ := prefix_rounds cut
  refine ⟨round, fun key member unfinished => ?_⟩
  have whole : ((List.range round).flatMap (roundOf (keys.map queue))).countP (owner · = key) = min round (queue key).length := by
    rw [List.countP_eq_length_filter, rounds_filter distinct owned member, List.length_take]
  have part : last.countP (owner · = key) ≤ 1 := by
    have most := (inside.sublist.filter (owner · = key)).length_le
    rw [roundOf_filter distinct owned member, ← List.countP_eq_length_filter] at most
    refine most.trans ?_
    cases (queue key)[round]? <;> simp
  rw [same, List.countP_append, whole] at unfinished ⊢
  omega

end Owners

end Collections
