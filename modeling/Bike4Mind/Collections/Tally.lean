import Bike4Mind.Collections.OrderedMap
import Mathlib.Algebra.BigOperators.Group.List.Basic
import Mathlib.Tactic.Abel

/-! Counts kept per key in a map, where a key that counts for nothing may be missing. -/

namespace Collections.OrderedMap
variable {κ ν : Type} [DecidableEq κ] [AddCommGroup ν]

def count (m : OrderedMap κ ν) (k : κ) : ν := (m.get? k).getD 0

variable {m : OrderedMap κ ν} {k k' : κ} {v : ν}

omit [DecidableEq κ] [AddCommGroup ν] in
@[simp] theorem values_empty : (∅ : OrderedMap κ ν).values = [] := rfl

@[simp] theorem count_empty : (∅ : OrderedMap κ ν).count k = 0 := rfl

theorem count_set : (m.set k v).count k' = if k' = k then v else m.count k' := by
  unfold count
  rw [get?_set]
  split <;> rfl

theorem count_erase : (m.erase k).count k' = if k' = k then 0 else m.count k' := by
  unfold count
  rw [get?_erase]
  split <;> rfl

theorem count_of_mem (member : (k, v) ∈ m.entries) : m.count k = v := by
  unfold count
  rw [get?_of_mem member]
  rfl

theorem count_of_not_mem (absent : k ∉ m.keys) : m.count k = 0 := by
  unfold count
  rw [get?_none_iff.mpr absent]
  rfl

omit [AddCommGroup ν] in
theorem entries_split (present : k ∈ m.keys) : ∃ before v after, m.entries = before ++ (k, v) :: after ∧
    (∀ e ∈ before, e.1 ≠ k) ∧ ∀ e ∈ after, e.1 ≠ k := by
  obtain ⟨v, found⟩ := mem_keys_iff.mp present
  obtain ⟨before, after, split⟩ := List.append_of_mem (mem_of_get? found)
  have distinct := m.nodup
  rw [split, List.map_append, List.map_cons, List.nodup_append, List.nodup_cons] at distinct
  obtain ⟨_, ⟨fresh, _⟩, apart⟩ := distinct
  refine ⟨before, v, after, split, fun e member same => ?_, fun e member same => ?_⟩
  · exact apart _ (List.mem_map_of_mem member) _ List.mem_cons_self same
  · exact fresh (List.mem_map.mpr ⟨e, member, same⟩)

omit [AddCommGroup ν] in
theorem set_split (present : k ∈ m.keys) (v : ν) : ∃ before old after, m.entries = before ++ (k, old) :: after ∧
    (m.set k v).entries = before ++ (k, v) :: after := by
  obtain ⟨before, old, after, split, left, right⟩ := entries_split present
  have kept : ∀ entries : List (κ × ν), (∀ e ∈ entries, e.1 ≠ k) → rewritten entries k v = entries := by
    intro entries other
    refine (List.map_congr_left fun e member => ?_).trans (List.map_id _)
    exact if_neg (other e member)
  refine ⟨before, old, after, split, ?_⟩
  unfold set
  rw [dif_pos present]
  show rewritten m.entries k v = _
  rw [split]
  unfold rewritten
  rw [List.map_append, List.map_cons, if_pos rfl]
  exact congrArg₂ (· ++ (k, v) :: ·) (kept before left) (kept after right)

theorem sum_map_set {α : Type} (measure : α → ν) (m : OrderedMap κ α) (k : κ) (v : α) :
    ((m.set k v).values.map measure).sum = (m.values.map measure).sum - ((m.get? k).map measure).getD 0 + measure v := by
  by_cases present : k ∈ m.keys
  · obtain ⟨before, old, after, split, split'⟩ := set_split present v
    have found : m.get? k = some old := get?_of_mem (split ▸ List.mem_append_right _ List.mem_cons_self)
    unfold values
    rw [found, split, split']
    simp only [List.map_append, List.map_cons, List.sum_append, List.sum_cons, Option.map_some, Option.getD_some]
    abel
  · unfold values set
    rw [dif_neg present, get?_none_iff.mpr present]
    simp

theorem sum_set : (m.set k v).values.sum = m.values.sum - m.count k + v := by
  simpa [count] using sum_map_set id m k v

omit [AddCommGroup ν] in
theorem countP_set {old : ν} (found : m.get? k = some old) (p : ν → Bool) :
    (m.set k v).values.countP p + (if p old then 1 else 0) = m.values.countP p + if p v then 1 else 0 := by
  obtain ⟨before, old', after, split, split'⟩ := set_split (mem_keys_iff.mpr ⟨old, found⟩) v
  have same : m.get? k = some old' := get?_of_mem (split ▸ List.mem_append_right _ List.mem_cons_self)
  cases found.symm.trans same
  unfold values
  rw [split, split']
  simp only [List.map_append, List.map_cons, List.countP_append, List.countP_cons]
  omega

theorem sum_erase : (m.erase k).values.sum = m.values.sum - m.count k := by
  unfold values erase
  dsimp only
  by_cases present : k ∈ m.keys
  · obtain ⟨before, old, after, split, left, right⟩ := entries_split present
    have counted : m.count k = old := count_of_mem (split ▸ List.mem_append_right _ List.mem_cons_self)
    have kept : ∀ entries : List (κ × ν), (∀ e ∈ entries, e.1 ≠ k) → entries.filter (·.1 ≠ k) = entries :=
      fun entries other => List.filter_eq_self.mpr fun e member => decide_eq_true (other e member)
    rw [counted, split, List.filter_append, List.filter_cons_of_neg (by simp), kept before left, kept after right]
    simp only [List.map_append, List.map_cons, List.sum_append, List.sum_cons]
    abel
  · rw [count_of_not_mem present, sub_zero]
    refine congrArg (fun entries => (List.map Prod.snd entries).sum) (List.filter_eq_self.mpr fun e member => ?_)
    exact decide_eq_true fun same => present (same ▸ List.mem_map_of_mem member)

end Collections.OrderedMap
