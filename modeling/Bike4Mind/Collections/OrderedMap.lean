import Mathlib.Data.List.Nodup

/-! Maps that remember the order in which their keys were first set, as a JavaScript `Map` does. -/

namespace Collections
variable {κ ν : Type}

structure OrderedMap (κ ν : Type) where
  entries : List (κ × ν)
  nodup : (entries.map Prod.fst).Nodup

namespace OrderedMap

def empty : OrderedMap κ ν := ⟨[], List.nodup_nil⟩

instance : EmptyCollection (OrderedMap κ ν) := ⟨empty⟩

def keys (m : OrderedMap κ ν) : List κ := m.entries.map Prod.fst

def values (m : OrderedMap κ ν) : List ν := m.entries.map Prod.snd

@[simp] theorem keys_empty : (∅ : OrderedMap κ ν).keys = [] := rfl

theorem keys_nodup {m : OrderedMap κ ν} : m.keys.Nodup := m.nodup

variable [DecidableEq κ]

def get? (m : OrderedMap κ ν) (k : κ) : Option ν := (m.entries.find? fun e => e.1 = k).map Prod.snd

/-- The entry under `k` rewritten in place. -/
def rewritten (entries : List (κ × ν)) (k : κ) (v : ν) : List (κ × ν) :=
  entries.map fun e => if e.1 = k then (k, v) else e

theorem rewritten_keys (entries : List (κ × ν)) (k : κ) (v : ν) : (rewritten entries k v).map Prod.fst = entries.map Prod.fst := by
  unfold rewritten
  rw [List.map_map]
  apply List.map_congr_left
  intro e _
  by_cases same : e.1 = k
  · simp [same]
  · simp [same]

def set (m : OrderedMap κ ν) (k : κ) (v : ν) : OrderedMap κ ν :=
  if present : k ∈ m.keys then
    ⟨rewritten m.entries k v, by
      rw [rewritten_keys]
      exact m.nodup⟩
  else
    ⟨m.entries ++ [(k, v)], by
      rw [List.map_append, List.nodup_append]
      refine ⟨m.nodup, List.nodup_singleton k, ?_⟩
      rintro a member b last rfl
      cases List.mem_singleton.mp last
      exact present member⟩

def erase (m : OrderedMap κ ν) (k : κ) : OrderedMap κ ν :=
  ⟨m.entries.filter (·.1 ≠ k), m.nodup.sublist (List.filter_sublist.map Prod.fst)⟩

section Lemmas
variable {m : OrderedMap κ ν} {k k' : κ} {v : ν}

@[simp] theorem get?_empty : (∅ : OrderedMap κ ν).get? k = none := rfl

theorem mem_of_get? (found : m.get? k = some v) : (k, v) ∈ m.entries := by
  obtain ⟨e, located, rfl⟩ := Option.map_eq_some_iff.mp found
  have here : e.1 = k := by simpa using List.find?_some located
  subst here
  exact List.mem_of_find?_eq_some located

theorem get?_of_mem (member : (k, v) ∈ m.entries) : m.get? k = some v := by
  unfold get?
  have distinct := m.nodup
  revert distinct member
  induction m.entries with
  | nil => exact fun member => by cases member
  | cons e rest ih =>
    intro member distinct
    obtain ⟨fresh, distinct⟩ := List.nodup_cons.mp distinct
    rcases List.mem_cons.mp member with same | later
    · subst same
      simp
    · have other : e.1 ≠ k := fun same => fresh (same ▸ List.mem_map.mpr ⟨(k, v), later, rfl⟩)
      rw [List.find?_cons_of_neg (by simpa using other)]
      exact ih later distinct

theorem get?_eq_some_iff : m.get? k = some v ↔ (k, v) ∈ m.entries := ⟨mem_of_get?, get?_of_mem⟩

theorem mem_keys_iff : k ∈ m.keys ↔ ∃ v, m.get? k = some v := by
  unfold keys
  rw [List.mem_map]
  constructor
  · rintro ⟨⟨k', v⟩, member, rfl⟩
    exact ⟨v, get?_of_mem member⟩
  · rintro ⟨v, found⟩
    exact ⟨(k, v), mem_of_get? found, rfl⟩

theorem get?_none_iff : m.get? k = none ↔ k ∉ m.keys := by
  rw [mem_keys_iff, Option.eq_none_iff_forall_ne_some, not_exists]

theorem keys_set_of_mem (present : k ∈ m.keys) : (m.set k v).keys = m.keys := by
  unfold set
  rw [dif_pos present]
  exact rewritten_keys _ _ _

theorem keys_set_of_not_mem (fresh : k ∉ m.keys) : (m.set k v).keys = m.keys ++ [k] := by
  unfold set
  rw [dif_neg fresh]
  exact List.map_append

theorem mem_keys_set : k' ∈ (m.set k v).keys ↔ k' = k ∨ k' ∈ m.keys := by
  by_cases present : k ∈ m.keys
  · rw [keys_set_of_mem present]
    exact ⟨Or.inr, fun h => h.elim (fun same => same ▸ present) id⟩
  · rw [keys_set_of_not_mem present, List.mem_append, List.mem_singleton, or_comm]

theorem get?_set (m : OrderedMap κ ν) (k k' : κ) (v : ν) : (m.set k v).get? k' = if k' = k then some v else m.get? k' := by
  by_cases present : k ∈ m.keys
  · have place : (m.set k v).entries = rewritten m.entries k v := by
      unfold set
      rw [dif_pos present]
    split
    · rename_i same
      subst same
      obtain ⟨old, found⟩ := mem_keys_iff.mp present
      apply get?_of_mem
      rw [place]
      exact List.mem_map.mpr ⟨(k', old), mem_of_get? found, if_pos rfl⟩
    · rename_i other
      apply Option.ext
      intro u
      rw [get?_eq_some_iff, get?_eq_some_iff, place]
      constructor
      · intro member
        obtain ⟨e, there, moved⟩ := List.mem_map.mp member
        split at moved
        · cases moved
          exact (other rfl).elim
        · exact moved ▸ there
      · intro member
        exact List.mem_map.mpr ⟨(k', u), member, if_neg other⟩
  · have place : (m.set k v).entries = m.entries ++ [(k, v)] := by
      unfold set
      rw [dif_neg present]
    apply Option.ext
    intro u
    rw [get?_eq_some_iff, place, List.mem_append, List.mem_singleton, Prod.mk.injEq]
    split
    · rename_i same
      subst same
      constructor
      · rintro (member | ⟨_, rfl⟩)
        · exact (present (mem_keys_iff.mpr ⟨u, get?_of_mem member⟩)).elim
        · rfl
      · intro found
        cases found
        exact Or.inr ⟨rfl, rfl⟩
    · rename_i other
      rw [get?_eq_some_iff]
      exact ⟨fun h => h.resolve_right fun same => other same.1, Or.inl⟩

@[simp] theorem get?_set_self : (m.set k v).get? k = some v := by rw [get?_set, if_pos rfl]

theorem get?_set_other (other : k' ≠ k) : (m.set k v).get? k' = m.get? k' := by rw [get?_set, if_neg other]

theorem get?_set_some {v' : ν} (found : (m.set k v).get? k' = some v') : k' = k ∧ v' = v ∨ k' ≠ k ∧ m.get? k' = some v' := by
  rw [get?_set] at found
  split at found
  · rename_i same
    exact Or.inl ⟨same, (Option.some.inj found).symm⟩
  · rename_i other
    exact Or.inr ⟨other, found⟩

theorem get?_erase (m : OrderedMap κ ν) (k k' : κ) : (m.erase k).get? k' = if k' = k then none else m.get? k' := by
  apply Option.ext
  intro v
  rw [get?_eq_some_iff]
  simp only [erase, List.mem_filter, decide_eq_true_eq]
  split
  · rename_i same
    simp [same]
  · rename_i other
    rw [get?_eq_some_iff]
    exact ⟨And.left, fun member => ⟨member, other⟩⟩

section Listed
variable {ι : Type} {items : List ι} {key : ι → κ} {value : ι → ν}

theorem get?_foldl_set (distinct : (items.map key).Nodup) :
    (items.foldl (fun m item => m.set (key item) (value item)) (∅ : OrderedMap κ ν)).get? k = some v ↔
      ∃ item ∈ items, key item = k ∧ value item = v := by
  have run (items : List ι) (m : OrderedMap κ ν) (distinct : (items.map key).Nodup) (fresh : ∀ item ∈ items, key item ∉ m.keys) :
      (items.foldl (fun m item => m.set (key item) (value item)) m).get? k = some v ↔
        m.get? k = some v ∨ ∃ item ∈ items, key item = k ∧ value item = v := by
    induction items generalizing m with
    | nil => simp
    | cons first rest ih =>
      obtain ⟨alone, distinct⟩ := List.nodup_cons.mp distinct
      have later : ∀ item ∈ rest, key item ∉ (m.set (key first) (value first)).keys := by
        intro item listed present
        rcases mem_keys_set.mp present with same | old
        · exact alone (List.mem_map.mpr ⟨item, listed, same⟩)
        · exact fresh item (.tail _ listed) old
      have absent := get?_none_iff.mpr (fresh first (.head _))
      rw [List.foldl_cons, ih _ distinct later, get?_set]
      split
      · rename_i here
        subst here
        rw [absent]
        constructor
        · rintro (same | ⟨item, listed, same⟩)
          · exact Or.inr ⟨first, .head _, rfl, Option.some.inj same⟩
          · exact Or.inr ⟨item, .tail _ listed, same⟩
        · rintro (none | ⟨item, listed, same, held⟩)
          · cases none
          · rcases List.mem_cons.mp listed with rfl | old
            · exact Or.inl (congrArg some held)
            · exact Or.inr ⟨item, old, same, held⟩
      · rename_i other
        constructor
        · rintro (old | ⟨item, listed, same⟩)
          · exact Or.inl old
          · exact Or.inr ⟨item, .tail _ listed, same⟩
        · rintro (old | ⟨item, listed, same, held⟩)
          · exact Or.inl old
          · rcases List.mem_cons.mp listed with rfl | there
            · exact (other same.symm).elim
            · exact Or.inr ⟨item, there, same, held⟩
  rw [run items ∅ distinct fun _ _ present => by cases present]
  simp

end Listed

end Lemmas
end OrderedMap
end Collections
