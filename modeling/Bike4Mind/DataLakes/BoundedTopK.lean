import Bike4Mind.Collections.Foremost
import Mathlib.Algebra.Order.Ring.Rat

/-! The collector that keeps the best of what it is offered. -/

namespace Bike4Mind.DataLakes
open Collections

structure BoundedTopK (α : Type) where
  capacity : Int
  compare : α → α → ℚ
  items : List α := []

namespace BoundedTopK
variable {α : Type}

/-- The binary search of `offer` among the places from `lo` to `hi`. -/
def search (t : BoundedTopK α) (item : α) (lo hi : Nat) (within : hi ≤ t.items.length) : Nat :=
  if searching : lo < hi then
    have inside : (lo + hi) / 2 < t.items.length := by omega
    if t.compare t.items[(lo + hi) / 2] item ≤ 0 then t.search item ((lo + hi) / 2 + 1) hi within
    else t.search item lo ((lo + hi) / 2) inside.le
  else lo
termination_by hi - lo

def offer (t : BoundedTopK α) (item : α) : BoundedTopK α :=
  if t.capacity ≤ 0 then t
  else if t.capacity ≤ t.items.length ∧ t.items.getLast?.any fun worst => 0 ≤ t.compare item worst then t
  else
    let lo := t.search item 0 t.items.length le_rfl
    let items := t.items.take lo ++ item :: t.items.drop lo
    { t with items := if t.capacity < items.length then items.dropLast else items }

def drain (t : BoundedTopK α) : List α := t.items

/-- A collector of its own for a sequence of offers. -/
def collect (capacity : Int) (compare : α → α → ℚ) (offers : List α) : BoundedTopK α := offers.foldl offer { capacity, compare }

/-- What `compare` must be: a total order, with no ties left to the order of arrival. -/
structure TotalOrder (compare : α → α → ℚ) : Prop where
  flips : ∀ a b, 0 < compare a b ↔ compare b a < 0
  untied : ∀ a b, compare a b = 0 → a = b
  trans : ∀ a b c, compare a b ≤ 0 → compare b c ≤ 0 → compare a c ≤ 0

def Before (compare : α → α → ℚ) (a b : α) : Prop := compare a b ≤ 0

instance (compare : α → α → ℚ) : DecidableRel (Before compare) := fun a b => inferInstanceAs (Decidable (compare a b ≤ 0))

section Order
variable {compare : α → α → ℚ}

theorem TotalOrder.total (order : TotalOrder compare) : Std.Total (Before compare) where
  total a b := by
    by_cases first : compare a b ≤ 0
    · exact Or.inl first
    · exact Or.inr ((order.flips a b).mp (not_le.mp first)).le

theorem TotalOrder.isTrans (order : TotalOrder compare) : IsTrans α (Before compare) where
  trans := order.trans

theorem TotalOrder.antisymm (order : TotalOrder compare) : Std.Antisymm (Before compare) where
  antisymm a b first second := by
    refine order.untied a b (le_antisymm first (not_lt.mp fun earlier => ?_))
    exact absurd ((order.flips b a).mpr earlier) (not_lt.mpr second)

end Order

section Offers
variable {t : BoundedTopK α} {item : α}

theorem search_splits (order : TotalOrder t.compare) (sorted : t.items.Pairwise (Before t.compare)) {lo hi : Nat}
    (within : hi ≤ t.items.length)
    (below : ∀ (i : Nat) (inside : i < t.items.length), i < lo → Before t.compare t.items[i] item)
    (above : ∀ (i : Nat) (inside : i < t.items.length), hi ≤ i → ¬ Before t.compare t.items[i] item) :
    (∀ (i : Nat) (inside : i < t.items.length), i < t.search item lo hi within → Before t.compare t.items[i] item) ∧
      ∀ (i : Nat) (inside : i < t.items.length), t.search item lo hi within ≤ i → ¬ Before t.compare t.items[i] item := by
  have ordered : ∀ (i j : Nat) (insideI : i < t.items.length) (insideJ : j < t.items.length), i < j →
      Before t.compare t.items[i] t.items[j] := fun i j insideI insideJ early => List.pairwise_iff_getElem.mp sorted i j insideI insideJ early
  induction lo, hi, within using search.induct t item with
  | case1 lo hi within searching inside early ih =>
    rw [search, dif_pos searching, if_pos early]
    refine ih (fun i insideI first => ?_) above
    rcases Nat.lt_or_eq_of_le (Nat.le_of_lt_succ first) with earlier | rfl
    · exact order.trans _ _ _ (ordered i _ insideI inside earlier) early
    · exact early
  | case2 lo hi within searching inside late ih =>
    rw [search, dif_pos searching, if_neg late]
    refine ih below fun i insideI last first => ?_
    rcases Nat.lt_or_eq_of_le last with later | rfl
    · exact late (order.trans _ _ _ (ordered _ i inside insideI later) first)
    · exact late first
  | case3 lo hi within done =>
    rw [search, dif_neg done]
    exact ⟨below, fun i inside last => above i inside (by omega)⟩

theorem splice_eq (order : TotalOrder t.compare) (sorted : t.items.Pairwise (Before t.compare)) :
    t.items.take (t.search item 0 t.items.length le_rfl) ++ item :: t.items.drop (t.search item 0 t.items.length le_rfl) =
      t.items.orderedInsert (Before t.compare) item := by
  have := order.total
  have := order.isTrans
  have := order.antisymm
  obtain ⟨below, above⟩ := @search_splits _ t item order sorted _ _ le_rfl (fun _ _ early => absurd early (Nat.not_lt_zero _))
    fun _ inside late => absurd inside (not_lt.mpr late)
  generalize t.search item 0 t.items.length le_rfl = place at below above ⊢
  have ahead : ∀ other ∈ t.items.take place, Before t.compare other item := by
    intro other member
    obtain ⟨i, inside, rfl⟩ := List.mem_iff_getElem.mp member
    rw [List.getElem_take]
    rw [List.length_take] at inside
    exact below i (by omega) (by omega)
  have behind : ∀ other ∈ t.items.drop place, Before t.compare item other := by
    intro other member
    obtain ⟨i, inside, rfl⟩ := List.mem_iff_getElem.mp member
    rw [List.getElem_drop]
    rw [List.length_drop] at inside
    exact (total_of (Before t.compare) _ _).resolve_left (above (place + i) (by omega) (by omega))
  have parts : (t.items.take place).Pairwise (Before t.compare) ∧ (t.items.drop place).Pairwise (Before t.compare) ∧
      ∀ a ∈ t.items.take place, ∀ b ∈ t.items.drop place, Before t.compare a b := by
    rw [← List.pairwise_append, List.take_append_drop]
    exact sorted
  refine List.Perm.eq_of_pairwise' ?_ (sorted.orderedInsert item _) ?_
  · refine List.pairwise_append.mpr ⟨parts.1, List.pairwise_cons.mpr ⟨behind, parts.2.1⟩, fun a member b later => ?_⟩
    rcases List.mem_cons.mp later with rfl | later
    · exact ahead a member
    · exact parts.2.2 a member b later
  · refine List.perm_middle.trans ?_
    rw [List.take_append_drop]
    exact (List.perm_orderedInsert _ item t.items).symm

theorem offer_items (order : TotalOrder t.compare) (sorted : t.items.Pairwise (Before t.compare))
    (within : t.items.length ≤ t.capacity.toNat) :
    (t.offer item).items = (t.items.orderedInsert (Before t.compare) item).take t.capacity.toNat := by
  have := order.total
  have := order.isTrans
  have := order.antisymm
  unfold offer
  split
  · rename_i none
    have empty : t.items = [] := List.eq_nil_of_length_eq_zero (by omega)
    rw [Int.toNat_of_nonpos none, empty, List.take_zero]
  rename_i some
  have inserted : (t.items.orderedInsert (Before t.compare) item).length = t.items.length + 1 := List.orderedInsert_length ..
  split
  · -- A full collector turns away what does not come before its last item.
    rename_i worse
    obtain ⟨full, worse⟩ := worse
    obtain ⟨worst, last, worse⟩ := (Option.any_eq_true ..).mp worse
    have late : Before t.compare worst item := by
      refine not_lt.mp fun earlier => ?_
      exact absurd ((order.flips worst item).mp earlier) (not_lt.mpr (by simpa using worse))
    have behind : ∀ other ∈ t.items, Before t.compare other item := by
      intro other member
      rw [← List.dropLast_append_getLast? worst last] at member sorted
      rcases List.mem_append.mp member with earlier | same
      · exact order.trans _ _ _ ((List.pairwise_append.mp sorted).2.2 other earlier worst (List.mem_singleton_self _)) late
      · exact List.mem_singleton.mp same ▸ late
    have appended : t.items.orderedInsert (Before t.compare) item = t.items ++ [item] := by
      refine List.Perm.eq_of_pairwise' (sorted.orderedInsert item _) ?_ ?_
      · refine List.pairwise_append.mpr ⟨sorted, List.pairwise_singleton _ _, fun other member x same => ?_⟩
        exact List.mem_singleton.mp same ▸ behind other member
      · exact (List.perm_orderedInsert _ item t.items).trans (List.perm_append_singleton item t.items).symm
    have length : t.capacity.toNat = t.items.length := by omega
    rw [appended, length, List.take_left]
  · dsimp only
    rw [splice_eq order sorted, inserted]
    split
    · have length : t.capacity.toNat = t.items.length := by omega
      rw [List.dropLast_eq_take, inserted, length]
      rfl
    · rw [List.take_of_length_le (by omega)]

theorem offer_capacity : (t.offer item).capacity = t.capacity ∧ (t.offer item).compare = t.compare := by
  unfold offer
  split
  · exact ⟨rfl, rfl⟩
  split <;> exact ⟨rfl, rfl⟩

end Offers

section Runs
variable {compare : α → α → ℚ}

/-- A collector holds the first of what it has been offered, in order. -/
theorem collect_leading (order : TotalOrder compare) (capacity : Int) (offers : List α) :
    (collect capacity compare offers).drain = leading (Before compare) capacity.toNat offers := by
  have := order.total
  have := order.isTrans
  have := order.antisymm
  have run (seen rest : List α) (t : BoundedTopK α) (limit : t.capacity = capacity) (orders : t.compare = compare)
      (holds : t.items = leading (Before compare) capacity.toNat seen) :
      (rest.foldl offer t).items = leading (Before compare) capacity.toNat (seen ++ rest) := by
    induction rest generalizing seen t with
    | nil => rw [List.append_nil, List.foldl_nil, holds]
    | cons item rest ih =>
      subst limit orders
      have sorted : t.items.Pairwise (Before t.compare) := by
        rw [holds]
        exact (List.pairwise_insertionSort _ seen).sublist (List.take_sublist ..)
      have within : t.items.length ≤ t.capacity.toNat := by
        rw [holds]
        exact List.length_take_le ..
      have next := ih (seen ++ [item]) (t.offer item) offer_capacity.1 offer_capacity.2 ?_
      · rw [List.foldl_cons, next, List.append_assoc, List.singleton_append]
      · rw [offer_items order sorted within, holds, ← leading_cons]
        exact leading_perm (List.perm_append_singleton item seen).symm
  exact run [] offers _ rfl rfl (by simp [leading])

/-- What a collector drains is the beginning of the sorted offers, whatever their order, and collectors of parts may be collected in turn. -/
theorem topK_sorts (order : TotalOrder compare) (capacity : Int) (offers : List α) :
    (collect capacity compare offers).drain =
        (offers.insertionSort (Before compare)).take (min (max capacity 0).toNat offers.length) ∧
      (∀ offers' : List α, offers'.Perm offers → (collect capacity compare offers').drain = (collect capacity compare offers).drain) ∧
      ∀ (parts : List (List α)) (merged : List α), parts.flatten.Perm offers →
        merged.Perm (parts.flatMap fun part => (collect capacity compare part).drain) →
        (collect capacity compare merged).drain = (collect capacity compare offers).drain := by
  have := order.total
  have := order.isTrans
  have := order.antisymm
  simp only [collect_leading order]
  refine ⟨?_, fun offers' same => leading_perm same, fun parts merged split drains => ?_⟩
  · have limit : (max capacity 0).toNat = capacity.toNat := by omega
    have length := List.length_insertionSort (Before compare) offers
    rw [limit, ← length, ← List.take_take, List.take_length]
    rfl
  · calc leading (Before compare) capacity.toNat merged
      _ = leading (Before compare) capacity.toNat (parts.flatMap (leading (Before compare) capacity.toNat)) := leading_perm drains
      _ = leading (Before compare) capacity.toNat parts.flatten := leading_flatMap parts
      _ = leading (Before compare) capacity.toNat offers := leading_perm split

end Runs

def byDistance (a b : ℚ) : ℚ := a - b

theorem byDistance_total : TotalOrder byDistance where
  flips _ _ := sub_pos.trans sub_neg.symm
  untied _ _ := sub_eq_zero.mp
  trans _ _ _ first second := sub_nonpos.mpr ((sub_nonpos.mp first).trans (sub_nonpos.mp second))

theorem best_two_of_four : (collect 2 byDistance [3, 1, 2, 1]).drain = [1, 1] :=
  (topK_sorts byDistance_total 2 [3, 1, 2, 1]).1.trans (by decide +kernel)

end BoundedTopK
end Bike4Mind.DataLakes
