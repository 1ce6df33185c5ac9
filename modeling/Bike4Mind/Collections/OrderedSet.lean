import Mathlib.Data.List.Nodup
import Mathlib.Data.List.Perm.Subperm

/-! Lists without repetition, in the order their members were first added, as a JavaScript `Set` keeps them. -/

namespace Collections
variable {κ : Type} [DecidableEq κ]

def insertNew (seen : List κ) (k : κ) : List κ := if k ∈ seen then seen else seen ++ [k]

/-- `[...new Set(l)]` -/
def distinct (l : List κ) : List κ := l.foldl insertNew []

variable {seen l : List κ} {k k' : κ}

theorem mem_insertNew : k' ∈ insertNew seen k ↔ k' = k ∨ k' ∈ seen := by
  unfold insertNew
  split
  · rename_i there
    exact ⟨Or.inr, fun h => h.elim (fun same => same ▸ there) id⟩
  · rw [List.mem_append, List.mem_singleton, or_comm]

theorem insertNew_nodup (distinct : seen.Nodup) : (insertNew seen k).Nodup := by
  unfold insertNew
  split
  · exact distinct
  · rename_i fresh
    rw [List.nodup_append]
    refine ⟨distinct, List.nodup_singleton k, ?_⟩
    rintro a member b last rfl
    cases List.mem_singleton.mp last
    exact fresh member

theorem mem_foldl_insertNew : k' ∈ l.foldl insertNew seen ↔ k' ∈ l ∨ k' ∈ seen := by
  induction l generalizing seen with
  | nil => simp
  | cons k rest ih =>
    rw [List.foldl_cons, ih, mem_insertNew, List.mem_cons]
    constructor
    · rintro (later | same | old)
      · exact Or.inl (Or.inr later)
      · exact Or.inl (Or.inl same)
      · exact Or.inr old
    · rintro ((same | later) | old)
      · exact Or.inr (Or.inl same)
      · exact Or.inl later
      · exact Or.inr (Or.inr old)

@[simp] theorem mem_distinct : k ∈ distinct l ↔ k ∈ l := by
  unfold distinct
  rw [mem_foldl_insertNew]
  simp

theorem distinct_nodup : (distinct l).Nodup := by
  unfold distinct
  have grows : ∀ seen : List κ, seen.Nodup → (l.foldl insertNew seen).Nodup := by
    induction l with
    | nil => exact fun seen h => h
    | cons k rest ih => exact fun seen h => ih _ (insertNew_nodup h)
  exact grows [] List.nodup_nil

omit [DecidableEq κ] in
theorem length_eq_of_mem_iff {l' : List κ} (left : l.Nodup) (right : l'.Nodup) (same : ∀ k, k ∈ l ↔ k ∈ l') :
    l.length = l'.length := ((List.perm_ext_iff_of_nodup left right).mpr same).length_eq

end Collections
