import Mathlib.Data.List.Basic

/-! Histories of a run, newest event first. -/

namespace Concurrency
variable {ε : Type}

/-- Every event is justified by the ones before it. -/
def Justified (P : ε → List ε → Prop) : List ε → Prop
  | [] => True
  | e :: earlier => P e earlier ∧ Justified P earlier

variable {P : ε → List ε → Prop}

theorem justified_at {history later earlier : List ε} {e : ε} (justified : Justified P history)
    (split : history = later ++ e :: earlier) : P e earlier := by
  induction later generalizing history with
  | nil =>
    subst split
    exact justified.1
  | cons newest later ih =>
    subst split
    exact ih justified.2 rfl

theorem justified_member {history : List ε} {e : ε} (justified : Justified P history) (member : e ∈ history) :
    ∃ later earlier, history = later ++ e :: earlier ∧ P e earlier := by
  obtain ⟨later, earlier, split⟩ := List.append_of_mem member
  exact ⟨later, earlier, split, justified_at justified split⟩

end Concurrency
