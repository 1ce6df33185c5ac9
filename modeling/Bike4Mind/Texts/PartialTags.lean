import Bike4Mind.Texts.Regex

/-! What of the end of a text may still become a tag. -/

namespace Texts

section Tag
variable {α : Type} [DecidableEq α] {tag text rest : List α}

/-- The loop of `partialTagLength`, from `length` down. -/
def partialTagFrom (tag text : List α) : (length : Nat) → Nat
  | 0 => 0
  | length + 1 => if tag.take (length + 1) <:+ text then length + 1 else partialTagFrom tag text length

/-- The length of the longest suffix of `text` that is a proper prefix of `tag`. -/
def partialTagLength (tag text : List α) : Nat := partialTagFrom tag text (min (tag.length - 1) text.length)

theorem partialTagFrom_longest {longer length : Nat} (fits : longer ≤ length) (ends : tag.take longer <:+ text) :
    longer ≤ partialTagFrom tag text length := by
  induction length with
  | zero => exact fits
  | succ length ih =>
    unfold partialTagFrom
    split
    · exact fits
    · rename_i apart
      apply ih
      have other : longer ≠ length + 1 := by
        rintro rfl
        exact apart ends
      omega

/-- What is not held back of a text without the tag has no start of the tag, whatever comes next. -/
theorem no_tag_starts (absent : ¬tag <:+: text) (rest : List α) {i : Nat} (early : i < text.length - partialTagLength tag text) :
    ¬tag <+: (text ++ rest).drop i := by
  intro starts
  rw [List.drop_append_of_le_length (by omega)] at starts
  have inside : i ≤ text.length := by omega
  by_cases fits : tag.length ≤ (text.drop i).length
  · exact absent ((List.prefix_of_prefix_length_le starts (List.prefix_append ..) fits).isInfix.trans (List.drop_suffix i text).isInfix)
  · have shorter : (text.drop i).length < tag.length := by omega
    have front : text.drop i <+: tag := List.prefix_of_prefix_length_le (List.prefix_append ..) starts (by omega)
    have ends : tag.take (text.drop i).length <:+ text := by
      rw [← List.prefix_iff_eq_take.mp front]
      exact List.drop_suffix i text
    have fits' : (text.drop i).length ≤ min (tag.length - 1) text.length := by
      rw [List.length_drop] at shorter ⊢
      omega
    have held := partialTagFrom_longest fits' ends
    unfold partialTagLength at early
    rw [List.length_drop] at held
    omega

end Tag

section IndexOf
variable {α : Type} [DecidableEq α] {tag text rest : List α} {found k : Nat}

theorem indexOf_none (some : tag ≠ []) : indexOf tag text 0 = none ↔ ¬tag <:+: text := by
  rw [indexOf_eq_none some]
  constructor
  · rintro absent ⟨before, after, same⟩
    apply absent before.length (Nat.zero_le _)
    rw [← same, List.append_assoc, List.drop_left]
    exact List.prefix_append ..
  · intro absent i _ starts
    exact absent (starts.isInfix.trans (List.drop_suffix i text).isInfix)

theorem indexOf_append (seek : indexOf tag text 0 = some found) (rest : List α) : indexOf tag (text ++ rest) 0 = some found := by
  obtain ⟨_, inside, starts, least⟩ := (indexOf_eq_some (Nat.zero_le _)).mp seek
  have fits := (indexOf_bounds (Nat.zero_le _) seek).2
  refine (indexOf_eq_some (Nat.zero_le _)).mpr ⟨Nat.zero_le _, by rw [List.length_append]; omega, ?_, fun earlier after before => ?_⟩
  · rw [List.drop_append_of_le_length inside]
    exact starts.trans (List.prefix_append ..)
  · intro starts'
    rw [List.drop_append_of_le_length (by omega)] at starts'
    apply least earlier after before
    apply List.prefix_of_prefix_length_le starts' (List.prefix_append ..)
    rw [List.length_drop]
    omega

theorem indexOf_skip (some : tag ≠ []) (within : k ≤ text.length) (free : ∀ i < k, ¬tag <+: text.drop i) :
    indexOf tag text 0 = (indexOf tag (text.drop k) 0).map (k + ·) := by
  rw [← indexOf_drop text k]
  cases later : indexOf tag text k with
  | none =>
    have absent := (indexOf_eq_none some).mp later
    refine (indexOf_eq_none some).mpr fun i _ => ?_
    by_cases early : i < k
    · exact free i early
    · exact absent i (by omega)
  | some found =>
    obtain ⟨after, inside, starts, least⟩ := (indexOf_eq_some within).mp later
    refine (indexOf_eq_some (Nat.zero_le _)).mpr ⟨Nat.zero_le _, inside, starts, fun earlier _ before => ?_⟩
    by_cases early : earlier < k
    · exact free earlier early
    · exact least earlier (by omega) before

/-- A search in a text without the tag, once more has come. -/
theorem indexOf_held (some : tag ≠ []) (absent : ¬tag <:+: text) (rest : List α) :
    indexOf tag (text ++ rest) 0 = (indexOf tag (text.drop (text.length - partialTagLength tag text) ++ rest) 0).map
      (text.length - partialTagLength tag text + ·) := by
  rw [← List.drop_append_of_le_length (Nat.sub_le _ _)]
  apply indexOf_skip some
  · rw [List.length_append]
    omega
  · exact fun i early => no_tag_starts absent rest early

end IndexOf

end Texts
