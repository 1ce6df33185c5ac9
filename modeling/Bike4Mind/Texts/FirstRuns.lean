import Bike4Mind.Texts.Accepting

/-! The run that a pattern tries first, piece by piece. -/

namespace Texts.Regex
variable {α : Type} {regex left right body : Regex α} {text front rest : List α} {run next : Run α} {accepts : α → Bool}

theorem first_seq (here : left.first text = some run) (there : right.first run.rest = some next) :
    (seq left right).first text = some (run.followedBy next) := by
  obtain ⟨more, runs⟩ := List.head?_eq_some_iff.mp here
  obtain ⟨others, later⟩ := List.head?_eq_some_iff.mp there
  have all : (seq left right).runs text =
      run.followedBy next :: (others.map run.followedBy ++ more.flatMap fun run => (right.runs run.rest).map run.followedBy) := by
    show (left.runs text).flatMap _ = _
    rw [runs, List.flatMap_cons, later]
    rfl
  unfold first
  rw [all]
  rfl

theorem first_group (here : body.first text = some run) : (group body).first text = some run.captured := by
  show ((body.runs text).map Run.captured).head? = _
  rw [List.head?_map]
  exact congrArg (Option.map Run.captured) here

theorem first_optional (here : body.first text = some run) : (optional body).first text = some run := by
  show (body.runs text ++ _).head? = _
  rw [List.head?_append]
  exact congrArg (Option.or · _) here

theorem first_optional_none (fails : body.first text = none) : (optional body).first text = some (.still text) := by
  show (body.runs text ++ _).head? = _
  rw [List.head?_append]
  exact congrArg (Option.or · _) fails

theorem first_unit (c : α) (fits : accepts c = true) : (unit accepts).first (c :: rest) = some ⟨[c], rest, []⟩ := by
  show (if accepts c then _ else _ : List (Run α)).head? = _
  rw [if_pos fits]
  rfl

theorem first_star_unit (all : ∀ c ∈ front, accepts c = true) (stops : ∀ c ∈ rest.head?, accepts c = false) :
    (star true (unit accepts)).first (front ++ rest) = some ⟨front, rest, []⟩ := by
  have last : rest.takeWhile accepts = [] ∧ rest.dropWhile accepts = rest := by
    cases rest with
    | nil => exact ⟨rfl, rfl⟩
    | cons c more =>
      have fails := Bool.eq_false_iff.mp (stops c rfl)
      exact ⟨List.takeWhile_cons_of_neg fails, List.dropWhile_cons_of_neg fails⟩
  have taken : (front ++ rest).takeWhile accepts = front := by
    rw [List.takeWhile_append_of_pos all, last.1, List.append_nil]
  have left : (front ++ rest).dropWhile accepts = rest := by
    rw [List.dropWhile_append_of_pos all, last.2]
  rw [first_eq_find, find_longest (fun stuck => by cases stuck), taken, left]

theorem first_plus_unit (full : front ≠ []) (all : ∀ c ∈ front, accepts c = true) (stops : ∀ c ∈ rest.head?, accepts c = false) :
    (plus (unit accepts)).first (front ++ rest) = some ⟨front, rest, []⟩ := by
  obtain ⟨c, more, rfl⟩ := List.exists_cons_of_ne_nil full
  exact first_seq (first_unit c (all c List.mem_cons_self))
    (first_star_unit (fun d member => all d (List.mem_cons_of_mem _ member)) stops)

theorem first_literal_append [DecidableEq α] {wanted : List α} : (literal wanted).first (wanted ++ rest) = some ⟨wanted, rest, []⟩ := by
  rw [first_literal, if_pos (List.prefix_append wanted rest), List.drop_left]

end Texts.Regex
