import Bike4Mind.Texts.Regex

/-! What patterns can take, whichever way they try first. -/

namespace Texts.Regex
variable {α : Type} {regex first second body : Regex α} {taken rest text : List α} {c : α} {accepts : α → Bool} {greedy : Bool}

/-- A way to take `taken`, with `rest` behind it. -/
def Takes (regex : Regex α) (taken rest : List α) : Prop := ∃ captures, ⟨taken, rest, captures⟩ ∈ regex.runs (taken ++ rest)

/-- `new RegExp('^' + source + '$', 's').test(text)` -/
def test (regex : Regex α) (text : List α) : Bool := (regex.runs text).any (·.rest.isEmpty)

theorem test_iff : regex.test text = true ↔ regex.Takes text [] := by
  unfold test Takes
  rw [List.any_eq_true]
  constructor
  · rintro ⟨⟨whole, rest, captures⟩, member, ends⟩
    obtain rfl := List.isEmpty_iff.mp ends
    have cut := runs_cut regex text _ member
    simp only [List.append_nil] at cut
    exact ⟨captures, by rw [List.append_nil, ← cut]; exact cut ▸ member⟩
  · rintro ⟨captures, member⟩
    rw [List.append_nil] at member
    exact ⟨_, member, rfl⟩

theorem takes_of_run {run : Run α} (member : run ∈ regex.runs text) : regex.Takes run.whole run.rest := by
  have cut := runs_cut regex text _ member
  exact ⟨run.captures, cut.symm ▸ member⟩

theorem takes_empty : (empty : Regex α).Takes taken rest ↔ taken = [] := by
  unfold Takes runs Run.still
  simp

theorem takes_unit : (unit accepts).Takes taken rest ↔ ∃ c, taken = [c] ∧ accepts c = true := by
  unfold Takes
  constructor
  · rintro ⟨captures, member⟩
    cases split : taken ++ rest with
    | nil =>
      rw [split] at member
      cases member
    | cons c more =>
      rw [split, runs] at member
      by_cases fits : accepts c = true
      · rw [if_pos fits] at member
        cases List.mem_singleton.mp member
        exact ⟨c, rfl, fits⟩
      · rw [if_neg fits] at member
        cases member
  · rintro ⟨c, rfl, fits⟩
    refine ⟨[], ?_⟩
    show _ ∈ runs (unit accepts) (c :: rest)
    rw [runs, if_pos fits]
    exact List.mem_singleton_self _

theorem takes_only [DecidableEq α] : (only c).Takes taken rest ↔ taken = [c] := by
  unfold only
  rw [takes_unit]
  simp

theorem takes_seq : (seq first second).Takes taken rest ↔
    ∃ front back, taken = front ++ back ∧ first.Takes front (back ++ rest) ∧ second.Takes back rest := by
  constructor
  · rintro ⟨captures, member⟩
    obtain ⟨run, early, later⟩ := List.mem_flatMap.mp member
    obtain ⟨next, late, same⟩ := List.mem_map.mp later
    have cut := runs_cut second _ next late
    simp only [Run.followedBy, Run.mk.injEq] at same
    obtain ⟨whole, last, _⟩ := same
    refine ⟨run.whole, next.whole, whole.symm, ?_, ?_⟩
    · have here := takes_of_run early
      rwa [← cut, last] at here
    · rw [← last]
      exact takes_of_run late
  · rintro ⟨front, back, rfl, ⟨captures, early⟩, ⟨captures', late⟩⟩
    refine ⟨captures ++ captures', List.mem_flatMap.mpr ⟨⟨front, back ++ rest, captures⟩, ?_, List.mem_map.mpr ⟨⟨back, rest, captures'⟩, late, rfl⟩⟩⟩
    rw [List.append_assoc]
    exact early

theorem takes_alt : (alt first second).Takes taken rest ↔ first.Takes taken rest ∨ second.Takes taken rest := by
  unfold Takes
  rw [← exists_or]
  refine exists_congr fun captures => ?_
  rw [runs, List.mem_append]

theorem takes_group : (group body).Takes taken rest ↔ body.Takes taken rest := by
  unfold Takes
  constructor
  · rintro ⟨captures, member⟩
    obtain ⟨⟨whole, last, inner⟩, early, same⟩ := List.mem_map.mp member
    simp only [Run.captured, Run.mk.injEq] at same
    obtain ⟨rfl, rfl, _⟩ := same
    exact ⟨inner, early⟩
  · rintro ⟨captures, member⟩
    exact ⟨taken :: captures, List.mem_map.mpr ⟨_, member, rfl⟩⟩

theorem takes_optional : (optional body).Takes taken rest ↔ body.Takes taken rest ∨ taken = [] := by
  unfold optional
  rw [takes_alt, takes_empty]

theorem mem_star {run : Run α} : run ∈ (star greedy body).runs text ↔ run = .still text ∨
    ∃ early ∈ body.runs text, early.whole ≠ [] ∧ ∃ later ∈ (star greedy body).runs early.rest, run = early.followedBy later := by
  have unfolded : (star greedy body).runs text = rounds greedy body.runs (text.length + 1) text := rounds_enough (runs_cut body) le_rfl (Nat.le_succ _)
  have more : (run ∈ ((body.runs text).filter (! ·.whole.isEmpty)).flatMap fun early => (rounds greedy body.runs text.length early.rest).map early.followedBy) ↔
      ∃ early ∈ body.runs text, early.whole ≠ [] ∧ ∃ later ∈ (star greedy body).runs early.rest, run = early.followedBy later := by
    simp only [List.mem_flatMap, List.mem_filter, List.mem_map]
    constructor
    · rintro ⟨early, ⟨tried, moved⟩, later, late, rfl⟩
      have shorter := round_shorter (runs_cut body) (List.mem_filter.mpr ⟨tried, moved⟩)
      rw [rounds_enough (runs_cut body) shorter.le le_rfl] at late
      exact ⟨early, tried, by simpa using moved, later, late, rfl⟩
    · rintro ⟨early, tried, moved, later, late, rfl⟩
      have moved : (! early.whole.isEmpty) = true := by simpa using moved
      have shorter := round_shorter (runs_cut body) (List.mem_filter.mpr ⟨tried, moved⟩)
      refine ⟨early, ⟨tried, moved⟩, later, ?_, rfl⟩
      rw [rounds_enough (runs_cut body) shorter.le le_rfl]
      exact late
  rw [unfolded, rounds]
  cases greedy with
  | true =>
    rw [if_pos rfl, List.mem_append, more, List.mem_singleton]
    exact or_comm
  | false =>
    rw [if_neg Bool.false_ne_true, List.mem_cons, more]

theorem takes_star : (star greedy body).Takes taken rest ↔ taken = [] ∨
    ∃ front back, taken = front ++ back ∧ front ≠ [] ∧ body.Takes front (back ++ rest) ∧ (star greedy body).Takes back rest := by
  constructor
  · rintro ⟨captures, member⟩
    rcases mem_star.mp member with same | ⟨early, tried, moved, later, late, same⟩
    · simp only [Run.still, Run.mk.injEq] at same
      exact .inl same.1
    · have cut := runs_cut (star greedy body) _ later late
      simp only [Run.followedBy, Run.mk.injEq] at same
      obtain ⟨whole, last, _⟩ := same
      refine .inr ⟨early.whole, later.whole, whole, moved, ?_, ?_⟩
      · have here := takes_of_run tried
        rwa [← cut, ← last] at here
      · rw [last]
        exact takes_of_run late
  · rintro (rfl | ⟨front, back, rfl, moved, ⟨captures, early⟩, ⟨captures', late⟩⟩)
    · exact ⟨[], mem_star.mpr (.inl rfl)⟩
    · refine ⟨captures ++ captures', mem_star.mpr (.inr ⟨⟨front, back ++ rest, captures⟩, ?_, moved, ⟨back, rest, captures'⟩, late, rfl⟩)⟩
      rw [List.append_assoc]
      exact early

theorem takes_rest {rest' : List α} (takes : regex.Takes taken rest) : regex.Takes taken rest' := by
  induction regex generalizing taken rest rest' with
  | empty => exact takes_empty.mpr (takes_empty.mp takes)
  | unit accepts => exact takes_unit.mpr (takes_unit.mp takes)
  | seq first second ih ih' =>
    obtain ⟨front, back, same, early, late⟩ := takes_seq.mp takes
    exact takes_seq.mpr ⟨front, back, same, ih early, ih' late⟩
  | alt first second ih ih' => exact takes_alt.mpr ((takes_alt.mp takes).imp ih ih')
  | group body ih => exact takes_group.mpr (ih (takes_group.mp takes))
  | star greedy body ih =>
    generalize count : taken.length = n
    induction n using Nat.strong_induction_on generalizing taken with
    | _ n shorter =>
      rcases takes_star.mp takes with none | ⟨front, back, same, moved, early, late⟩
      · exact takes_star.mpr (.inl none)
      · have less : back.length < n := by
          have some := List.length_pos_iff.mpr moved
          rw [← count, same, List.length_append]
          omega
        exact takes_star.mpr (.inr ⟨front, back, same, moved, ih early, shorter back.length less late rfl⟩)

theorem takes_star_unit : (star greedy (unit accepts)).Takes taken rest ↔ ∀ c ∈ taken, accepts c = true := by
  constructor
  · rintro ⟨captures, member⟩
    generalize whole : taken ++ rest = text at member
    induction text generalizing taken captures with
    | nil =>
      rw [(List.append_eq_nil_iff.mp whole).1]
      exact fun _ none => (by cases none)
    | cons c text ih =>
      rcases mem_star.mp member with same | ⟨early, tried, moved, later, late, same⟩
      · simp only [Run.still, Run.mk.injEq] at same
        rw [same.1]
        exact fun _ none => (by cases none)
      · rw [runs] at tried
        by_cases fits : accepts c = true
        · rw [if_pos fits] at tried
          cases List.mem_singleton.mp tried
          simp only [Run.followedBy, Run.mk.injEq] at same
          obtain ⟨rfl, rfl, _⟩ := same
          rw [List.cons_append, List.nil_append, List.cons_append, List.cons.injEq] at whole
          intro d inside
          rcases List.mem_cons.mp inside with rfl | inside
          · exact fits
          · exact ih later.captures whole.2 late d inside
        · rw [if_neg fits] at tried
          cases tried
  · intro all
    induction taken with
    | nil => exact ⟨[], mem_star.mpr (.inl rfl)⟩
    | cons c taken ih =>
      obtain ⟨captures, late⟩ := ih fun d inside => all d (List.mem_cons_of_mem c inside)
      have fits := all c List.mem_cons_self
      refine ⟨captures, mem_star.mpr (.inr ⟨⟨[c], taken ++ rest, []⟩, ?_, List.cons_ne_nil c [], ⟨taken, rest, captures⟩, late, rfl⟩)⟩
      show _ ∈ runs (unit accepts) (c :: (taken ++ rest))
      rw [runs, if_pos fits]
      exact List.mem_singleton_self _

end Texts.Regex
