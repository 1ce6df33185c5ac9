import Bike4Mind.Texts.CodeUnits

/-! The text runs of a slide: the linear scan over the markup, and the pattern that it replaced. -/

namespace Bike4Mind.FileChunks

open Texts

def GREATER_THAN : CodeUnit := 0x3e

def RUN_OPEN : Text := ascii "<a:t"

def CLOSE : Text := ascii "</a:t>"

/-- `/<a:t(?:\s[^>]*)?>/g` -/
def RUN_OPEN_TAG_RE : Regex CodeUnit :=
  .seq (.literal RUN_OPEN)
    (.seq (.optional (.seq (.unit isSpace) (.star true (.except GREATER_THAN)))) (.only GREATER_THAN))

def withoutOpenTags (body : Text) : Text := RUN_OPEN_TAG_RE.replace body fun _ => []

/-- The loop of `extractSlideRunTexts`. -/
def extractFrom (xml : Text) (cursor : Nat) : List Text :=
  if inside : cursor < xml.length then
    match found : indexOf RUN_OPEN xml cursor with
    | none => []
    | some start =>
      if past : start + 4 ≥ xml.length then []
      else
        let afterName := xml[start + 4]
        if afterName ≠ GREATER_THAN ∧ isSpace afterName = false then extractFrom xml (start + 4)
        else
          match foundEnd : indexOf [GREATER_THAN] xml (start + 4) with
          | none => []
          | some openEnd =>
            match foundClose : indexOf CLOSE xml (openEnd + 1) with
            | none => []
            | some close => withoutOpenTags (slice xml (openEnd + 1) close) :: extractFrom xml (close + CLOSE.length)
  else []
termination_by xml.length - cursor
decreasing_by
  · have after := indexOf_bounds inside.le found
    omega
  · have after := indexOf_bounds inside.le found
    have afterEnd := indexOf_bounds (by omega) foundEnd
    have afterClose := indexOf_bounds (by rw [List.length_singleton] at afterEnd; omega) foundClose
    omega

def extractSlideRunTexts (xml : Text) : List Text := extractFrom xml 0

/-- `/<a:t(?:\s[^>]*)?>([\s\S]*?)<\/a:t>/g` -/
def RUN_RE : Regex CodeUnit :=
  .seq RUN_OPEN_TAG_RE (.seq (.group (.star false (.unit fun _ => true))) (.literal CLOSE))

/-! ### What the pattern matches -/

section Matches
variable {β : Type} {next : Run CodeUnit → Option β} {text xml : Text}

/-- Whether a run's name ends here. -/
def endsName (c : CodeUnit) : Bool := decide (c = GREATER_THAN) || isSpace c

theorem find_nameEnd : (Regex.seq (.optional (.seq (.unit isSpace) (.star true (.except GREATER_THAN)))) (.only GREATER_THAN)).find
    next text =
      if text.head?.any endsName then
        (indexOf [GREATER_THAN] text 0).bind fun i => next ⟨text.take (i + 1), text.drop (i + 1), []⟩
      else none := by
  have closing : isSpace GREATER_THAN = false := by decide
  unfold Regex.optional
  rw [Regex.find_seq, Regex.find_alt, Regex.find_seq, Regex.find_empty]
  cases text with
  | nil => simp [Regex.find_unit_nil, Regex.only, Run.still]
  | cons c rest =>
    rw [Regex.find_unit_cons, List.head?_cons, Option.any_some, endsName, indexOf_unit]
    by_cases close : c = GREATER_THAN
    · subst close
      rw [closing, if_neg Bool.false_ne_true, Option.none_or, if_pos rfl]
      simp only [decide_true, Bool.true_or, ↓reduceIte, Option.bind_some]
      rw [Regex.only, Run.still, Regex.find_unit_cons, if_pos (decide_eq_true rfl)]
      rfl
    · have still : (Regex.only GREATER_THAN).find (next ∘ (Run.still (c :: rest)).followedBy) (c :: rest) = none := by
        rw [Regex.only, Regex.find_unit_cons, if_neg (by simpa using close)]
      rw [show (Run.still (c :: rest)).rest = c :: rest from rfl, still, Option.or_none, if_neg close, decide_eq_false close,
        Bool.false_or]
      by_cases space : isSpace c = true
      · rw [if_pos space, if_pos space, Option.bind_map]
        have through := @Regex.find_through _ rest _ _ (next ∘ (⟨[c], rest, []⟩ : Run CodeUnit).followedBy) GREATER_THAN
        rw [Regex.find_seq] at through
        simp only [Function.comp_def, Run.followedBy_assoc] at through ⊢
        refine Eq.trans through ?_
        congr 1
      · rw [if_neg space, if_neg space]

/-- An open tag at the front of a text runs to the first `>` after its name. -/
theorem find_openTag : RUN_OPEN_TAG_RE.find next text =
    if RUN_OPEN <+: text ∧ (text.drop RUN_OPEN.length).head?.any endsName then
      (indexOf [GREATER_THAN] (text.drop RUN_OPEN.length) 0).bind fun i =>
        next ⟨text.take (RUN_OPEN.length + (i + 1)), text.drop (RUN_OPEN.length + (i + 1)), []⟩
    else none := by
  unfold RUN_OPEN_TAG_RE
  rw [Regex.find_seq, Regex.find_literal]
  by_cases starts : RUN_OPEN <+: text
  · obtain ⟨rest, same⟩ := starts
    subst same
    rw [if_pos (List.prefix_append _ _), find_nameEnd, List.drop_left]
    simp only [List.prefix_append, true_and]
    by_cases ends : rest.head?.any endsName = true
    · rw [if_pos ends, if_pos ends]
      congr 1
      funext i
      simp only [Function.comp_apply, Run.followedBy, List.take_length_add_append, List.drop_length_add_append, List.append_nil]
    · rw [if_neg ends, if_neg ends]
  · rw [if_neg starts, if_neg fun both => starts both.1]

theorem run_first : RUN_RE.first text =
    if RUN_OPEN <+: text ∧ (text.drop RUN_OPEN.length).head?.any endsName then
      (indexOf [GREATER_THAN] (text.drop RUN_OPEN.length) 0).bind fun i =>
        (indexOf CLOSE (text.drop (RUN_OPEN.length + (i + 1))) 0).map fun j =>
          ⟨text.take (RUN_OPEN.length + (i + 1) + (j + CLOSE.length)), text.drop (RUN_OPEN.length + (i + 1) + (j + CLOSE.length)),
            [(text.drop (RUN_OPEN.length + (i + 1))).take j]⟩
    else none := by
  unfold RUN_RE
  rw [Regex.first_eq_find, Regex.find_seq, find_openTag]
  by_cases opens : RUN_OPEN <+: text ∧ (text.drop RUN_OPEN.length).head?.any endsName = true
  · rw [if_pos opens, if_pos opens]
    congr 1
    funext i
    have body := @Regex.find_body _ _ (text.drop (RUN_OPEN.length + (i + 1))) _ _ CLOSE.length
      (⟨text.take (RUN_OPEN.length + (i + 1)), text.drop (RUN_OPEN.length + (i + 1)), []⟩ : Run CodeUnit).followedBy
      (Regex.find_literal_take CLOSE)
    refine Eq.trans body ?_
    congr 1
    funext j
    simp only [Run.followedBy, List.drop_drop, ← List.take_add, List.nil_append]
  · rw [if_neg opens, if_neg opens]

theorem run_at (xml : Text) (start : Nat) : RUN_RE.first (xml.drop start) =
    if RUN_OPEN <+: xml.drop start ∧ (xml.drop (start + 4)).head?.any endsName then
      (indexOf [GREATER_THAN] xml (start + 4)).bind fun openEnd =>
        (indexOf CLOSE xml (openEnd + 1)).map fun close =>
          ⟨slice xml start (close + CLOSE.length), xml.drop (close + CLOSE.length), [slice xml (openEnd + 1) close]⟩
    else none := by
  have size : RUN_OPEN.length = 4 := by decide
  rw [run_first, size, List.drop_drop]
  by_cases opens : RUN_OPEN <+: xml.drop start ∧ (xml.drop (start + 4)).head?.any endsName = true
  · rw [if_pos opens, if_pos opens, indexOf_drop xml (start + 4), Option.bind_map]
    congr 1
    funext i
    simp only [Function.comp_apply, List.drop_drop]
    rw [indexOf_drop xml (start + 4 + i + 1), Option.map_map]
    have joined : start + (4 + (i + 1)) = start + 4 + i + 1 := by omega
    rw [joined]
    congr 1
    funext j
    simp only [Function.comp_apply, slice]
    have ends : start + (4 + (i + 1) + (j + CLOSE.length)) = start + 4 + i + 1 + j + CLOSE.length := by omega
    have taken : 4 + (i + 1) + (j + CLOSE.length) = start + 4 + i + 1 + j + CLOSE.length - start := by omega
    have body : start + 4 + i + 1 + j - (start + 4 + i + 1) = j := by omega
    rw [ends, taken, body]
  · rw [if_neg opens, if_neg opens]

theorem run_reaches {start : Nat} {run : Run CodeUnit} (taken : RUN_RE.first (xml.drop start) = some run) :
    RUN_OPEN <+: xml.drop start ∧ ∃ openEnd close, start + 4 ≤ openEnd ∧ [GREATER_THAN] <+: xml.drop openEnd ∧
      openEnd + 1 ≤ close ∧ CLOSE <+: xml.drop close := by
  rw [run_at] at taken
  by_cases opens : RUN_OPEN <+: xml.drop start ∧ (xml.drop (start + 4)).head?.any endsName = true
  · rw [if_pos opens] at taken
    obtain ⟨openEnd, foundEnd, closed⟩ := Option.bind_eq_some_iff.mp taken
    obtain ⟨close, foundClose, _⟩ := Option.map_eq_some_iff.mp closed
    have inside : start + 4 ≤ xml.length := by
      have fits := opens.1.length_le
      rw [List.length_drop, show RUN_OPEN.length = 4 by decide] at fits
      omega
    obtain ⟨after, _, ends, _⟩ := (indexOf_eq_some inside).mp foundEnd
    have afterEnd := indexOf_bounds inside foundEnd
    rw [List.length_singleton] at afterEnd
    obtain ⟨afterClose, _, closes, _⟩ := (indexOf_eq_some (by omega)).mp foundClose
    exact ⟨opens.1, openEnd, close, after, ends, afterClose, closes⟩
  · rw [if_neg opens] at taken
    cases taken

theorem no_run_inside {start i : Nat} (opens : RUN_OPEN <+: xml.drop start) (after : start < i) (before : i < start + 4) :
    ¬RUN_OPEN <+: xml.drop i := by
  obtain ⟨rest, same⟩ := opens
  have here : xml.drop i = (RUN_OPEN ++ rest).drop (i - start) := by
    rw [same, List.drop_drop, Nat.add_sub_cancel' after.le]
  rw [here]
  have units : RUN_OPEN = [0x3c, 0x61, 0x3a, 0x74] := by decide
  have offset : i - start = 1 ∨ i - start = 2 ∨ i - start = 3 := by omega
  rw [units]
  rcases offset with one | two | three
  · rw [one]
    exact fun starts => absurd (List.cons_prefix_cons.mp starts).1 (by decide)
  · rw [two]
    exact fun starts => absurd (List.cons_prefix_cons.mp starts).1 (by decide)
  · rw [three]
    exact fun starts => absurd (List.cons_prefix_cons.mp starts).1 (by decide)

variable {cursor start i : Nat} {run : Run CodeUnit}

theorem run_after (inside : cursor ≤ xml.length) (found : indexOf RUN_OPEN xml cursor = some start) (after : cursor ≤ i)
    (taken : RUN_RE.first (xml.drop i) = some run) : start ≤ i := by
  by_contra before
  exact ((indexOf_eq_some inside).mp found).2.2.2 i after (not_le.mp before) (run_reaches taken).1

theorem run_found {openEnd close : Nat} (opens : RUN_OPEN <+: xml.drop start) (inside : start + 4 < xml.length)
    (ends : endsName xml[start + 4] = true) (foundEnd : indexOf [GREATER_THAN] xml (start + 4) = some openEnd)
    (foundClose : indexOf CLOSE xml (openEnd + 1) = some close) : RUN_RE.first (xml.drop start) =
      some ⟨slice xml start (close + CLOSE.length), xml.drop (close + CLOSE.length), [slice xml (openEnd + 1) close]⟩ := by
  have named : (xml.drop (start + 4)).head?.any endsName = true := by
    rw [List.drop_eq_getElem_cons inside]
    exact ends
  rw [run_at, if_pos ⟨opens, named⟩, foundEnd, Option.bind_some, foundClose]
  rfl

end Matches

def runText (hit : Match CodeUnit) : Text := withoutOpenTags (hit.captures.headD [])

theorem extractFrom_eq (xml : Text) (cursor : Nat) : extractFrom xml cursor = (RUN_RE.hitsFrom xml cursor).map runText := by
  have nothing {cursor : Nat} (fails : ∀ i run, cursor ≤ i → RUN_RE.first (xml.drop i) ≠ some run) :
      [] = (RUN_RE.hitsFrom xml cursor).map runText := by
    rw [Regex.hitsFrom_none fun i after => Option.eq_none_iff_forall_ne_some.mpr fun run => fails i run after]
    rfl
  fun_induction extractFrom xml cursor with
  | case1 cursor inside absent =>
    refine nothing fun i run after taken => ?_
    have apart := (indexOf_eq_none (by decide)).mp absent i after
    exact apart (run_reaches taken).1
  | case2 cursor inside start found past =>
    refine nothing fun i run after taken => ?_
    have later := run_after inside.le found after taken
    obtain ⟨_, openEnd, _, past', ends, _⟩ := run_reaches taken
    rw [List.drop_eq_nil_of_le (by omega)] at ends
    exact absurd (List.prefix_nil.mp ends) (List.cons_ne_nil _ _)
  | case3 cursor inside start found past afterName other ih =>
    obtain ⟨ahead, _, opens, least⟩ := (indexOf_eq_some inside.le).mp found
    have fails : ∀ i, cursor ≤ i → i < start + 4 → RUN_RE.first (xml.drop i) = none := by
      intro i after before
      rw [run_at, if_neg]
      rintro ⟨opensHere, ends⟩
      rcases Nat.lt_trichotomy i start with earlier | same | later
      · exact least i after earlier opensHere
      · subst same
        rw [List.drop_eq_getElem_cons (by omega), List.head?_cons, Option.any_some, endsName, Bool.or_eq_true, decide_eq_true_eq] at ends
        rcases ends with close | space
        · exact other.1 close
        · exact Bool.noConfusion (space.symm.trans other.2)
      · exact no_run_inside opens later before opensHere
    rw [ih, Regex.hitsFrom_skip (by omega) (by omega) fails]
  | case4 cursor inside start found past afterName ends absent =>
    refine nothing fun i run after taken => ?_
    have later := run_after inside.le found after taken
    obtain ⟨_, openEnd, _, past', ends', _⟩ := run_reaches taken
    exact (indexOf_eq_none (List.cons_ne_nil _ _)).mp absent openEnd (by omega) ends'
  | case5 cursor inside start found past afterName ends openEnd foundEnd absent =>
    refine nothing fun i run after taken => ?_
    have later := run_after inside.le found after taken
    obtain ⟨_, openEnd', close, past', ends', pastEnd, closes⟩ := run_reaches taken
    have least : openEnd ≤ openEnd' := by
      by_contra before
      exact ((indexOf_eq_some (by omega)).mp foundEnd).2.2.2 openEnd' (by omega) (not_le.mp before) ends'
    exact (indexOf_eq_none (by decide)).mp absent close (by omega) closes
  | case6 cursor inside start found past afterName ends openEnd foundEnd close foundClose ih =>
    obtain ⟨ahead, _, opens, least⟩ := (indexOf_eq_some inside.le).mp found
    have named : endsName xml[start + 4] = true := by
      unfold endsName
      by_cases same : xml[start + 4] = GREATER_THAN
      · rw [decide_eq_true same, Bool.true_or]
      · have space : isSpace xml[start + 4] = true := by
          by_contra other
          exact ends ⟨same, Bool.eq_false_iff.mpr other⟩
        rw [space, Bool.or_true]
    have fails : ∀ i, cursor ≤ i → i < start → RUN_RE.first (xml.drop i) = none := by
      intro i after before
      rw [run_at, if_neg fun both => least i after before both.1]
    have afterEnd := indexOf_bounds (by omega) foundEnd
    rw [List.length_singleton] at afterEnd
    have afterClose := indexOf_bounds (by omega) foundClose
    have size : (slice xml start (close + CLOSE.length)).length = close + CLOSE.length - start := by
      unfold slice
      rw [List.length_take, List.length_drop]
      omega
    have some : slice xml start (close + CLOSE.length) ≠ [] := by
      rw [← List.length_pos_iff, size]
      omega
    rw [ih, Regex.hitsFrom_skip ahead (by omega) fails,
      Regex.hitsFrom_found (run_found opens (by omega) named foundEnd foundClose) some, List.map_cons]
    dsimp only
    rw [size, Nat.add_sub_cancel' (by omega)]
    rfl
  | case7 cursor outside =>
    refine nothing fun i run after taken => ?_
    obtain ⟨opens, _⟩ := run_reaches taken
    rw [List.drop_eq_nil_of_le (by omega)] at opens
    exact absurd (List.prefix_nil.mp opens) (by decide)

theorem extractSlideRunTexts_eq (xml : Text) : extractSlideRunTexts xml = (RUN_RE.matchAll xml).map runText :=
  extractFrom_eq xml 0

end Bike4Mind.FileChunks
