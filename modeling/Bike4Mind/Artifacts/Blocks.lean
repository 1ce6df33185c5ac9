import Bike4Mind.Artifacts.OpenTag
import Mathlib.Data.List.GetD

/-! Artifact blocks, found by the linear scan and by the pattern that it replaced. -/

namespace Bike4Mind.Artifacts

open Texts

structure ArtifactBlockMatch where
  index : Nat
  fullMatch : Text
  attrs : Text
  body : Text
  deriving DecidableEq

def CLOSER : Text := ascii "</artifact>"

def CLOSER_LENGTH : Nat := CLOSER.length

/-- `/<\/artifact>/gi` -/
def closer : Regex CodeUnit := .sequence (ignoringCase CLOSER)

/-- The binary search of `firstAtOrAfter`. -/
def lowerBound (sorted : List Nat) (min lo hi : Nat) : Nat :=
  if lo < hi then
    let mid := (lo + hi) / 2
    if sorted.getD mid 0 < min then lowerBound sorted min (mid + 1) hi else lowerBound sorted min lo mid
  else lo
termination_by hi - lo

def firstAtOrAfter (sorted : List Nat) (min : Nat) : Option Nat := sorted[lowerBound sorted min 0 sorted.length]?

/-- The loop of `matchArtifactBlocks`, from `lastIndex` on. -/
def blocksFrom (content : Text) (closers : List Nat) (descendInto : Option (ArtifactBlockMatch → Bool)) :
    (fuel : Nat) → (memo : ArtifactTagMemo) → (lastIndex : Nat) → List ArtifactBlockMatch
  | 0, _, _ => []
  | fuel + 1, memo, lastIndex =>
    match opener.exec content lastIndex with
    | none => []
    | some hit =>
      let (tag, scanned) := scanArtifactOpenTag content hit.index .run (some memo)
      let memo := scanned.getD memo
      match tag, tag.bind fun tag => firstAtOrAfter closers tag.finish with
      | some tag, some close =>
        let finish := close + CLOSER_LENGTH
        let block := ⟨hit.index, slice content hit.index finish, tag.attrs, slice content tag.finish close⟩
        let descends := descendInto.any fun accepts => accepts block
        block :: blocksFrom content closers descendInto fuel memo (if descends then tag.finish else finish)
      | _, _ => blocksFrom content closers descendInto fuel memo (hit.index + 1)

def closersOf (content : Text) : List Nat := (closer.matchAll content).map (·.index)

def matchArtifactBlocks (content : Text) (descendInto : Option (ArtifactBlockMatch → Bool)) : List ArtifactBlockMatch :=
  blocksFrom content (closersOf content) descendInto (content.length + 1) freshMemo 0

/-- `"[^"]*"`, with any one unit for the quote. -/
def quoted (quote : CodeUnit) : Regex CodeUnit := .seq (.only quote) (.seq (.star true (.except quote)) (.only quote))

def plainUnit (c : CodeUnit) : Bool := decide (c ≠ GREATER_THAN) && decide (c ≠ DOUBLE_QUOTE) && decide (c ≠ SINGLE_QUOTE)

/-- `(?:[^>"']|"[^"]*"|'[^']*')*` -/
def ARTIFACT_ATTRS_PATTERN : Regex CodeUnit :=
  .star true (.alt (.unit plainUnit) (.alt (quoted DOUBLE_QUOTE) (quoted SINGLE_QUOTE)))

/-- `/<artifact\s+(ATTRS)>([\s\S]*?)<\/artifact>/gi` -/
def artifactBlock : Regex CodeUnit :=
  .seq opener (.seq (.plus (.unit isSpace)) (.seq (.group ARTIFACT_ATTRS_PATTERN)
    (.seq (.only GREATER_THAN) (.seq (.group (.star false (.unit fun _ => true))) closer))))

/-- A match of the pattern, as a block. -/
def blockOf (hit : Match CodeUnit) : ArtifactBlockMatch := ⟨hit.index, hit.whole, hit.captures.getD 0 [], hit.captures.getD 1 []⟩

/-! ### Attributes -/

section Attributes
variable {β : Type} {next : Run CodeUnit → Option β} {text : Text} {p : Nat} {c quote : CodeUnit} {rest : Text}

theorem find_quoted : (quoted quote).find next (c :: rest) =
    if c = quote then (indexOf [quote] rest 0).bind fun i => next ⟨c :: rest.take (i + 1), rest.drop (i + 1), []⟩ else none := by
  unfold quoted
  rw [Regex.find_seq, Regex.only, Regex.find_unit_cons]
  by_cases same : c = quote
  · rw [if_pos (decide_eq_true same), if_pos same]
    have through := @Regex.find_through _ rest _ _ (next ∘ (⟨[c], rest, []⟩ : Run CodeUnit).followedBy) quote
    exact through
  · rw [if_neg (by simpa using same), if_neg same]

theorem slice_self : slice text p p = [] := by
  unfold slice
  rw [Nat.sub_self, List.take_zero]

theorem slice_append {q r : Nat} (left : p ≤ q) (right : q ≤ r) : slice text p q ++ slice text q r = slice text p r := by
  unfold slice
  have whole : r - p = q - p + (r - q) := by omega
  have middle : text.drop q = (text.drop p).drop (q - p) := by rw [List.drop_drop, Nat.add_sub_cancel' left]
  rw [whole, middle, ← List.take_add]

theorem step_close (inside : p < text.length) : step text p inside = .close ↔ text[p] = GREATER_THAN := by
  unfold step
  dsimp only
  by_cases close : text[p] = GREATER_THAN
  · rw [if_pos close]
    exact iff_of_true rfl close
  · rw [if_neg close]
    refine iff_of_false (fun same => ?_) close
    split at same
    · split at same <;> cases same
    · cases same

theorem findTagClose_some {close : Nat} (found : findTagClose text p = some close) :
    p ≤ close ∧ close < text.length ∧ text[close]? = some GREATER_THAN := by
  induction left : text.length - p using Nat.strong_induction_on generalizing p with
  | _ left ih =>
    subst left
    by_cases inside : p < text.length
    · rw [findTagClose_eq inside] at found
      cases stepped : step text p inside with
      | next q =>
        rw [stepped] at found
        have further := step_next stepped
        obtain ⟨after, bound, unit⟩ := ih (text.length - q) (by omega) found rfl
        exact ⟨by omega, bound, unit⟩
      | noClose =>
        rw [stepped] at found
        cases found
      | close =>
        rw [stepped] at found
        cases found
        exact ⟨le_rfl, inside, by rw [List.getElem?_eq_getElem inside, (step_close inside).mp stepped]⟩
    · rw [findTagClose_outside (not_lt.mp inside)] at found
      cases found

theorem slice_succ (inside : p < text.length) : slice text p (p + 1) = [text[p]] := by
  unfold slice
  rw [Nat.add_sub_cancel_left, List.drop_eq_getElem_cons inside]
  rfl

theorem slice_length {q : Nat} (bound : q ≤ text.length) : (slice text p q).length = q - p := by
  unfold slice
  rw [List.length_take, List.length_drop]
  omega

theorem find_quotedAt (inside : p < text.length) (opens : text[p] = quote) : (quoted quote).find next (text.drop p) =
    (indexOf [quote] text (p + 1)).bind fun quoteEnd => next ⟨slice text p (quoteEnd + 1), text.drop (quoteEnd + 1), []⟩ := by
  rw [List.drop_eq_getElem_cons inside, find_quoted, if_pos opens, indexOf_drop text (p + 1), Option.bind_map]
  congr 1
  funext i
  have whole : p + 1 + i + 1 - p = i + 1 + 1 := by omega
  simp only [Function.comp_apply, slice, List.drop_drop, whole]
  rw [List.drop_eq_getElem_cons inside, List.take_succ_cons]
  congr 1

theorem find_unquoted (inside : p < text.length) (other : text[p] ≠ quote) : (quoted quote).find next (text.drop p) = none := by
  rw [List.drop_eq_getElem_cons inside, find_quoted, if_neg other]

theorem step_quote (inside : p < text.length) (opens : text[p] = quote) (kind : quote = DOUBLE_QUOTE ∨ quote = SINGLE_QUOTE) :
    step text p inside =
      match indexOf [quote] text (p + 1) with
      | none => .noClose
      | some quoteEnd => .next (quoteEnd + 1) := by
  have open_ : quote ≠ GREATER_THAN := by
    rcases kind with double | single
    · rw [double]
      decide
    · rw [single]
      decide
  unfold step
  dsimp only
  rw [opens, if_neg open_]
  exact if_pos kind

theorem step_plain (inside : p < text.length) (plain : plainUnit text[p] = true) : step text p inside = .next (p + 1) := by
  unfold plainUnit at plain
  rw [Bool.and_eq_true, Bool.and_eq_true, decide_eq_true_eq, decide_eq_true_eq, decide_eq_true_eq] at plain
  unfold step
  dsimp only
  rw [if_neg plain.1.1, if_neg (not_or.mpr ⟨plain.1.2, plain.2⟩)]

theorem plainUnit_false (c : CodeUnit) : plainUnit c = false ↔ c = GREATER_THAN ∨ c = DOUBLE_QUOTE ∨ c = SINGLE_QUOTE := by
  unfold plainUnit
  simp only [ne_eq, Bool.and_eq_false_iff, decide_eq_false_iff_not, not_not, or_assoc]

theorem find_round (inside : p < text.length) :
    (Regex.alt (.unit plainUnit) (.alt (quoted DOUBLE_QUOTE) (quoted SINGLE_QUOTE))).find next (text.drop p) =
      match step text p inside with
      | .next q => next ⟨slice text p q, text.drop q, []⟩
      | _ => none := by
  have unit : (Regex.unit plainUnit).find next (text.drop p) =
      if plainUnit text[p] then next ⟨slice text p (p + 1), text.drop (p + 1), []⟩ else none := by
    rw [slice_succ inside, List.drop_eq_getElem_cons inside, Regex.find_unit_cons]
  have other {quote : CodeUnit} (same : text[p] = quote) {quote' : CodeUnit} (apart : quote ≠ quote') : text[p] ≠ quote' := by
    rw [same]
    exact apart
  rw [Regex.find_alt, Regex.find_alt, unit]
  by_cases plain : plainUnit text[p] = true
  · have stops := mt (plainUnit_false text[p]).mpr (by rw [plain]; exact Bool.noConfusion)
    rw [if_pos plain, step_plain inside plain, find_unquoted inside fun same => stops (.inr (.inl same)),
      find_unquoted inside fun same => stops (.inr (.inr same)), Option.or_none, Option.or_none]
  · rw [if_neg plain, Option.none_or]
    rcases (plainUnit_false text[p]).mp (Bool.eq_false_iff.mpr plain) with close | double | single
    · rw [(step_close inside).mpr close, find_unquoted inside (other close (by decide)), find_unquoted inside (other close (by decide))]
      rfl
    · rw [step_quote inside double (.inl rfl), find_quotedAt inside double, find_unquoted inside (other double (by decide)), Option.or_none]
      cases indexOf [DOUBLE_QUOTE] text (p + 1) <;> rfl
    · rw [step_quote inside single (.inr rfl), find_quotedAt inside single, find_unquoted inside (other single (by decide)), Option.none_or]
      cases indexOf [SINGLE_QUOTE] text (p + 1) <;> rfl

/-- The attributes run to the close of the tag, whatever follows the `>`. -/
theorem find_attrs (closes : ∀ run, run.rest.head? ≠ some GREATER_THAN → next run = none) (p : Nat) :
    ARTIFACT_ATTRS_PATTERN.find next (text.drop p) =
      (findTagClose text p).bind fun close => next ⟨slice text p close, text.drop close, []⟩ := by
  induction left : text.length - p using Nat.strong_induction_on generalizing p next with
  | _ left ih =>
    subst left
    unfold ARTIFACT_ATTRS_PATTERN at ih ⊢
    rw [Regex.find_greedy]
    by_cases inside : p < text.length
    · have stuck (open_ : step text p inside ≠ .close) : next (.still (text.drop p)) = none := by
        refine closes _ fun first => open_ ((step_close inside).mpr ?_)
        rw [Run.still, List.drop_eq_getElem_cons inside] at first
        exact Option.some.inj first
      rw [find_round inside, findTagClose_eq inside]
      cases stepped : step text p inside with
      | next q =>
        have further := step_next stepped
        have moved : (!(slice text p q).isEmpty) = true := by
          have size := @slice_length text p q further.2
          cases units : slice text p q with
          | nil =>
            rw [units, List.length_nil] at size
            omega
          | cons _ _ => rfl
        have later := ih (text.length - q) (by omega) (fun run first => closes ((⟨slice text p q, text.drop q, []⟩ : Run CodeUnit).followedBy run) first)
          q rfl
        rw [stuck (by rw [stepped]; exact Step.noConfusion), Option.or_none]
        dsimp only
        rw [if_pos moved]
        refine Eq.trans later (Option.bind_congr fun close found => ?_)
        have ahead := (findTagClose_some found).1
        show next ⟨slice text p q ++ slice text q close, text.drop close, []⟩ = _
        rw [slice_append further.1.le ahead]
      | noClose => exact stuck (by rw [stepped]; exact Step.noConfusion)
      | close =>
        show next (.still (text.drop p)) = next _
        rw [slice_self]
        rfl
    · rw [findTagClose_outside (not_lt.mp inside), List.drop_eq_nil_of_le (not_lt.mp inside)]
      exact closes (.still []) (fun first => by cases first)

end Attributes

/-! ### A block at an offset -/

section Block
variable {β : Type} {text : Text} {p : Nat}

def opensAt (text : Text) : Bool := Regex.accepted (ignoringCase OPENER) text

def closesAt (text : Text) : Bool := Regex.accepted (ignoringCase CLOSER) text

theorem closer_find (next : Run CodeUnit → Option β) (text : Text) : closer.find next text =
    if closesAt text then next ⟨text.take CLOSER_LENGTH, text.drop CLOSER_LENGTH, []⟩ else none := by
  have size : (ignoringCase CLOSER).length = CLOSER_LENGTH := List.length_map _
  unfold closer
  rw [Regex.find_sequence, size]
  rfl

theorem opener_find (next : Run CodeUnit → Option β) (text : Text) : opener.find next text =
    if opensAt text then next ⟨text.take OPENER.length, text.drop OPENER.length, []⟩ else none := by
  have size : (ignoringCase OPENER).length = OPENER.length := List.length_map _
  unfold opener
  rw [Regex.find_sequence, size]
  rfl

/-- What the pattern has after the blanks: attributes, `>`, body and closer. -/
def blockTail : Regex CodeUnit := .seq (.group ARTIFACT_ATTRS_PATTERN)
  (.seq (.only GREATER_THAN) (.seq (.group (.star false (.unit fun _ => true))) closer))

theorem body_find (done : Run CodeUnit → β) (inside : p < text.length) (closes : text[p] = GREATER_THAN) :
    (Regex.seq (.only GREATER_THAN) (.seq (.group (.star false (.unit fun _ => true))) closer)).find (some ∘ done) (text.drop p) =
      (search closesAt text (p + 1)).map fun finish =>
        done ⟨slice text p (finish + CLOSER_LENGTH), text.drop (finish + CLOSER_LENGTH), [slice text (p + 1) finish]⟩ := by
  have body := @Regex.find_body _ closesAt (text.drop (p + 1)) β closer CLOSER_LENGTH
    (done ∘ (⟨[text[p]], text.drop (p + 1), []⟩ : Run CodeUnit).followedBy) closer_find
  have shifted : search closesAt text (p + 1) = (searchFrom closesAt 0 (text.drop (p + 1))).map (p + 1 + ·) := searchFrom_shift
  rw [Regex.find_seq, Regex.only, List.drop_eq_getElem_cons inside, Regex.find_unit_cons, if_pos (decide_eq_true closes), shifted,
    Option.map_map]
  refine Eq.trans body ?_
  congr 1
  funext i
  have whole : p + 1 + i + CLOSER_LENGTH - p = i + CLOSER_LENGTH + 1 := by omega
  have rest : p + 1 + (i + CLOSER_LENGTH) = p + 1 + i + CLOSER_LENGTH := by omega
  have inner : p + 1 + i - (p + 1) = i := by omega
  simp only [Function.comp_apply, Run.followedBy, slice, List.drop_drop, whole, rest, inner, List.nil_append]
  rw [List.drop_eq_getElem_cons inside, List.take_succ_cons]
  rfl

theorem body_stuck (next : Run CodeUnit → Option β) {text : Text} (first : text.head? ≠ some GREATER_THAN) :
    (Regex.seq (.only GREATER_THAN) (.seq (.group (.star false (.unit fun _ => true))) closer)).find next text = none := by
  rw [Regex.find_seq, Regex.only]
  cases text with
  | nil => rfl
  | cons c rest =>
    have other : ¬decide (c = GREATER_THAN) = true := by
      rw [decide_eq_true_eq]
      exact fun same => first (same ▸ rfl)
    rw [Regex.find_unit_cons, if_neg other]

theorem tail_find (done : Run CodeUnit → β) (text : Text) (p : Nat) : blockTail.find (some ∘ done) (text.drop p) =
    (findTagClose text p).bind fun close => (search closesAt text (close + 1)).map fun finish =>
      done ⟨slice text p (finish + CLOSER_LENGTH), text.drop (finish + CLOSER_LENGTH),
        [slice text p close, slice text (close + 1) finish]⟩ := by
  unfold blockTail
  rw [Regex.find_seq, Regex.find_group, find_attrs]
  · refine Option.bind_congr fun close found => ?_
    obtain ⟨ahead, inside, unit⟩ := findTagClose_some found
    rw [List.getElem?_eq_getElem inside] at unit
    have body := body_find (done ∘ (⟨slice text p close, text.drop close, [slice text p close]⟩ : Run CodeUnit).followedBy) inside
      (Option.some.inj unit)
    refine Eq.trans body (Option.map_congr fun finish closed => ?_)
    have after := (search_eq_some (by omega)).mp closed
    simp only [Function.comp_apply, Run.followedBy]
    rw [slice_append ahead (by omega)]
    rfl
  · exact fun run first => body_stuck _ first

theorem findTagClose_space (space : isSpaceAt text p = true) : findTagClose text p = findTagClose text (p + 1) := by
  have inside : p < text.length := by
    by_contra outside
    unfold isSpaceAt at space
    rw [List.getElem?_eq_none (not_lt.mp outside)] at space
    cases space
  have plain : plainUnit text[p] = true := by
    unfold isSpaceAt at space
    rw [List.getElem?_eq_getElem inside, Option.any_some] at space
    by_contra special
    rcases (plainUnit_false _).mp (Bool.eq_false_iff.mpr special) with same | same | same <;> rw [same] at space <;>
      exact absurd space (by decide)
  rw [findTagClose_eq inside, step_plain inside plain]

theorem findTagClose_blanks {count : Nat} (spaces : ∀ i < count, isSpaceAt text (p + i) = true) :
    findTagClose text (p + count) = findTagClose text p := by
  induction count with
  | zero => rfl
  | succ count ih =>
    rw [← ih fun i less => spaces i (Nat.lt_succ_of_lt less)]
    exact (findTagClose_space (spaces count (Nat.lt_succ_self count))).symm

theorem skipSpace_eq (text : Text) (p : Nat) : skipSpace text p = p + ((text.drop p).takeWhile isSpace).length := by
  induction left : text.length - p using Nat.strong_induction_on generalizing p with
  | _ left ih =>
    subst left
    rw [skipSpace]
    by_cases inside : p < text.length
    · have here : isSpaceAt text p = isSpace text[p] := by
        unfold isSpaceAt
        rw [List.getElem?_eq_getElem inside, Option.any_some]
      rw [here, List.drop_eq_getElem_cons inside]
      by_cases space : isSpace text[p] = true
      · rw [if_pos space, ih (text.length - (p + 1)) (by omega) (p + 1) rfl, List.takeWhile_cons_of_pos space, List.length_cons]
        omega
      · rw [if_neg space, List.takeWhile_cons_of_neg space]
        rfl
    · have none : isSpaceAt text p = false := by
        unfold isSpaceAt
        rw [List.getElem?_eq_none (not_lt.mp inside)]
        rfl
      rw [none, List.drop_eq_nil_of_le (not_lt.mp inside)]
      rfl

/-- The blanks are all taken: the tag closes at the same place after fewer of them. -/
theorem blanks_find (done : Run CodeUnit → β) (text : Text) (p : Nat) :
    (Regex.star true (.unit isSpace)).find (fun run => blockTail.find (some ∘ done ∘ run.followedBy) run.rest) (text.drop p) =
      (findTagClose text (skipSpace text p)).bind fun close => (search closesAt text (close + 1)).map fun finish =>
        done ⟨slice text p (finish + CLOSER_LENGTH), text.drop (finish + CLOSER_LENGTH),
          [slice text (skipSpace text p) close, slice text (close + 1) finish]⟩ := by
  have count := skipSpace_eq text p
  obtain ⟨taken, dropped⟩ := Regex.takeWhile_cut isSpace (text.drop p)
  have spaces : ∀ i < ((text.drop p).takeWhile isSpace).length, isSpaceAt text (p + i) = true := by
    intro i less
    have unit := List.all_eq_true.mp (List.all_takeWhile (p := isSpace) (l := text.drop p)) _ (List.getElem_mem less)
    have here : text[p + i]? = some ((text.drop p).takeWhile isSpace)[i] := by
      rw [← List.getElem?_eq_getElem less, ← taken, List.getElem?_take_of_lt less, List.getElem?_drop]
    unfold isSpaceAt
    rw [here]
    exact unit
  have tail (i : Nat) := tail_find (done ∘ (⟨(text.drop p).take i, (text.drop p).drop i, []⟩ : Run CodeUnit).followedBy) text (p + i)
  have closes {i : Nat} (fits : i ≤ ((text.drop p).takeWhile isSpace).length) : findTagClose text (p + i) = findTagClose text p :=
    findTagClose_blanks fun j less => spaces j (lt_of_lt_of_le less fits)
  rw [Regex.find_longest]
  · generalize ((text.drop p).takeWhile isSpace).length = n at count taken dropped
    rw [← dropped, ← taken]
    refine Eq.trans ((congrArg _ (List.drop_drop.trans (congrArg text.drop rfl))).trans (tail n)) ?_
    rw [← count]
    refine Option.bind_congr fun close found => Option.map_congr fun finish closed => ?_
    obtain ⟨ahead, inside, _⟩ := findTagClose_some found
    have after := (search_eq_some (by omega)).mp closed
    have blanks : (text.drop p).take n = slice text p (skipSpace text p) := by
      rw [count]
      unfold slice
      rw [Nat.add_sub_cancel_left]
    simp only [Function.comp_apply, Run.followedBy, List.nil_append]
    rw [blanks, slice_append (by omega) (by omega)]
  · intro stuck i fits
    have longest := tail ((text.drop p).takeWhile isSpace).length
    rw [← List.drop_drop, taken, dropped, closes le_rfl] at longest
    have none := longest.symm.trans stuck
    have shorter := tail i
    rw [← List.drop_drop, closes fits] at shorter
    refine Eq.trans shorter ?_
    simp only [Option.bind_eq_none_iff, Option.map_eq_none_iff] at none ⊢
    exact none

theorem block_at (text : Text) (p : Nat) : artifactBlock.first (text.drop p) =
    if opensAt (text.drop p) ∧ isSpaceAt text (p + OPENER.length) then
      (findTagClose text (skipSpace text (p + OPENER.length + 1))).bind fun close =>
        (search closesAt text (close + 1)).map fun finish =>
          ⟨slice text p (finish + CLOSER_LENGTH), text.drop (finish + CLOSER_LENGTH),
            [slice text (skipSpace text (p + OPENER.length + 1)) close, slice text (close + 1) finish]⟩
    else none := by
  unfold artifactBlock Regex.plus
  rw [Regex.first_eq_find, Regex.find_seq, opener_find]
  by_cases opens : opensAt (text.drop p) = true
  · rw [if_pos opens, Regex.find_seq, Regex.find_seq, List.drop_drop]
    by_cases inside : p + OPENER.length < text.length
    · have here : isSpaceAt text (p + OPENER.length) = isSpace text[p + OPENER.length] := by
        unfold isSpaceAt
        rw [List.getElem?_eq_getElem inside, Option.any_some]
      rw [List.drop_eq_getElem_cons inside, Regex.find_unit_cons, here]
      by_cases space : isSpace text[p + OPENER.length] = true
      · rw [if_pos space, if_pos ⟨opens, space⟩]
        have blanks := blanks_find ((⟨(text.drop p).take OPENER.length, text.drop (p + OPENER.length), []⟩ : Run CodeUnit).followedBy ∘
          (⟨[text[p + OPENER.length]], text.drop (p + OPENER.length + 1), []⟩ : Run CodeUnit).followedBy) text (p + OPENER.length + 1)
        simp only [Function.comp_def, Run.followedBy_assoc] at blanks ⊢
        refine Eq.trans blanks (Option.bind_congr fun close found => Option.map_congr fun finish closed => ?_)
        obtain ⟨ahead, bound, _⟩ := findTagClose_some found
        have after := (search_eq_some (by omega)).mp closed
        have past := skipSpace_eq text (p + OPENER.length + 1)
        have front : (text.drop p).take OPENER.length = slice text p (p + OPENER.length) := by
          unfold slice
          rw [Nat.add_sub_cancel_left]
        simp only [Run.followedBy, List.nil_append]
        rw [front, ← slice_succ inside, slice_append (by omega) (by omega), slice_append (by omega) (by omega)]
      · rw [if_neg space, if_neg fun both => space both.2]
    · have none : isSpaceAt text (p + OPENER.length) = false := by
        unfold isSpaceAt
        rw [List.getElem?_eq_none (not_lt.mp inside)]
        rfl
      rw [List.drop_eq_nil_of_le (not_lt.mp inside), none, if_neg fun both => Bool.noConfusion both.2]
      rfl
  · rw [if_neg opens, if_neg fun both => opens both.1]

end Block

/-! ### Openers and closers -/

section Closers
variable {content : Text} {sorted : List Nat} {min lo hi : Nat}

theorem opener_fixed : opener.Fixed opensAt OPENER.length where
  reads text := by
    rw [Regex.first_eq_find, opener_find]
  fits text front := by
    have fits := Regex.accepted_length front
    rwa [ignoringCase, List.length_map] at fits
  moves := by decide

theorem closer_fixed : closer.Fixed closesAt CLOSER_LENGTH where
  reads text := by
    rw [Regex.first_eq_find, closer_find]
  fits text front := by
    have fits := Regex.accepted_length front
    rwa [ignoringCase, List.length_map] at fits
  moves := by decide

theorem closers_apart (text : Text) (p : Nat) (closes : closesAt text = true) (after : 0 < p) (before : p < CLOSER_LENGTH) :
    closesAt (text.drop p) = false := by
  by_contra other
  have again : closesAt (text.drop p) = true := by simpa using other
  have units : ∀ i < CLOSER_LENGTH, 0 < i → lowerCase (CLOSER.getD i 0) ≠ lowerCase (CLOSER.getD 0 0) := by decide
  have class_ {i : Nat} (inside : i < CLOSER_LENGTH) :
      (ignoringCase CLOSER)[i]? = some fun d => decide (lowerCase d = lowerCase (CLOSER.getD i 0)) := by
    unfold ignoringCase
    rw [List.getElem?_map, List.getElem?_eq_getElem inside, List.getD_eq_getElem _ _ inside]
    rfl
  obtain ⟨c, here, accepts⟩ := Regex.accepted_get closes (class_ before)
  obtain ⟨d, there, accepts'⟩ := Regex.accepted_get again (class_ closer_fixed.moves)
  rw [List.getElem?_drop, Nat.add_zero, here] at there
  cases there
  rw [decide_eq_true_eq] at accepts accepts'
  exact units p before after (accepts.symm.trans accepts')

/-- The binary search ends where the entries reach `min`. -/
theorem lowerBound_spec (ordered : sorted.Pairwise (· < ·)) (below : ∀ i < lo, sorted.getD i 0 < min)
    (above : ∀ i, hi ≤ i → i < sorted.length → min ≤ sorted.getD i 0) (order : lo ≤ hi) (inside : hi ≤ sorted.length) :
    (∀ i < lowerBound sorted min lo hi, sorted.getD i 0 < min) ∧
      ∀ i, lowerBound sorted min lo hi ≤ i → i < sorted.length → min ≤ sorted.getD i 0 := by
  have increasing {i j : Nat} (less : i ≤ j) (bound : j < sorted.length) : sorted.getD i 0 ≤ sorted.getD j 0 := by
    rw [List.getD_eq_getElem _ _ (by omega), List.getD_eq_getElem _ _ bound]
    rcases Nat.lt_or_eq_of_le less with strict | same
    · exact (List.pairwise_iff_getElem.mp ordered i j _ bound strict).le
    · subst same
      exact le_rfl
  fun_induction lowerBound sorted min lo hi with
  | case1 lo hi open_ mid less ih =>
    refine ih (fun i bound => ?_) above (by omega) inside
    exact lt_of_le_of_lt (increasing (Nat.le_of_lt_succ bound) (by omega)) less
  | case2 lo hi open_ mid more ih =>
    refine ih below (fun i bound within => ?_) (by omega) (by omega)
    exact le_trans (not_lt.mp more) (increasing bound within)
  | case3 lo hi closed => exact ⟨below, fun i bound => above i (by omega)⟩

theorem firstAtOrAfter_closers (content : Text) (min : Nat) : firstAtOrAfter (closersOf content) min = search closesAt content min := by
  obtain ⟨ordered, all⟩ := closer_fixed.indices closers_apart content 0
  obtain ⟨below, above⟩ := @lowerBound_spec (closersOf content) min 0 (closersOf content).length ordered
    (fun i less => (Nat.not_lt_zero i less).elim) (fun i past bound => absurd bound (not_lt.mpr past)) (Nat.zero_le _) le_rfl
  have known (q : Nat) : q ∈ closersOf content ↔ closesAt (content.drop q) = true := by
    have member := all q
    simp only [Nat.zero_le, true_and] at member
    exact member
  unfold firstAtOrAfter
  generalize lowerBound (closersOf content) min 0 (closersOf content).length = r at below above
  have index {q : Nat} (closes : closesAt (content.drop q) = true) : ∃ i, ∃ bound : i < (closersOf content).length, (closersOf content)[i] = q :=
    List.mem_iff_getElem.mp ((known q).mpr closes)
  have early {i : Nat} (bound : i < (closersOf content).length) (before : i < r) : (closersOf content)[i] < min := by
    have less := below i before
    rwa [List.getD_eq_getElem _ _ bound] at less
  have late {i : Nat} (bound : i < (closersOf content).length) (after : r ≤ i) : min ≤ (closersOf content)[i] := by
    have more := above i after bound
    rwa [List.getD_eq_getElem _ _ bound] at more
  by_cases inside : r < (closersOf content).length
  · have closes := (known _).mp (List.getElem_mem inside)
    have fits := closer_fixed.fits _ closes
    have wide := closer_fixed.moves
    rw [List.length_drop] at fits
    have reached := late inside le_rfl
    rw [List.getElem?_eq_getElem inside]
    refine ((search_eq_some (by omega)).mpr ⟨reached, by omega, closes, fun q after before => ?_⟩).symm
    by_contra other
    obtain ⟨i, bound, same⟩ := index (q := q) (by simpa using other)
    subst same
    rcases Nat.lt_or_ge i r with less | more
    · have short := early bound less
      omega
    · rcases Nat.lt_or_eq_of_le more with strict | equal
      · have larger := List.pairwise_iff_getElem.mp ordered r i inside bound strict
        exact lt_asymm before larger
      · subst equal
        exact Nat.lt_irrefl _ before
  · rw [List.getElem?_eq_none (not_lt.mp inside)]
    refine ((search_eq_none closer_fixed.front_nil).mpr fun q after => ?_).symm
    by_contra other
    obtain ⟨i, bound, same⟩ := index (q := q) (by simpa using other)
    subst same
    have short := early bound (lt_of_lt_of_le bound (not_lt.mp inside))
    omega

end Closers

/-! ### The scan -/

section Scan
variable {content : Text} {memo : ArtifactTagMemo} {fuel lastIndex p : Nat}

theorem scan_run (opens : opensAt (content.drop p) = true) : (scanArtifactOpenTag content p .run none).1 =
    if isSpaceAt content (p + OPENER.length) then
      (findTagClose content (skipSpace content (p + OPENER.length + 1))).map fun close =>
        ⟨slice content (skipSpace content (p + OPENER.length + 1)) close, close + 1⟩
    else none := by
  have first : (opener.first (content.drop p)).isNone = false := by
    rw [opener_fixed.reads, if_pos opens]
    rfl
  unfold scanArtifactOpenTag
  rw [first, if_neg Bool.false_ne_true]
  by_cases space : isSpaceAt content (p + OPENER.length) = true
  · rw [if_neg (by rw [space]; exact Bool.noConfusion), if_pos space]
    rfl
  · rw [if_pos (Bool.eq_false_iff.mpr space), if_neg space]

/-- What the pattern matches at an opener, read off the scanned tag. -/
theorem block_scanned (opens : opensAt (content.drop p) = true) : artifactBlock.first (content.drop p) =
    (scanArtifactOpenTag content p .run none).1.bind fun tag => (firstAtOrAfter (closersOf content) tag.finish).map fun close =>
      ⟨slice content p (close + CLOSER_LENGTH), content.drop (close + CLOSER_LENGTH), [tag.attrs, slice content tag.finish close]⟩ := by
  rw [block_at, scan_run opens]
  by_cases space : isSpaceAt content (p + OPENER.length) = true
  · rw [if_pos ⟨opens, space⟩, if_pos space, Option.bind_map]
    refine Option.bind_congr fun close _ => ?_
    simp only [Function.comp_apply]
    rw [firstAtOrAfter_closers]
  · rw [if_neg fun both => space both.2, if_neg space]
    rfl

theorem scan_finish {tag : ArtifactOpenTag} (opens : opensAt (content.drop p) = true)
    (scanned : (scanArtifactOpenTag content p .run none).1 = some tag) : p < tag.finish := by
  rw [scan_run opens] at scanned
  by_cases space : isSpaceAt content (p + OPENER.length) = true
  · rw [if_pos space] at scanned
    obtain ⟨close, found, same⟩ := Option.map_eq_some_iff.mp scanned
    have ahead := (findTagClose_some found).1
    have past := skipSpace_eq content (p + OPENER.length + 1)
    rw [← same]
    dsimp only
    omega
  · rw [if_neg space] at scanned
    cases scanned

theorem no_block (other : opensAt (content.drop p) = false) : artifactBlock.first (content.drop p) = none := by
  rw [block_at, if_neg]
  exact fun both => Bool.noConfusion (both.1.symm.trans other)

theorem getD_sound {scanned : Option ArtifactTagMemo} (sound : SoundMemo content (some memo)) (kept : SoundMemo content scanned) :
    SoundMemo content (some (scanned.getD memo)) := by
  cases scanned with
  | none => exact sound
  | some next => exact kept

/-- The linear scan finds what the pattern finds, from every place on. -/
theorem blocksFrom_eq (sound : SoundMemo content (some memo)) (enough : content.length < fuel + lastIndex) :
    blocksFrom content (closersOf content) none fuel memo lastIndex = (artifactBlock.hitsFrom content lastIndex).map blockOf := by
  induction fuel generalizing memo lastIndex with
  | zero =>
    rw [Regex.hitsFrom_none fun i after => no_block ?_]
    · rfl
    · rw [List.drop_eq_nil_of_le (by omega)]
      exact opener_fixed.front_nil
  | succ fuel ih =>
    have index := @Regex.Fixed.exec_index _ opensAt content lastIndex _ _ opener_fixed
    unfold blocksFrom
    cases executed : opener.exec content lastIndex with
    | none =>
      rw [executed] at index
      rw [Regex.hitsFrom_none fun i after => no_block ((search_eq_none opener_fixed.front_nil).mp index.symm i after)]
      rfl
    | some hit =>
      rw [executed, Option.map_some] at index
      have within := search_within opener_fixed.front_nil index.symm
      obtain ⟨ahead, _, opens, least⟩ := (search_eq_some within).mp index.symm
      have fits := opener_fixed.fits _ opens
      have moves := opener_fixed.moves
      rw [List.length_drop] at fits
      obtain ⟨same, kept⟩ := scan_spec sound hit.index .run
      have block := block_scanned opens
      have earlier {i : Nat} (after : lastIndex ≤ i) (before : i < hit.index) : artifactBlock.first (content.drop i) = none :=
        no_block (least i after before)
      have retry (none : artifactBlock.first (content.drop hit.index) = none) :
          artifactBlock.hitsFrom content lastIndex = artifactBlock.hitsFrom content (hit.index + 1) := by
        refine Regex.hitsFrom_skip (by omega) (by omega) fun i after before => ?_
        rcases Nat.lt_or_eq_of_le (Nat.le_of_lt_succ before) with less | here
        · exact earlier after less
        · rw [here]
          exact none
      dsimp only
      rw [same]
      have sound' := getD_sound sound kept
      generalize (scanArtifactOpenTag content hit.index .run (some memo)).2.getD memo = next at sound'
      cases scanned : (scanArtifactOpenTag content hit.index .run none).1 with
      | none =>
        rw [scanned] at block
        rw [retry block]
        exact ih sound' (by omega)
      | some tag =>
        have past := scan_finish opens scanned
        rw [scanned] at block
        dsimp only [Option.bind_some] at block ⊢
        cases closed : firstAtOrAfter (closersOf content) tag.finish with
        | none =>
          rw [closed] at block
          rw [retry block]
          exact ih sound' (by omega)
        | some close =>
          rw [closed] at block
          rw [firstAtOrAfter_closers] at closed
          obtain ⟨after, _, closes, _⟩ := (search_eq_some (search_within closer_fixed.front_nil closed)).mp closed
          have fits' := closer_fixed.fits _ closes
          rw [List.length_drop] at fits'
          have size : (slice content hit.index (close + CLOSER_LENGTH)).length = close + CLOSER_LENGTH - hit.index :=
            slice_length (by have wide := closer_fixed.moves; omega)
          have moved : slice content hit.index (close + CLOSER_LENGTH) ≠ [] := by
            rw [← List.length_pos_iff, size]
            omega
          rw [Regex.hitsFrom_skip ahead (by omega) fun i after before => earlier after before, Regex.hitsFrom_found block moved,
            List.map_cons]
          dsimp only
          rw [size, Nat.add_sub_cancel' (by omega)]
          have enough' : content.length < fuel + (close + CLOSER_LENGTH) := by omega
          exact congrArg₂ List.cons rfl (ih sound' enough')

end Scan

theorem artifact_scan_equals_pattern :
    (∀ content, matchArtifactBlocks content none = (artifactBlock.matchAll content).map blockOf) ∧
    ∀ text openers, scanAll text openers (some freshMemo) = scanAll text openers none := by
  refine ⟨fun content => blocksFrom_eq freshMemo_sound (by omega), fun text openers => ?_⟩
  rw [scanAll_eq freshMemo_sound, scanAll_eq]
  exact nofun

end Bike4Mind.Artifacts
