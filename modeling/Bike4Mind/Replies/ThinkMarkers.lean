import Bike4Mind.Texts.CodeUnits

/-! Think markers in a streamed reply: what the transcript shows, and how reasoning is kept from closing its own markers. -/

namespace Bike4Mind.Replies

open Texts

def THINK_OPEN_TAG : Text := ascii "<think>"

def THINK_CLOSE_TAG : Text := ascii "</think>"

/-- `/(<think>|<\/think>)/g` -/
def THINK_TAG_TOKENS : Regex CodeUnit := .group (.alt (.literal THINK_OPEN_TAG) (.literal THINK_CLOSE_TAG))

def ZERO_WIDTH_SPACE : CodeUnit := 0x200b

/-- `/<(\/?)think>/g` -/
def thinkMarker : Regex CodeUnit :=
  .seq (.literal (ascii "<")) (.seq (.group (.optional (.literal (ascii "/")))) (.literal (ascii "think>")))

def escapedMarker (hit : Match CodeUnit) : Text :=
  ascii "<" ++ [ZERO_WIDTH_SPACE] ++ hit.captures.headD [] ++ ascii "think>"

def escapeThinkMarkers (text : Text) : Text := if text = [] then text else thinkMarker.replace text escapedMarker

def MAX_PARTIAL_MARKER_LENGTH : Nat := THINK_CLOSE_TAG.length - 1

def startsMarker (suffix : Text) : Bool := suffix.isPrefixOf THINK_OPEN_TAG || suffix.isPrefixOf THINK_CLOSE_TAG

/-- The loop of `partialMarkerSuffixLength`, from `len` down. -/
def partialMarkerSuffixFrom (text : Text) : (len : Nat) → Nat
  | 0 => 0
  | len + 1 => if startsMarker (sliceLast text (len + 1)) then len + 1 else partialMarkerSuffixFrom text len

def partialMarkerSuffixLength (text : Text) : Nat :=
  partialMarkerSuffixFrom text (min MAX_PARTIAL_MARKER_LENGTH text.length)

structure ThinkMarkerEscaper where
  pending : Text
  deriving DecidableEq

def createThinkMarkerEscaper : ThinkMarkerEscaper := ⟨[]⟩

namespace ThinkMarkerEscaper

def push (escaper : ThinkMarkerEscaper) (chunk : Text) : Text × ThinkMarkerEscaper :=
  if chunk = [] then ([], escaper) else
  let combined := escaper.pending ++ chunk
  let holdLength := partialMarkerSuffixLength combined
  let safeLength := combined.length - holdLength
  (escapeThinkMarkers (combined.take safeLength), ⟨combined.drop safeLength⟩)

def flush (escaper : ThinkMarkerEscaper) : Text × ThinkMarkerEscaper := (escapeThinkMarkers escaper.pending, ⟨[]⟩)

/-- The chunks pushed one after another, and the flush. -/
def stream (escaper : ThinkMarkerEscaper) : List Text → Text
  | [] => escaper.flush.1
  | chunk :: rest => (escaper.push chunk).1 ++ (escaper.push chunk).2.stream rest

end ThinkMarkerEscaper

/-- The scan over the pieces of a text, with the depth it has reached and what it showed so far. -/
def scanPieces : (depth : Nat) → (visible : Text) → List Text → Nat × Text
  | depth, visible, [] => (depth, visible)
  | depth, visible, token :: rest =>
    if token = THINK_OPEN_TAG then scanPieces (depth + 1) visible rest
    else if token = THINK_CLOSE_TAG then
      if 0 < depth then scanPieces (depth - 1) visible rest else scanPieces depth (visible ++ token) rest
    else if depth = 0 then scanPieces depth (visible ++ token) rest
    else scanPieces depth visible rest

/-- `undefined` and `null` are `none`. -/
def visibleReplyText (part : Option Text) : Text :=
  if trim (part.getD []) = [] then [] else
  let visible := (scanPieces 0 [] (THINK_TAG_TOKENS.split (part.getD []))).2
  if trim visible = [] then [] else visible

/-! ### The markers -/

def LESS_THAN : CodeUnit := 0x3c

def openRest : Text := ascii "think>"

def closeRest : Text := ascii "/think>"

theorem open_eq : THINK_OPEN_TAG = LESS_THAN :: openRest := by decide

theorem close_eq : THINK_CLOSE_TAG = LESS_THAN :: closeRest := by decide

def IsMarker (marker : Text) : Prop := marker = THINK_OPEN_TAG ∨ marker = THINK_CLOSE_TAG

theorem IsMarker.cons {marker : Text} (known : IsMarker marker) :
    ∃ rest, marker = LESS_THAN :: rest ∧ LESS_THAN ∉ rest := by
  rcases known with same | same
  · exact ⟨openRest, same.trans open_eq, by decide⟩
  · exact ⟨closeRest, same.trans close_eq, by decide⟩

theorem IsMarker.ne_nil {marker : Text} (known : IsMarker marker) : marker ≠ [] := by
  obtain ⟨body, same, _⟩ := known.cons
  rw [same]
  exact List.cons_ne_nil _ _

theorem IsMarker.length_le {marker : Text} (known : IsMarker marker) : marker.length ≤ MAX_PARTIAL_MARKER_LENGTH + 1 := by
  rcases known with same | same <;> subst same <;> decide

theorem startsMarker_iff {suffix : Text} : startsMarker suffix = true ↔ ∃ marker, IsMarker marker ∧ suffix <+: marker := by
  unfold startsMarker IsMarker
  rw [Bool.or_eq_true, List.isPrefixOf_iff_prefix, List.isPrefixOf_iff_prefix]
  constructor
  · rintro (starts | starts)
    · exact ⟨_, .inl rfl, starts⟩
    · exact ⟨_, .inr rfl, starts⟩
  · rintro ⟨marker, same | same, starts⟩
    · exact .inl (same ▸ starts)
    · exact .inr (same ▸ starts)

section Holding
variable {text : Text} {len : Nat}

theorem partialMarkerSuffixFrom_le : partialMarkerSuffixFrom text len ≤ len := by
  induction len with
  | zero => exact le_rfl
  | succ len ih =>
    unfold partialMarkerSuffixFrom
    split
    · exact le_rfl
    · exact Nat.le_succ_of_le ih

theorem partialMarkerSuffixFrom_starts (some : 0 < partialMarkerSuffixFrom text len) :
    startsMarker (sliceLast text (partialMarkerSuffixFrom text len)) = true := by
  induction len with
  | zero => exact (Nat.lt_irrefl 0 some).elim
  | succ len ih =>
    unfold partialMarkerSuffixFrom at some ⊢
    by_cases starts : startsMarker (sliceLast text (len + 1)) = true
    · rw [if_pos starts]
      exact starts
    · rw [if_neg starts] at some ⊢
      exact ih some

theorem partialMarkerSuffixFrom_longest {longer : Nat} (fits : longer ≤ len) (starts : startsMarker (sliceLast text longer) = true) :
    longer ≤ partialMarkerSuffixFrom text len := by
  induction len with
  | zero => exact fits
  | succ len ih =>
    unfold partialMarkerSuffixFrom
    by_cases here : startsMarker (sliceLast text (len + 1)) = true
    · rw [if_pos here]
      exact fits
    · rw [if_neg here]
      have shorter : longer ≠ len + 1 := by
        intro same
        rw [same] at starts
        exact here starts
      exact ih (by omega)

theorem partialMarkerSuffixLength_le : partialMarkerSuffixLength text ≤ text.length :=
  le_trans partialMarkerSuffixFrom_le (Nat.min_le_right _ _)

/-- What of a text is safe to emit. -/
def safeOf (text : Text) : Text := text.take (text.length - partialMarkerSuffixLength text)

/-- What of a text is held back. -/
def heldOf (text : Text) : Text := text.drop (text.length - partialMarkerSuffixLength text)

theorem safe_held (text : Text) : safeOf text ++ heldOf text = text := List.take_append_drop _ text

theorem held_length : (heldOf text).length = partialMarkerSuffixLength text := by
  have le := @partialMarkerSuffixLength_le text
  unfold heldOf
  rw [List.length_drop]
  omega

theorem held_starts (some : heldOf text ≠ []) : ∃ marker, IsMarker marker ∧ heldOf text <+: marker := by
  have count : 0 < partialMarkerSuffixLength text := by
    rw [← held_length]
    exact List.length_pos_iff.mpr some
  exact startsMarker_iff.mp (partialMarkerSuffixFrom_starts count)

theorem held_longest {tail marker : Text} (known : IsMarker marker) (ends : tail <:+ text) (starts : tail <+: marker)
    (short : tail.length < marker.length) : tail.length ≤ (heldOf text).length := by
  have bound := known.length_le
  have fits : tail.length ≤ min MAX_PARTIAL_MARKER_LENGTH text.length := le_min (by omega) ends.length_le
  have last : sliceLast text tail.length = tail := by
    obtain ⟨before, same⟩ := ends
    unfold sliceLast
    rw [← same, List.length_append, Nat.add_sub_cancel]
    exact List.drop_left
  rw [held_length]
  exact partialMarkerSuffixFrom_longest fits (startsMarker_iff.mpr ⟨marker, known, last.symm ▸ starts⟩)

theorem marker_over {tail after marker : Text} (known : IsMarker marker) (some : tail ≠ []) (starts : marker <+: tail ++ after)
    (exceeds : ¬marker <+: tail) : ∃ past, past ≠ [] ∧ tail ++ past = marker ∧ past <+: after ∧ LESS_THAN ∉ past := by
  have short : tail.length < marker.length := by
    by_contra long
    exact exceeds (List.prefix_of_prefix_length_le starts (List.prefix_append _ _) (not_lt.mp long))
  obtain ⟨past, cut⟩ : tail <+: marker := List.prefix_of_prefix_length_le (List.prefix_append _ _) starts short.le
  obtain ⟨body, same, plain⟩ := known.cons
  refine ⟨past, ?_, cut, ?_, ?_⟩
  · intro none
    rw [none, List.append_nil] at cut
    exact Nat.lt_irrefl _ (cut ▸ short)
  · rw [← cut] at starts
    exact (List.prefix_append_right_inj tail).mp starts
  · obtain ⟨c, tail', cons⟩ := List.exists_cons_of_ne_nil some
    rw [cons, List.cons_append, same] at cut
    have bodies : tail' ++ past = body := (List.cons.inj cut).2
    exact fun member => plain (bodies ▸ List.mem_append_right tail' member)

theorem marker_within {tail after marker : Text} (known : IsMarker marker) (some : tail ≠ [])
    (starts : marker <+: tail ++ LESS_THAN :: after) : marker <+: tail := by
  by_contra exceeds
  obtain ⟨past, left, _, reaches, plain⟩ := marker_over known some starts exceeds
  obtain ⟨d, past, cons⟩ := List.exists_cons_of_ne_nil left
  subst cons
  have first : d = LESS_THAN := (List.cons_prefix_cons.mp reaches).1
  exact plain (first ▸ List.mem_cons_self)

theorem held_cons (some : heldOf text ≠ []) : ∃ rest, heldOf text = LESS_THAN :: rest := by
  obtain ⟨marker, known, starting⟩ := held_starts some
  obtain ⟨_, opens, _⟩ := known.cons
  obtain ⟨d, rest, cons⟩ := List.exists_cons_of_ne_nil some
  rw [cons, opens] at starting
  exact ⟨rest, by rw [cons, (List.cons_prefix_cons.mp starting).1]⟩

theorem marker_apart {tail rest marker : Text} (known : IsMarker marker) (some : tail ≠ []) (ends : tail <:+ safeOf text) :
    marker <+: tail ++ (heldOf text ++ rest) ↔ marker <+: tail := by
  refine ⟨fun starts => ?_, fun starts => starts.trans (List.prefix_append _ _)⟩
  by_cases none : heldOf text = []
  · have whole : safeOf text = text := by
      have both := safe_held text
      rwa [none, List.append_nil] at both
    by_contra exceeds
    obtain ⟨past, left, cut, _⟩ := marker_over known some starts exceeds
    have short : tail.length < marker.length := by
      have count := List.length_pos_iff.mpr left
      rw [← cut, List.length_append]
      omega
    have longest := held_longest known (whole ▸ ends) ⟨past, cut⟩ short
    rw [none] at longest
    exact some (List.length_eq_zero_iff.mp (Nat.le_zero.mp longest))
  · obtain ⟨held, opens⟩ := held_cons none
    rw [opens] at starts
    exact marker_within known some starts

end Holding

/-! ### What the two patterns match -/

section Matches
variable {text rest : Text}

/-- The marker at the front of a text, with what a pattern captures for each of the two. -/
def markerRun (opened closed : List Text) (text : Text) : Option (Run CodeUnit) :=
  if THINK_OPEN_TAG <+: text then some ⟨THINK_OPEN_TAG, text.drop THINK_OPEN_TAG.length, opened⟩
  else if THINK_CLOSE_TAG <+: text then some ⟨THINK_CLOSE_TAG, text.drop THINK_CLOSE_TAG.length, closed⟩
  else none

theorem tokens_first (text : Text) : THINK_TAG_TOKENS.first text = markerRun [THINK_OPEN_TAG] [THINK_CLOSE_TAG] text := by
  unfold THINK_TAG_TOKENS markerRun
  rw [Regex.first_eq_find, Regex.find_group, Regex.find_alt, Regex.find_literal, Regex.find_literal]
  split
  · rfl
  · rw [Option.none_or]
    rfl

def SLASH : CodeUnit := 0x2f

theorem slash_opens_close : THINK_CLOSE_TAG = LESS_THAN :: SLASH :: openRest := by decide

theorem open_not_slash (text : Text) : ¬openRest <+: SLASH :: text := by
  have opens : openRest = 0x74 :: ascii "hink>" := by decide
  rw [opens, List.cons_prefix_cons]
  exact fun same => absurd same.1 (by decide)

theorem marker_first (text : Text) : thinkMarker.first text = markerRun [[]] [[SLASH]] text := by
  have less : ascii "<" = [LESS_THAN] := by decide
  have slash : ascii "/" = [SLASH] := by decide
  have body : ascii "think>" = openRest := rfl
  have size : THINK_OPEN_TAG.length = openRest.length + 1 := by decide
  have size' : THINK_CLOSE_TAG.length = openRest.length + 2 := by decide
  unfold thinkMarker Regex.optional markerRun
  rw [Regex.first_eq_find, Regex.find_seq, Regex.find_literal, less, slash, body, size, size', open_eq, slash_opens_close]
  simp only [Regex.find_seq, Regex.find_group, Regex.find_alt, Regex.find_literal, Regex.find_empty]
  cases text with
  | nil => rfl
  | cons c rest =>
    by_cases starts : c = LESS_THAN
    · subst starts
      have here : [LESS_THAN] <+: LESS_THAN :: rest := List.prefix_append [LESS_THAN] rest
      rw [if_pos here]
      simp only [List.cons_prefix_cons, true_and, List.length_cons, List.length_nil, List.drop_succ_cons, List.drop_zero]
      cases rest with
      | nil => rfl
      | cons d rest =>
        by_cases closes : d = SLASH
        · subst closes
          have closing : [SLASH] <+: SLASH :: rest := List.prefix_append [SLASH] rest
          rw [if_pos closing, if_neg (open_not_slash rest)]
          simp only [Function.comp_apply, Run.captured, Run.followedBy, List.drop_succ_cons, List.drop_zero, true_and,
            List.cons_prefix_cons, Run.still]
          show (if openRest <+: rest then _ else none).or (if openRest <+: SLASH :: rest then _ else none) =
            if openRest <+: rest then _ else none
          rw [if_neg (open_not_slash rest), Option.or_none]
          rfl
        · have other : ¬[SLASH] <+: d :: rest := fun same => closes (List.cons_prefix_cons.mp same).1.symm
          have other' : ¬(SLASH = d ∧ openRest <+: rest) := fun same => closes same.1.symm
          rw [if_neg other, Option.none_or]
          simp only [Function.comp_apply, Run.captured, Run.followedBy, Run.still, List.cons_prefix_cons, if_neg other']
          rfl
    · have other : ¬LESS_THAN = c := Ne.symm starts
      simp only [List.cons_prefix_cons, other, false_and, ↓reduceIte]

/-- A text is read marker by marker, and unit by unit between them. -/
theorem marked_induction {P : Text → Prop} (nothing : P []) (opened : ∀ rest, P rest → P (THINK_OPEN_TAG ++ rest))
    (closed : ∀ rest, P rest → P (THINK_CLOSE_TAG ++ rest))
    (plain : ∀ c rest, (∀ marker, IsMarker marker → ¬marker <+: c :: rest) → P rest → P (c :: rest)) (text : Text) : P text := by
  induction size : text.length using Nat.strong_induction_on generalizing text with
  | _ size ih =>
    subst size
    have shorter (marker rest : Text) (known : IsMarker marker) : rest.length < (marker ++ rest).length := by
      obtain ⟨body, same, _⟩ := known.cons
      rw [same, List.length_append, List.length_cons]
      omega
    by_cases opens : THINK_OPEN_TAG <+: text
    · obtain ⟨rest, same⟩ := opens
      subst same
      exact opened rest (ih _ (shorter _ rest (.inl rfl)) rest rfl)
    · by_cases closes : THINK_CLOSE_TAG <+: text
      · obtain ⟨rest, same⟩ := closes
        subst same
        exact closed rest (ih _ (shorter _ rest (.inr rfl)) rest rfl)
      · cases text with
        | nil => exact nothing
        | cons c rest =>
          refine plain c rest ?_ (ih rest.length (Nat.lt_succ_self _) rest rfl)
          rintro marker (same | same)
          · rw [same]
            exact opens
          · rw [same]
            exact closes

theorem close_not_open (rest : Text) : ¬THINK_OPEN_TAG <+: THINK_CLOSE_TAG ++ rest := by
  rw [open_eq, slash_opens_close]
  exact fun starts => open_not_slash _ (List.cons_prefix_cons.mp starts).2

variable {opened closed : List Text}

theorem markerRun_open (rest : Text) : markerRun opened closed (THINK_OPEN_TAG ++ rest) = some ⟨THINK_OPEN_TAG, rest, opened⟩ := by
  unfold markerRun
  rw [if_pos (List.prefix_append _ _), List.drop_left]

theorem markerRun_close (rest : Text) :
    markerRun opened closed (THINK_CLOSE_TAG ++ rest) = some ⟨THINK_CLOSE_TAG, rest, closed⟩ := by
  unfold markerRun
  rw [if_neg (close_not_open rest), if_pos (List.prefix_append _ _), List.drop_left]

theorem markerRun_plain (plain : ∀ marker, IsMarker marker → ¬marker <+: text) : markerRun opened closed text = none := by
  unfold markerRun
  rw [if_neg (plain _ (.inl rfl)), if_neg (plain _ (.inr rfl))]

theorem safe_apart {regex : Regex CodeUnit} (reads : ∀ text, regex.first text = markerRun opened closed text) (text rest : Text) :
    regex.Apart (safeOf text) (heldOf text ++ rest) := by
  intro tail some ends
  have cut {marker : Text} (starts : marker <+: tail) :
      (tail ++ (heldOf text ++ rest)).drop marker.length = tail.drop marker.length ++ (heldOf text ++ rest) :=
    List.drop_append_of_le_length starts.length_le
  rw [reads, reads]
  unfold markerRun
  simp only [marker_apart (.inl rfl) some ends, marker_apart (.inr rfl) some ends]
  by_cases opens : THINK_OPEN_TAG <+: tail
  · rw [if_pos opens, if_pos opens, cut opens]
    rfl
  · rw [if_neg opens, if_neg opens]
    by_cases closes : THINK_CLOSE_TAG <+: tail
    · rw [if_pos closes, if_pos closes, cut closes]
      rfl
    · rw [if_neg closes, if_neg closes]
      rfl

end Matches

/-! ### Escaping -/

section Escape
variable {text rest : Text}

theorem escapedMarker_blind : Regex.Blind escapedMarker := fun _ _ _ _ => rfl

theorem escape_eq (text : Text) : escapeThinkMarkers text = thinkMarker.replace text escapedMarker := by
  unfold escapeThinkMarkers
  split
  · rename_i none
    rw [none]
    rfl
  · rfl

theorem escape_open (rest : Text) : escapeThinkMarkers (THINK_OPEN_TAG ++ rest) =
    LESS_THAN :: ZERO_WIDTH_SPACE :: openRest ++ escapeThinkMarkers rest := by
  have taken := (marker_first (THINK_OPEN_TAG ++ rest)).trans (markerRun_open rest)
  rw [escape_eq, escape_eq, Regex.replace_found escapedMarker_blind taken (IsMarker.ne_nil (.inl rfl))]
  congr 1

theorem escape_close (rest : Text) : escapeThinkMarkers (THINK_CLOSE_TAG ++ rest) =
    LESS_THAN :: ZERO_WIDTH_SPACE :: SLASH :: openRest ++ escapeThinkMarkers rest := by
  have taken := (marker_first (THINK_CLOSE_TAG ++ rest)).trans (markerRun_close rest)
  rw [escape_eq, escape_eq, Regex.replace_found escapedMarker_blind taken (IsMarker.ne_nil (.inr rfl))]
  congr 1

theorem escape_plain {c : CodeUnit} (plain : ∀ marker, IsMarker marker → ¬marker <+: c :: rest) :
    escapeThinkMarkers (c :: rest) = c :: escapeThinkMarkers rest := by
  have fails := (marker_first (c :: rest)).trans (markerRun_plain plain)
  rw [escape_eq, escape_eq, Regex.replace_plain escapedMarker_blind fails]

theorem escape_safe (text rest : Text) :
    escapeThinkMarkers (text ++ rest) = escapeThinkMarkers (safeOf text) ++ escapeThinkMarkers (heldOf text ++ rest) := by
  have apart := safe_apart marker_first text rest
  have split : text ++ rest = safeOf text ++ (heldOf text ++ rest) := by rw [← List.append_assoc, safe_held]
  have nothing : thinkMarker.first [] = none := (marker_first []).trans (by decide)
  rw [escape_eq, escape_eq, escape_eq, split, Regex.replace_append escapedMarker_blind apart nothing]

theorem stream_escapes (escaper : ThinkMarkerEscaper) (chunks : List Text) :
    escaper.stream chunks = escapeThinkMarkers (escaper.pending ++ chunks.flatten) := by
  induction chunks generalizing escaper with
  | nil =>
    rw [List.flatten_nil, List.append_nil]
    rfl
  | cons chunk rest ih =>
    unfold ThinkMarkerEscaper.stream
    rw [ih, List.flatten_cons, ← List.append_assoc]
    by_cases empty : chunk = []
    · subst empty
      rw [List.append_nil]
      rfl
    · unfold ThinkMarkerEscaper.push
      rw [if_neg empty]
      exact (escape_safe (escaper.pending ++ chunk) rest.flatten).symm

/-! ### Escaped text holds no marker -/

theorem escape_front {body : Text} (plain : LESS_THAN ∉ body) (text : Text) (starts : body <+: escapeThinkMarkers text) :
    body <+: text := by
  induction body generalizing text with
  | nil => exact List.nil_prefix
  | cons c body ih =>
    have other : c ≠ LESS_THAN := fun same => plain (same ▸ List.mem_cons_self)
    induction text using marked_induction with
    | nothing => exact starts
    | opened rest _ =>
      rw [escape_open] at starts
      exact (other (List.cons_prefix_cons.mp starts).1).elim
    | closed rest _ =>
      rw [escape_close] at starts
      exact (other (List.cons_prefix_cons.mp starts).1).elim
    | plain d rest none _ =>
      rw [escape_plain none] at starts
      obtain ⟨same, later⟩ := List.cons_prefix_cons.mp starts
      exact List.cons_prefix_cons.mpr ⟨same, ih (fun member => plain (List.mem_cons_of_mem _ member)) rest later⟩

theorem not_infix_append {marker before after : Text} (known : IsMarker marker) (units : LESS_THAN ∉ before)
    (later : ¬marker <:+: after) : ¬marker <:+: before ++ after := by
  induction before with
  | nil => exact later
  | cons c before ih =>
    rw [List.cons_append, List.infix_cons_iff]
    rintro (starts | inside)
    · obtain ⟨body, same, _⟩ := known.cons
      rw [same] at starts
      exact units ((List.cons_prefix_cons.mp starts).1 ▸ List.mem_cons_self)
    · exact ih (fun member => units (List.mem_cons_of_mem _ member)) inside

/-- The zero width space keeps the front of an escaped marker from being one. -/
theorem not_infix_escaped {marker before after : Text} (known : IsMarker marker) (units : LESS_THAN ∉ before)
    (later : ¬marker <:+: after) : ¬marker <:+: LESS_THAN :: (ZERO_WIDTH_SPACE :: before ++ after) := by
  have inert : ¬marker <+: LESS_THAN :: (ZERO_WIDTH_SPACE :: before ++ after) := by
    rcases known with same | same
    · have second : THINK_OPEN_TAG = LESS_THAN :: 0x74 :: ascii "hink>" := by decide
      rw [same, second]
      exact fun starts => absurd (List.cons_prefix_cons.mp (List.cons_prefix_cons.mp starts).2).1 (by decide)
    · rw [same, slash_opens_close]
      exact fun starts => absurd (List.cons_prefix_cons.mp (List.cons_prefix_cons.mp starts).2).1 (by decide)
  rw [List.infix_cons_iff]
  rintro (starts | inside)
  · exact inert starts
  · refine not_infix_append known (fun member => ?_) later inside
    rcases List.mem_cons.mp member with same | member
    · exact absurd same (by decide)
    · exact units member

theorem escape_free {marker : Text} (known : IsMarker marker) (text : Text) : ¬marker <:+: escapeThinkMarkers text := by
  induction text using marked_induction with
  | nothing =>
    obtain ⟨body, same, _⟩ := known.cons
    rw [same]
    exact fun inside => absurd (List.infix_nil.mp inside) (List.cons_ne_nil _ _)
  | opened rest ih =>
    rw [escape_open]
    exact not_infix_escaped known (by decide) ih
  | closed rest ih =>
    rw [escape_close]
    exact not_infix_escaped known (List.not_mem_cons_of_ne_of_not_mem (by decide) (by decide)) ih
  | plain c rest none ih =>
    rw [escape_plain none, List.infix_cons_iff]
    rintro (starts | inside)
    · obtain ⟨body, same, plain⟩ := known.cons
      rw [same] at starts
      obtain ⟨first, later⟩ := List.cons_prefix_cons.mp starts
      refine none marker known ?_
      rw [same]
      exact List.cons_prefix_cons.mpr ⟨first, escape_front plain rest later⟩
    · exact ih inside

end Escape

/-! ### The scan for what is visible -/

section Scan
variable {text rest piece visible : Text} {depth index : Nat}

/-- The scan of a text from a depth on: the depth it ends at, and what it shows. -/
def scanText (depth : Nat) (text : Text) : Nat × Text := scanPieces depth [] (THINK_TAG_TOKENS.split text)

/-- A scan that has shown some text before. -/
def shownAfter (before : Text) (scanned : Nat × Text) : Nat × Text := (scanned.1, before ++ scanned.2)

/-- The scan of the tokens, one at a time. -/
def scanTokens : (depth : Nat) → List (Token CodeUnit) → Nat × Text
  | depth, [] => (depth, [])
  | depth, .plain c :: rest => if depth = 0 then shownAfter [c] (scanTokens depth rest) else scanTokens depth rest
  | depth, .found hit :: rest =>
    if hit.whole = THINK_OPEN_TAG then scanTokens (depth + 1) rest
    else if 0 < depth then scanTokens (depth - 1) rest
    else shownAfter hit.whole (scanTokens depth rest)

theorem scanTokens_plain (depth : Nat) (c : CodeUnit) (rest : List (Token CodeUnit)) :
    scanTokens depth (.plain c :: rest) = if depth = 0 then shownAfter [c] (scanTokens depth rest) else scanTokens depth rest := rfl

theorem scanTokens_found (depth : Nat) (hit : Match CodeUnit) (rest : List (Token CodeUnit)) :
    scanTokens depth (.found hit :: rest) = if hit.whole = THINK_OPEN_TAG then scanTokens (depth + 1) rest
      else if 0 < depth then scanTokens (depth - 1) rest else shownAfter hit.whole (scanTokens depth rest) := rfl

/-- No marker starts inside `piece` when `text` follows. -/
def Quiet (piece text : Text) : Prop :=
  ∀ tail, tail ≠ [] → tail <:+ piece → ∀ marker, IsMarker marker → ¬marker <+: tail ++ text

theorem Quiet.nil : Quiet [] text := fun _ some ends => (some (List.suffix_nil.mp ends)).elim

theorem Quiet.ne {marker : Text} (quiet : Quiet piece text) (known : IsMarker marker) : piece ≠ marker := by
  intro same
  subst same
  exact quiet piece known.ne_nil List.suffix_rfl piece known (List.prefix_append _ _)

theorem Quiet.snoc {c : CodeUnit} (quiet : Quiet piece (c :: rest)) (plain : ∀ marker, IsMarker marker → ¬marker <+: c :: rest) :
    Quiet (piece ++ [c]) rest := by
  intro tail some ends marker known
  obtain ⟨before, same⟩ := ends
  rcases List.eq_nil_or_concat tail with none | ⟨tail, d, cons⟩
  · exact (some none).elim
  · subst cons
    rw [List.concat_eq_append, ← List.append_assoc] at same
    obtain ⟨pieces, units⟩ := List.append_inj' same rfl
    rw [List.concat_eq_append, units, List.append_assoc]
    by_cases empty : tail = []
    · subst empty
      exact plain marker known
    · exact quiet tail empty ⟨before, pieces⟩ marker known

theorem scan_piece (quiet : Quiet piece text) (pieces : List Text) : scanPieces depth visible (piece :: pieces) =
    scanPieces depth (visible ++ if depth = 0 then piece else []) pieces := by
  rw [scanPieces, if_neg (quiet.ne (.inl rfl)), if_neg (quiet.ne (.inr rfl))]
  by_cases outside : depth = 0
  · rw [if_pos outside, if_pos outside]
  · rw [if_neg outside, if_neg outside, List.append_nil]

theorem tokens_open (rest : Text) : THINK_TAG_TOKENS.lexFrom 0 index (THINK_OPEN_TAG ++ rest) =
    .found ⟨index, THINK_OPEN_TAG, [THINK_OPEN_TAG]⟩ :: THINK_TAG_TOKENS.lexFrom 0 (index + THINK_OPEN_TAG.length) rest :=
  Regex.lexFrom_some ((tokens_first _).trans (markerRun_open rest)) (IsMarker.ne_nil (.inl rfl))

theorem tokens_close (rest : Text) : THINK_TAG_TOKENS.lexFrom 0 index (THINK_CLOSE_TAG ++ rest) =
    .found ⟨index, THINK_CLOSE_TAG, [THINK_CLOSE_TAG]⟩ :: THINK_TAG_TOKENS.lexFrom 0 (index + THINK_CLOSE_TAG.length) rest :=
  Regex.lexFrom_some ((tokens_first _).trans (markerRun_close rest)) (IsMarker.ne_nil (.inr rfl))

theorem tokens_plain {c : CodeUnit} (plain : ∀ marker, IsMarker marker → ¬marker <+: c :: rest) :
    THINK_TAG_TOKENS.lexFrom 0 index (c :: rest) = .plain c :: THINK_TAG_TOKENS.lexFrom 0 (index + 1) rest :=
  Regex.lexFrom_none ((tokens_first _).trans (markerRun_plain plain))

theorem tokens_nil : THINK_TAG_TOKENS.lexFrom 0 index [] = [] := by
  have none : THINK_TAG_TOKENS.first [] = none := (tokens_first []).trans (by decide)
  rw [Regex.lexFrom, none]
  rfl

theorem close_ne_open : THINK_CLOSE_TAG ≠ THINK_OPEN_TAG := by decide

theorem scan_split (text : Text) (quiet : Quiet piece text) :
    scanPieces depth visible (Regex.splitFrom piece (THINK_TAG_TOKENS.lexFrom 0 index text)) =
      shownAfter (visible ++ if depth = 0 then piece else []) (scanTokens depth (THINK_TAG_TOKENS.lexFrom 0 index text)) := by
  induction text using marked_induction generalizing piece visible depth index with
  | nothing =>
    rw [tokens_nil, Regex.splitFrom, scan_piece quiet]
    simp [scanPieces, scanTokens, shownAfter]
  | opened rest ih =>
    rw [tokens_open, Regex.splitFrom, List.cons_append, scan_piece quiet]
    show scanPieces depth _ (THINK_OPEN_TAG :: Regex.splitFrom [] _) = _
    rw [scanPieces, if_pos rfl, ih .nil, scanTokens_found, if_pos rfl]
    simp
  | closed rest ih =>
    rw [tokens_close, Regex.splitFrom, List.cons_append, scan_piece quiet]
    show scanPieces depth _ (THINK_CLOSE_TAG :: Regex.splitFrom [] _) = _
    rw [scanPieces, if_neg close_ne_open, if_pos rfl, scanTokens_found, if_neg close_ne_open]
    by_cases inside : 0 < depth
    · rw [if_pos inside, if_pos inside, ih .nil]
      simp
    · rw [if_neg inside, if_neg inside, ih .nil]
      simp [shownAfter]
  | plain c rest none ih =>
    rw [tokens_plain none, Regex.splitFrom, ih (quiet.snoc none), scanTokens_plain]
    by_cases outside : depth = 0
    · simp [outside, shownAfter]
    · simp [outside]

theorem scanText_eq : scanText depth text = scanTokens depth (THINK_TAG_TOKENS.lex text) := by
  have split := @scan_split [] [] depth 0 text .nil
  rw [ite_self] at split
  exact split

theorem scanTokens_index {index' : Nat} (text : Text) : scanTokens depth (THINK_TAG_TOKENS.lexFrom 0 index text) =
    scanTokens depth (THINK_TAG_TOKENS.lexFrom 0 index' text) := by
  induction text using marked_induction generalizing depth index index' with
  | nothing => rw [tokens_nil, tokens_nil]
  | opened rest ih =>
    rw [tokens_open, tokens_open, scanTokens_found, if_pos rfl, scanTokens_found, if_pos rfl]
    exact ih
  | closed rest ih =>
    rw [tokens_close, tokens_close, scanTokens_found, if_neg close_ne_open, scanTokens_found, if_neg close_ne_open]
    rw [@ih (depth - 1) _ (index' + THINK_CLOSE_TAG.length), @ih depth _ (index' + THINK_CLOSE_TAG.length)]
  | plain c rest none ih =>
    rw [tokens_plain none, tokens_plain none, scanTokens_plain, scanTokens_plain, @ih _ _ (index' + 1)]

theorem scan_nil : scanText depth [] = (depth, []) := by
  rw [scanText_eq, Regex.lex, tokens_nil]
  rfl

theorem scan_open (rest : Text) : scanText depth (THINK_OPEN_TAG ++ rest) = scanText (depth + 1) rest := by
  rw [scanText_eq, scanText_eq, Regex.lex, tokens_open, scanTokens_found, if_pos rfl]
  exact scanTokens_index rest

theorem scan_close (rest : Text) : scanText depth (THINK_CLOSE_TAG ++ rest) =
    if 0 < depth then scanText (depth - 1) rest else shownAfter THINK_CLOSE_TAG (scanText depth rest) := by
  rw [scanText_eq, scanText_eq, scanText_eq, Regex.lex, tokens_close, scanTokens_found, if_neg close_ne_open]
  have index := @scanTokens_index (depth - 1) (0 + THINK_CLOSE_TAG.length) 0 rest
  have index' := @scanTokens_index depth (0 + THINK_CLOSE_TAG.length) 0 rest
  rw [index, index']
  rfl

theorem scan_plain {c : CodeUnit} (plain : ∀ marker, IsMarker marker → ¬marker <+: c :: rest) :
    scanText depth (c :: rest) = if depth = 0 then shownAfter [c] (scanText depth rest) else scanText depth rest := by
  have index := @scanTokens_index depth (0 + 1) 0 rest
  rw [scanText_eq, scanText_eq, Regex.lex, tokens_plain plain, scanTokens_plain, index]
  rfl

theorem scan_hidden (text : Text) (free : ∀ marker, IsMarker marker → ¬marker <:+: text) (rest : Text) :
    scanText (depth + 1) (text ++ LESS_THAN :: rest) = scanText (depth + 1) (LESS_THAN :: rest) := by
  induction text with
  | nil => rfl
  | cons c text ih =>
    have plain : ∀ marker, IsMarker marker → ¬marker <+: c :: text ++ LESS_THAN :: rest := fun marker known starts =>
      free marker known (marker_within known (List.cons_ne_nil c text) starts).isInfix
    rw [List.cons_append] at plain ⊢
    rw [scan_plain plain, if_neg (Nat.succ_ne_zero depth)]
    exact ih fun marker known inside => free marker known (List.infix_cons_iff.mpr (.inr inside))

theorem scan_shown (text : Text) (free : ∀ marker, IsMarker marker → ¬marker <:+: text) : scanText 0 text = (0, text) := by
  induction text with
  | nil => exact scan_nil
  | cons c text ih =>
    rw [scan_plain fun marker known starts => free marker known starts.isInfix, if_pos rfl,
      ih fun marker known inside => free marker known (List.infix_cons_iff.mpr (.inr inside))]
    rfl

end Scan

def HoldsNoMarker (text : Text) : Prop := ¬THINK_OPEN_TAG <:+: text ∧ ¬THINK_CLOSE_TAG <:+: text

instance (text : Text) : Decidable (HoldsNoMarker text) :=
  inferInstanceAs (Decidable (¬THINK_OPEN_TAG <:+: text ∧ ¬THINK_CLOSE_TAG <:+: text))

theorem HoldsNoMarker.free {text : Text} (none : HoldsNoMarker text) : ∀ marker, IsMarker marker → ¬marker <:+: text := by
  rintro marker (same | same)
  · rw [same]
    exact none.1
  · rw [same]
    exact none.2

theorem visible_answer {reasoning answer : Text} (inert : HoldsNoMarker reasoning) (plain : HoldsNoMarker answer) :
    visibleReplyText (some (THINK_OPEN_TAG ++ reasoning ++ THINK_CLOSE_TAG ++ answer)) =
      if trim answer = [] then [] else answer := by
  have marked : trim (THINK_OPEN_TAG ++ reasoning ++ THINK_CLOSE_TAG ++ answer) ≠ [] := by
    intro blank
    have space := trim_eq_nil.mp blank LESS_THAN (by
      rw [open_eq]
      exact List.mem_cons_self)
    exact absurd space (by decide)
  have scanned : scanText 0 (THINK_OPEN_TAG ++ reasoning ++ THINK_CLOSE_TAG ++ answer) = (0, answer) := by
    have hidden := @scan_hidden 0 reasoning inert.free (closeRest ++ answer)
    have closing : LESS_THAN :: (closeRest ++ answer) = THINK_CLOSE_TAG ++ answer := by
      rw [close_eq]
      rfl
    rw [closing] at hidden
    rw [List.append_assoc, List.append_assoc, scan_open, hidden, scan_close, if_pos (Nat.succ_pos 0)]
    exact scan_shown answer plain.free
  unfold visibleReplyText
  rw [Option.getD_some, if_neg marked]
  show (if trim (scanText 0 _).2 = [] then [] else (scanText 0 _).2) = _
  rw [scanned]

theorem escaped_stream_stays_inert (chunks : List Text) :
    createThinkMarkerEscaper.stream chunks = escapeThinkMarkers chunks.flatten ∧
    HoldsNoMarker (createThinkMarkerEscaper.stream chunks) ∧
    ∀ answer, HoldsNoMarker answer →
      visibleReplyText (some (THINK_OPEN_TAG ++ createThinkMarkerEscaper.stream chunks ++ THINK_CLOSE_TAG ++ answer)) =
        if ∃ c ∈ answer, isSpace c = false then answer else [] := by
  have escaped := stream_escapes createThinkMarkerEscaper chunks
  rw [show createThinkMarkerEscaper.pending = [] from rfl, List.nil_append] at escaped
  have inert : HoldsNoMarker (createThinkMarkerEscaper.stream chunks) := by
    rw [escaped]
    exact ⟨escape_free (.inl rfl) _, escape_free (.inr rfl) _⟩
  refine ⟨escaped, inert, fun answer plain => ?_⟩
  rw [visible_answer inert plain]
  by_cases shown : ∃ c ∈ answer, isSpace c = false
  · obtain ⟨c, member, seen⟩ := shown
    have some : trim answer ≠ [] := fun blank => by
      rw [trim_eq_nil.mp blank c member] at seen
      exact Bool.noConfusion seen
    rw [if_neg some, if_pos ⟨c, member, seen⟩]
  · have blank : trim answer = [] := trim_eq_nil.mpr fun c member => by
      by_contra seen
      exact shown ⟨c, member, Bool.eq_false_iff.mpr seen⟩
    rw [if_pos blank, if_neg shown]

theorem split_marker_inert :
    visibleReplyText (some (THINK_OPEN_TAG ++ createThinkMarkerEscaper.stream [ascii "a </th", ascii "ink", ascii "> b"] ++
      THINK_CLOSE_TAG ++ ascii "yes")) = if ∃ c ∈ ascii "yes", isSpace c = false then ascii "yes" else [] :=
  (escaped_stream_stays_inert [ascii "a </th", ascii "ink", ascii "> b"]).2.2 (ascii "yes") (by decide)

end Bike4Mind.Replies
