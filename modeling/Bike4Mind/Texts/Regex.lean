import Mathlib.Data.List.Infix
import Mathlib.Data.Nat.Find

/-! Patterns that are matched by backtracking: the runs of a pattern in the order they are tried, and the matches
that a scan from left to right takes. -/

namespace Texts

/-- A way to match a pattern at the front of a text. -/
structure Run (α : Type) where
  whole : List α
  rest : List α
  captures : List (List α)
  deriving DecidableEq

inductive Regex (α : Type) where
  | empty
  | unit (accepts : α → Bool)
  | seq (first second : Regex α)
  | alt (first second : Regex α)
  | star (greedy : Bool) (body : Regex α)
  | group (body : Regex α)

namespace Run
variable {α : Type}

/-- A run that takes nothing. -/
def still (text : List α) : Run α := ⟨[], text, []⟩

def followedBy (run next : Run α) : Run α := ⟨run.whole ++ next.whole, next.rest, run.captures ++ next.captures⟩

def captured (run : Run α) : Run α := { run with captures := run.whole :: run.captures }

theorem followedBy_assoc (run next last : Run α) : (run.followedBy next).followedBy last = run.followedBy (next.followedBy last) := by
  unfold followedBy
  rw [List.append_assoc, List.append_assoc]

end Run

namespace Regex
variable {α : Type}

/-- The rounds of a repetition. A round that takes nothing is not tried. -/
def rounds (greedy : Bool) (body : List α → List (Run α)) : (fuel : Nat) → List α → List (Run α)
  | 0, text => [.still text]
  | fuel + 1, text =>
    let more := ((body text).filter (! ·.whole.isEmpty)).flatMap fun run =>
      (rounds greedy body fuel run.rest).map run.followedBy
    if greedy then more ++ [.still text] else .still text :: more

def runs : Regex α → List α → List (Run α)
  | empty, text => [.still text]
  | unit _, [] => []
  | unit accepts, c :: rest => if accepts c then [⟨[c], rest, []⟩] else []
  | seq first second, text => (first.runs text).flatMap fun run => (second.runs run.rest).map run.followedBy
  | alt first second, text => first.runs text ++ second.runs text
  | star greedy body, text => rounds greedy body.runs text.length text
  | group body, text => (body.runs text).map .captured

/-- The run that a match at the front of the text takes. -/
def first (regex : Regex α) (text : List α) : Option (Run α) := (regex.runs text).head?

def literal [DecidableEq α] : List α → Regex α
  | [] => empty
  | c :: rest => seq (unit (decide <| · = c)) (literal rest)

def only [DecidableEq α] (c : α) : Regex α := unit fun d => decide (d = c)

def except [DecidableEq α] (c : α) : Regex α := unit fun d => decide (d ≠ c)

/-- One unit after another, each of its own class. -/
def sequence : List (α → Bool) → Regex α
  | [] => empty
  | accepts :: rest => seq (unit accepts) (sequence rest)

def accepted : List (α → Bool) → List α → Bool
  | [], _ => true
  | _ :: _, [] => false
  | accepts :: rest, c :: text => accepts c && accepted rest text

def optional (body : Regex α) : Regex α := alt body empty

def plus (body : Regex α) : Regex α := seq body (star true body)

end Regex

structure Match (α : Type) where
  index : Nat
  whole : List α
  captures : List (List α)
  deriving DecidableEq

inductive Token (α : Type) where
  | plain (c : α)
  | found (hit : Match α)
  deriving DecidableEq

namespace Token
variable {α : Type}

def hit? : Token α → Option (Match α)
  | plain _ => none
  | found hit => some hit

/-- What the scan read. -/
def source : Token α → List α
  | plain c => [c]
  | found hit => hit.whole

def replaced (replacement : Match α → List α) : Token α → List α
  | plain c => [c]
  | found hit => replacement hit

end Token

namespace Regex
variable {α : Type}

/-- A text as the scan sees it: its matches, and what lies between them. -/
def lexFrom (regex : Regex α) : (skipped index : Nat) → List α → List (Token α)
  | 0, index, [] => ((regex.first []).map fun run => Token.found ⟨index, run.whole, run.captures⟩).toList
  | _ + 1, _, [] => []
  | skipped + 1, index, _ :: rest => regex.lexFrom skipped (index + 1) rest
  | 0, index, c :: rest =>
    match regex.first (c :: rest) with
    | none => .plain c :: regex.lexFrom 0 (index + 1) rest
    | some run =>
      if run.whole.isEmpty then .found ⟨index, run.whole, run.captures⟩ :: .plain c :: regex.lexFrom 0 (index + 1) rest
      else .found ⟨index, run.whole, run.captures⟩ :: regex.lexFrom (run.whole.length - 1) (index + 1) rest

def lex (regex : Regex α) (text : List α) : List (Token α) := regex.lexFrom 0 0 text

/-- The matches of an `exec` loop, or of `matchAll`. -/
def matchAll (regex : Regex α) (text : List α) : List (Match α) := (regex.lex text).filterMap Token.hit?

/-- `replace` with a global pattern. -/
def replace (regex : Regex α) (text : List α) (replacement : Match α → List α) : List α :=
  (regex.lex text).flatMap (Token.replaced replacement)

/-- The pieces of `split`, with what the groups captured between them; the pattern never matches nothing. -/
def splitFrom : (piece : List α) → List (Token α) → List (List α)
  | piece, [] => [piece]
  | piece, .plain c :: rest => splitFrom (piece ++ [c]) rest
  | piece, .found hit :: rest => piece :: hit.captures ++ splitFrom [] rest

def split (regex : Regex α) (text : List α) : List (List α) := splitFrom [] (regex.lex text)

/-! ### Runs cut the text in two -/

section Cuts
variable {regex : Regex α} {body : List α → List (Run α)} {text : List α} {run : Run α}

theorem rounds_cut {greedy : Bool} (cuts : ∀ text, ∀ run ∈ body text, run.whole ++ run.rest = text) (fuel : Nat) (text : List α) :
    ∀ run ∈ rounds greedy body fuel text, run.whole ++ run.rest = text := by
  induction fuel generalizing text with
  | zero =>
    intro run tried
    rw [List.mem_singleton.mp tried]
    rfl
  | succ fuel ih =>
    intro run tried
    have either : run = .still text ∨ ∃ round ∈ body text, ∃ next ∈ rounds greedy body fuel round.rest, round.followedBy next = run := by
      unfold rounds at tried
      cases greedy <;> simp at tried <;> grind
    rcases either with same | ⟨round, first, next, later, same⟩
    · rw [same]
      rfl
    · rw [← same]
      unfold Run.followedBy
      rw [List.append_assoc, ih round.rest next later, cuts text round first]

theorem runs_cut (regex : Regex α) (text : List α) : ∀ run ∈ regex.runs text, run.whole ++ run.rest = text := by
  induction regex generalizing text with
  | empty =>
    intro run tried
    rw [List.mem_singleton.mp tried]
    rfl
  | unit accepts =>
    intro run tried
    cases text with
    | nil => cases tried
    | cons c rest =>
      unfold runs at tried
      split at tried
      · rw [List.mem_singleton.mp tried]
        rfl
      · cases tried
  | seq first second left right =>
    intro run tried
    obtain ⟨before, early, mapped⟩ := List.mem_flatMap.mp tried
    obtain ⟨after, late, same⟩ := List.mem_map.mp mapped
    rw [← same]
    unfold Run.followedBy
    rw [List.append_assoc, right before.rest after late, left text before early]
  | alt first second left right =>
    intro run tried
    rcases List.mem_append.mp tried with early | late
    · exact left text run early
    · exact right text run late
  | star greedy body ih => exact rounds_cut ih text.length text
  | group body ih =>
    intro run tried
    obtain ⟨inner, early, same⟩ := List.mem_map.mp tried
    rw [← same]
    exact ih text inner early

theorem first_cut (taken : regex.first text = some run) : run.whole ++ run.rest = text :=
  runs_cut regex text run (List.mem_of_mem_head? taken)

theorem round_shorter (cuts : ∀ text, ∀ run ∈ body text, run.whole ++ run.rest = text)
    (tried : run ∈ (body text).filter (! ·.whole.isEmpty)) : run.rest.length < text.length := by
  obtain ⟨member, moved⟩ := List.mem_filter.mp tried
  have cut := congrArg List.length (cuts text run member)
  rw [List.length_append] at cut
  have some : 0 < run.whole.length := by
    rw [List.length_pos_iff]
    simpa using moved
  omega

theorem rounds_enough {greedy : Bool} (cuts : ∀ text, ∀ run ∈ body text, run.whole ++ run.rest = text) {fuel fuel' : Nat}
    (enough : text.length ≤ fuel) (enough' : text.length ≤ fuel') :
    rounds greedy body fuel text = rounds greedy body fuel' text := by
  have none (short : text.length ≤ 0) : (body text).filter (! ·.whole.isEmpty) = [] :=
    List.eq_nil_iff_forall_not_mem.mpr fun run tried => by
      have less := round_shorter cuts tried
      omega
  induction fuel generalizing text fuel' with
  | zero =>
    cases fuel' with
    | zero => rfl
    | succ fuel' =>
      unfold rounds
      rw [none enough]
      cases greedy <;> rfl
  | succ fuel ih =>
    cases fuel' with
    | zero =>
      unfold rounds
      rw [none enough']
      cases greedy <;> rfl
    | succ fuel' =>
      have same : ((body text).filter (! ·.whole.isEmpty)).flatMap (fun run => (rounds greedy body fuel run.rest).map run.followedBy) =
          ((body text).filter (! ·.whole.isEmpty)).flatMap fun run => (rounds greedy body fuel' run.rest).map run.followedBy := by
        refine List.flatMap_congr fun run tried => ?_
        have less := round_shorter cuts tried
        have inner (short : run.rest.length ≤ 0) : (body run.rest).filter (! ·.whole.isEmpty) = [] :=
          List.eq_nil_iff_forall_not_mem.mpr fun later tried => by
            have less := round_shorter cuts tried
            omega
        rw [@ih run.rest fuel' (by omega) (by omega) inner]
      unfold rounds
      rw [same]

end Cuts

/-! ### What backtracking finds -/

section Find
variable {regex : Regex α} {text : List α} {β : Type}

/-- The first run of the pattern with which the rest succeeds. -/
def find (regex : Regex α) (next : Run α → Option β) (text : List α) : Option β := (regex.runs text).findSome? next

variable {next : Run α → Option β}

theorem first_eq_find (regex : Regex α) (text : List α) : regex.first text = regex.find some text := by
  unfold first find
  cases regex.runs text <;> rfl

theorem find_empty : find empty next text = next (.still text) := by
  show ([_] : List (Run α)).findSome? next = _
  rw [List.findSome?_cons]
  cases next (Run.still text) <;> rfl

theorem find_unit_nil {accepts : α → Bool} : find (unit accepts) next [] = none := rfl

theorem find_unit_cons {accepts : α → Bool} {c : α} {rest : List α} :
    find (unit accepts) next (c :: rest) = if accepts c then next ⟨[c], rest, []⟩ else none := by
  unfold find runs
  split
  · rw [List.findSome?_cons]
    cases next ⟨[c], rest, []⟩ <;> rfl
  · rfl

theorem findSome?_flatMap {γ δ : Type} {l : List γ} {p : γ → Bool} {f : γ → List δ} {g : δ → Option β} {h : γ → Option β}
    (same : ∀ x ∈ l, p x = true → (f x).findSome? g = h x) :
    ((l.filter p).flatMap f).findSome? g = l.findSome? fun x => if p x then h x else none := by
  induction l with
  | nil => rfl
  | cons x rest ih =>
    have later := ih fun y member => same y (List.mem_cons_of_mem _ member)
    rw [List.findSome?_cons, ← later]
    by_cases kept : p x = true
    · rw [List.filter_cons_of_pos kept, List.flatMap_cons, List.findSome?_append, same x List.mem_cons_self kept, if_pos kept]
      cases h x <;> rfl
    · rw [List.filter_cons_of_neg kept, if_neg kept]

theorem find_seq {first second : Regex α} :
    find (seq first second) next text = find first (fun run => find second (next ∘ run.followedBy) run.rest) text := by
  have flat := @findSome?_flatMap β _ _ (first.runs text) (fun _ => true) (fun run => (second.runs run.rest).map run.followedBy) next
    (fun run => find second (next ∘ run.followedBy) run.rest) fun _ _ _ => List.findSome?_map
  rw [List.filter_eq_self.mpr fun _ _ => rfl] at flat
  exact flat

theorem find_alt {first second : Regex α} : find (alt first second) next text = (find first next text).or (find second next text) :=
  List.findSome?_append

theorem find_group {body : Regex α} : find (group body) next text = find body (next ∘ Run.captured) text :=
  List.findSome?_map

theorem find_rounds {greedy : Bool} {body : Regex α} :
    (((body.runs text).filter (! ·.whole.isEmpty)).flatMap fun run =>
      (rounds greedy body.runs text.length run.rest).map run.followedBy).findSome? next =
      find body (fun run => if ! run.whole.isEmpty then find (star greedy body) (next ∘ run.followedBy) run.rest else none) text := by
  refine findSome?_flatMap fun run tried moved => ?_
  have shorter := round_shorter (runs_cut body) (List.mem_filter.mpr ⟨tried, moved⟩)
  rw [List.findSome?_map, rounds_enough (runs_cut body) shorter.le le_rfl]
  rfl

theorem find_greedy {body : Regex α} : find (star true body) next text =
    (find body (fun run => if ! run.whole.isEmpty then find (star true body) (next ∘ run.followedBy) run.rest else none) text).or
      (next (.still text)) := by
  have unfolded : runs (star true body) text = rounds true body.runs (text.length + 1) text :=
    rounds_enough (runs_cut body) le_rfl (Nat.le_succ _)
  have last : [Run.still text].findSome? next = next (.still text) := find_empty
  rw [← find_rounds, find, unfolded, rounds, if_pos rfl, List.findSome?_append, last]

theorem find_lazy {body : Regex α} : find (star false body) next text = (next (.still text)).or
    (find body (fun run => if ! run.whole.isEmpty then find (star false body) (next ∘ run.followedBy) run.rest else none) text) := by
  have unfolded : runs (star false body) text = rounds false body.runs (text.length + 1) text :=
    rounds_enough (runs_cut body) le_rfl (Nat.le_succ _)
  rw [← find_rounds, find, unfolded, rounds, if_neg Bool.false_ne_true, List.findSome?_cons]
  cases next (Run.still text) <;> rfl

/-! ### Common patterns -/

theorem find_literal [DecidableEq α] {wanted : List α} :
    find (literal wanted) next text = if wanted <+: text then next ⟨wanted, text.drop wanted.length, []⟩ else none := by
  induction wanted generalizing text next with
  | nil => exact find_empty
  | cons c wanted ih =>
    unfold literal
    rw [find_seq]
    cases text with
    | nil => rfl
    | cons d rest =>
      rw [find_unit_cons]
      by_cases same : d = c
      · subst same
        rw [if_pos (by simp), ih]
        simp only [List.prefix_cons_inj, Function.comp_apply, Run.followedBy, List.drop_succ_cons, List.length_cons]
        rfl
      · rw [if_neg (by simpa using same), if_neg fun starts => same (List.cons_prefix_cons.mp starts).1.symm]

theorem find_literal_take [DecidableEq α] (wanted : List α) (next : Run α → Option β) (text : List α) : find (literal wanted) next text =
    if decide (wanted <+: text) then next ⟨text.take wanted.length, text.drop wanted.length, []⟩ else none := by
  rw [find_literal]
  by_cases starts : wanted <+: text
  · rw [if_pos starts, if_pos (decide_eq_true starts), ← List.prefix_iff_eq_take.mp starts]
  · rw [if_neg starts, if_neg (by simpa using starts)]

theorem first_literal [DecidableEq α] {wanted : List α} :
    first (literal wanted) text = if wanted <+: text then some ⟨wanted, text.drop wanted.length, []⟩ else none := by
  rw [first_eq_find, find_literal]

theorem accepted_length {classes : List (α → Bool)} (front : accepted classes text = true) : classes.length ≤ text.length := by
  induction classes generalizing text with
  | nil => exact Nat.zero_le _
  | cons accepts classes ih =>
    cases text with
    | nil => exact Bool.noConfusion front
    | cons c rest => exact Nat.succ_le_succ (ih ((Bool.and_eq_true _ _).mp front).2)

theorem accepted_get {classes : List (α → Bool)} (front : accepted classes text = true) {i : Nat} {accepts : α → Bool}
    (at_ : classes[i]? = some accepts) : ∃ c, text[i]? = some c ∧ accepts c = true := by
  induction classes generalizing text i with
  | nil => cases at_
  | cons first classes ih =>
    cases text with
    | nil => exact Bool.noConfusion front
    | cons c rest =>
      obtain ⟨here, later⟩ := (Bool.and_eq_true _ _).mp front
      cases i with
      | zero => exact ⟨c, rfl, Option.some.inj at_ ▸ here⟩
      | succ i => exact ih later at_

theorem find_sequence {classes : List (α → Bool)} : find (sequence classes) next text =
    if accepted classes text then next ⟨text.take classes.length, text.drop classes.length, []⟩ else none := by
  induction classes generalizing text next with
  | nil => exact find_empty
  | cons accepts classes ih =>
    unfold sequence
    rw [find_seq]
    cases text with
    | nil => rfl
    | cons c rest =>
      rw [find_unit_cons, accepted]
      by_cases same : accepts c = true
      · rw [if_pos same, ih, same, Bool.true_and]
        rfl
      · rw [if_neg same, Bool.eq_false_iff.mpr same, Bool.false_and]
        rfl

/-- A repetition takes all that it can, when the rest succeeds after that if it succeeds after less. -/
theorem find_longest {accepts : α → Bool} (settled : next ⟨text.takeWhile accepts, text.dropWhile accepts, []⟩ = none →
    ∀ i ≤ (text.takeWhile accepts).length, next ⟨text.take i, text.drop i, []⟩ = none) :
    find (star true (unit accepts)) next text = next ⟨text.takeWhile accepts, text.dropWhile accepts, []⟩ := by
  induction text generalizing next with
  | nil =>
    rw [find_greedy]
    rfl
  | cons c rest ih =>
    rw [find_greedy, find_unit_cons]
    by_cases more : accepts c = true
    · rw [List.takeWhile_cons_of_pos more, List.dropWhile_cons_of_pos more] at settled ⊢
      have later := @ih (next ∘ (⟨[c], rest, []⟩ : Run α).followedBy) fun none i inside =>
        settled none (i + 1) (Nat.succ_le_succ inside)
      rw [if_pos more]
      show (find (star true (unit accepts)) _ rest).or (next (.still (c :: rest))) = _
      rw [later]
      show (next ⟨c :: rest.takeWhile accepts, rest.dropWhile accepts, []⟩).or _ = _
      cases longest : next ⟨c :: rest.takeWhile accepts, rest.dropWhile accepts, []⟩ with
      | none => exact settled longest 0 (Nat.zero_le _)
      | some found => rfl
    · rw [if_neg more, Option.none_or, List.takeWhile_cons_of_neg more, List.dropWhile_cons_of_neg more]
      rfl

theorem takeWhile_cut (accepts : α → Bool) (text : List α) :
    text.take (text.takeWhile accepts).length = text.takeWhile accepts ∧ text.drop (text.takeWhile accepts).length = text.dropWhile accepts := by
  have whole := List.takeWhile_append_dropWhile (p := accepts) (l := text)
  exact ⟨(congrArg (List.take _) whole).symm.trans List.take_left, (congrArg (List.drop _) whole).symm.trans List.drop_left⟩

/-- A repetition that the rest cannot start inside of takes all that it can. -/
theorem find_takeWhile {accepts : α → Bool} (possessive : ∀ run c rest, run.rest = c :: rest → accepts c → next run = none) :
    find (star true (unit accepts)) next text = next ⟨text.takeWhile accepts, text.dropWhile accepts, []⟩ := by
  refine find_longest fun stuck i inside => ?_
  have whole := List.takeWhile_append_dropWhile (p := accepts) (l := text)
  rcases Nat.lt_or_eq_of_le inside with less | all
  · have rest : text.drop i = (text.takeWhile accepts).drop i ++ text.dropWhile accepts := by
      conv_lhs => rw [← whole]
      exact List.drop_append_of_le_length inside
    rw [List.drop_eq_getElem_cons less, List.cons_append] at rest
    exact possessive _ _ _ rest (List.all_eq_true.mp List.all_takeWhile _ (List.getElem_mem less))
  · obtain ⟨before, after⟩ := takeWhile_cut accepts text
    rw [all, before, after]
    exact stuck

end Find

/-! ### The scan -/

section Scan
variable {regex : Regex α} {text rest : List α} {run : Run α} {c : α} {index : Nat}

theorem lexFrom_none (fails : regex.first (c :: rest) = none) :
    regex.lexFrom 0 index (c :: rest) = .plain c :: regex.lexFrom 0 (index + 1) rest := by
  rw [lexFrom, fails]

theorem lexFrom_skip {skipped : Nat} (inside : skipped ≤ text.length) :
    regex.lexFrom skipped index text = regex.lexFrom 0 (index + skipped) (text.drop skipped) := by
  induction text generalizing skipped index with
  | nil =>
    rw [Nat.le_zero.mp inside]
    rfl
  | cons c rest ih =>
    cases skipped with
    | zero => rfl
    | succ skipped =>
      rw [lexFrom, ih (Nat.le_of_succ_le_succ inside), List.drop_succ_cons, Nat.add_assoc, Nat.add_comm 1]

theorem lexFrom_some (taken : regex.first text = some run) (moved : run.whole ≠ []) :
    regex.lexFrom 0 index text =
      .found ⟨index, run.whole, run.captures⟩ :: regex.lexFrom 0 (index + run.whole.length) run.rest := by
  have cut := first_cut taken
  obtain ⟨d, whole, starts⟩ := List.exists_cons_of_ne_nil moved
  rw [starts] at cut
  have bound : run.whole.length - 1 ≤ (whole ++ run.rest).length := by
    rw [starts, List.length_append]
    simp only [List.length_cons]
    omega
  have remaining : (whole ++ run.rest).drop (run.whole.length - 1) = run.rest := by
    rw [starts, List.length_cons, Nat.add_sub_cancel]
    exact List.drop_left
  have size : index + 1 + (run.whole.length - 1) = index + run.whole.length := by
    rw [starts, List.length_cons]
    omega
  rw [← cut] at taken ⊢
  rw [List.cons_append, lexFrom, ← List.cons_append, taken]
  dsimp only
  rw [if_neg (by simpa using moved), lexFrom_skip bound, remaining, size]

/-- The scan reads the whole text, but for what it is told to skip. -/
theorem lexFrom_source {skipped : Nat} : (regex.lexFrom skipped index text).flatMap Token.source = text.drop skipped := by
  induction text generalizing skipped index with
  | nil =>
    cases skipped with
    | succ skipped => rfl
    | zero =>
      unfold lexFrom
      cases taken : regex.first [] with
      | none => rfl
      | some run =>
        have none := (List.append_eq_nil_iff.mp (first_cut taken)).1
        show run.whole ++ [] = []
        rw [none, List.append_nil]
  | cons c rest ih =>
    cases skipped with
    | succ skipped => exact ih
    | zero =>
      unfold lexFrom
      cases taken : regex.first (c :: rest) with
      | none =>
        rw [List.flatMap_cons, ih]
        rfl
      | some run =>
        dsimp only
        split
        · rename_i empty
          rw [List.flatMap_cons, List.flatMap_cons, ih]
          show run.whole ++ ([c] ++ rest) = c :: rest
          rw [List.isEmpty_iff.mp empty]
          rfl
        · rename_i moved
          obtain ⟨d, whole, starts⟩ := List.exists_cons_of_ne_nil fun none => moved (List.isEmpty_iff.mpr none)
          have cut := first_cut taken
          rw [starts, List.cons_append] at cut
          obtain ⟨same, tail⟩ := List.cons.inj cut
          rw [List.flatMap_cons, ih]
          show run.whole ++ rest.drop (run.whole.length - 1) = c :: rest
          rw [starts, List.length_cons, Nat.add_sub_cancel, ← tail, List.drop_left, same]
          rfl

/-- Every unit of the text is kept, or in the place of a match. -/
theorem mem_replace {replacement : Match α → List α} (member : c ∈ text) :
    c ∈ regex.replace text replacement ∨ ∃ hit, replacement hit ⊆ regex.replace text replacement := by
  have read := @lexFrom_source α regex text 0 0
  rw [List.drop_zero] at read
  rw [← read] at member
  obtain ⟨token, scanned, within⟩ := List.mem_flatMap.mp member
  cases token with
  | plain d => exact .inl (List.mem_flatMap.mpr ⟨_, scanned, within⟩)
  | found hit => exact .inr ⟨hit, fun d replaced => List.mem_flatMap.mpr ⟨_, scanned, replaced⟩⟩

/-- Where the scan starts to count does not matter to what looks at no index. -/
theorem lexFrom_map {β : Type} {f : Token α → β}
    (blind : ∀ index index' whole captures, f (.found ⟨index, whole, captures⟩) = f (.found ⟨index', whole, captures⟩))
    {skipped index' : Nat} : (regex.lexFrom skipped index text).map f = (regex.lexFrom skipped index' text).map f := by
  induction text generalizing skipped index index' with
  | nil =>
    cases skipped with
    | succ skipped => rfl
    | zero =>
      unfold lexFrom
      cases regex.first [] with
      | none => rfl
      | some run => exact congrArg (fun x => [x]) (blind index index' run.whole run.captures)
  | cons c rest ih =>
    cases skipped with
    | succ skipped => exact ih
    | zero =>
      unfold lexFrom
      cases regex.first (c :: rest) with
      | none => exact congrArg (f (.plain c) :: ·) ih
      | some run =>
        dsimp only
        split
        · simp only [List.map_cons]
          rw [blind index index', ih]
        · simp only [List.map_cons]
          rw [blind index index', ih]

/-- No match of the pattern reaches over the end of `before` into `after`. -/
def Apart (regex : Regex α) (before after : List α) : Prop :=
  ∀ tail, tail ≠ [] → tail <:+ before → regex.first (tail ++ after) = (regex.first tail).map fun run => { run with rest := run.rest ++ after }

theorem lexFrom_append {before after : List α} (apart : regex.Apart before after) (nothing : regex.first [] = none) {skipped : Nat}
    (inside : skipped ≤ before.length) : regex.lexFrom skipped index (before ++ after) =
      regex.lexFrom skipped index before ++ regex.lexFrom 0 (index + before.length) after := by
  induction before generalizing skipped index with
  | nil =>
    rw [Nat.le_zero.mp inside, lexFrom, nothing]
    rfl
  | cons c before ih =>
    have later : regex.Apart before after := fun tail some ends => apart tail some (ends.trans (List.suffix_cons c before))
    have size : index + (c :: before).length = index + 1 + before.length := by
      rw [List.length_cons]
      omega
    have rest (skipped : Nat) (inside : skipped ≤ before.length) := @ih (index + 1) later skipped inside
    rw [size]
    generalize regex.lexFrom 0 (index + 1 + before.length) after = others at rest ⊢
    cases skipped with
    | succ skipped => exact rest skipped (Nat.le_of_succ_le_succ inside)
    | zero =>
      have here := apart (c :: before) (List.cons_ne_nil c before) List.suffix_rfl
      rw [List.cons_append] at here ⊢
      unfold lexFrom
      rw [here]
      cases taken : regex.first (c :: before) with
      | none => exact congrArg (Token.plain c :: ·) (rest 0 (Nat.zero_le _))
      | some run =>
        have cut := congrArg List.length (first_cut taken)
        rw [List.length_append, List.length_cons] at cut
        dsimp only [Option.map_some]
        split
        · rw [rest 0 (Nat.zero_le _)]
          rfl
        · rw [rest (run.whole.length - 1) (by omega)]
          rfl

/-- The matches that a scan finds from an offset on. -/
def hitsFrom (regex : Regex α) (text : List α) (offset : Nat) : List (Match α) :=
  (regex.lexFrom 0 offset (text.drop offset)).filterMap Token.hit?

/-- `exec`, from `lastIndex` on -/
def exec (regex : Regex α) (text : List α) (lastIndex : Nat) : Option (Match α) := (regex.hitsFrom text lastIndex).head?

theorem hitsFrom_skip {offset next : Nat} (ahead : offset ≤ next) (inside : next ≤ text.length)
    (fails : ∀ i, offset ≤ i → i < next → regex.first (text.drop i) = none) : regex.hitsFrom text offset = regex.hitsFrom text next := by
  induction next, ahead using Nat.le_induction with
  | base => rfl
  | succ next ahead ih =>
    rw [ih (by omega) fun i after before => fails i after (by omega)]
    have here := fails next ahead (Nat.lt_succ_self next)
    unfold hitsFrom
    rw [List.drop_eq_getElem_cons (by omega)] at here ⊢
    rw [lexFrom_none here]
    rfl

theorem hitsFrom_none {offset : Nat} (fails : ∀ i, offset ≤ i → regex.first (text.drop i) = none) : regex.hitsFrom text offset = [] := by
  have last (far : text.length ≤ offset) : regex.hitsFrom text offset = [] := by
    have nothing := fails offset le_rfl
    unfold hitsFrom
    rw [List.drop_eq_nil_of_le far] at nothing ⊢
    rw [lexFrom, nothing]
    rfl
  rcases le_total text.length offset with far | near
  · exact last far
  · rw [hitsFrom_skip near le_rfl fun i after _ => fails i after]
    have nothing := fails text.length near
    unfold hitsFrom
    rw [List.drop_eq_nil_of_le le_rfl] at nothing ⊢
    rw [lexFrom, nothing]
    rfl

theorem hitsFrom_found {offset : Nat} (taken : regex.first (text.drop offset) = some run) (moved : run.whole ≠ []) :
    regex.hitsFrom text offset = ⟨offset, run.whole, run.captures⟩ :: regex.hitsFrom text (offset + run.whole.length) := by
  have rest : run.rest = text.drop (offset + run.whole.length) := by
    rw [← List.drop_drop, ← first_cut taken, List.drop_left]
  unfold hitsFrom
  rw [lexFrom_some taken moved, rest]
  rfl

/-- A replacement that looks at no index. -/
def Blind (replacement : Match α → List α) : Prop :=
  ∀ index index' whole captures, replacement ⟨index, whole, captures⟩ = replacement ⟨index', whole, captures⟩

section Replace
variable {replacement : Match α → List α}

theorem replace_from (blind : Blind replacement) :
    (regex.lexFrom 0 index text).flatMap (Token.replaced replacement) = regex.replace text replacement := by
  unfold replace lex
  rw [List.flatMap_def, List.flatMap_def, @lexFrom_map _ regex text index _ (Token.replaced replacement) blind 0 0]

theorem replace_plain (blind : Blind replacement) (fails : regex.first (c :: rest) = none) :
    regex.replace (c :: rest) replacement = c :: regex.replace rest replacement := by
  rw [← @replace_from _ regex rest 1 _ blind]
  unfold replace lex
  rw [lexFrom_none fails]
  rfl

theorem replace_found (blind : Blind replacement) (taken : regex.first text = some run) (moved : run.whole ≠ []) :
    regex.replace text replacement = replacement ⟨0, run.whole, run.captures⟩ ++ regex.replace run.rest replacement := by
  rw [← @replace_from _ regex run.rest (0 + run.whole.length) _ blind]
  unfold replace lex
  rw [lexFrom_some taken moved]
  rfl

theorem replace_append (blind : Blind replacement) {before after : List α} (apart : regex.Apart before after)
    (nothing : regex.first [] = none) :
    regex.replace (before ++ after) replacement = regex.replace before replacement ++ regex.replace after replacement := by
  rw [← @replace_from _ regex after (0 + before.length) _ blind]
  unfold replace lex
  rw [lexFrom_append apart nothing (Nat.zero_le _), List.flatMap_append]

end Replace

end Scan

end Regex

/-! ### Searching -/

section Search
variable {α : Type}

def searchFrom (front : List α → Bool) : (index : Nat) → List α → Option Nat
  | index, [] => if front [] then some index else none
  | index, c :: rest => if front (c :: rest) then some index else searchFrom front (index + 1) rest

/-- The first offset from `start` on at which `front` holds of the rest. -/
def search (front : List α → Bool) (text : List α) (start : Nat) : Option Nat := searchFrom front start (text.drop start)

variable {front : List α → Bool} {text : List α} {start found : Nat}

theorem searchFrom_nil (index : Nat) : searchFrom front index [] = if front [] then some index else none := rfl

theorem searchFrom_cons (index : Nat) (c : α) (rest : List α) : searchFrom front index (c :: rest) =
    if front (c :: rest) then some index else searchFrom front (index + 1) rest := rfl

theorem searchFrom_shift {index : Nat} : searchFrom front index text = (searchFrom front 0 text).map (index + ·) := by
  induction text generalizing index with
  | nil =>
    rw [searchFrom_nil, searchFrom_nil]
    split <;> rfl
  | cons c rest ih =>
    rw [searchFrom_cons, searchFrom_cons]
    split
    · rfl
    · rw [ih, @ih (0 + 1), Option.map_map]
      congr 1
      funext i
      simp only [Function.comp_apply]
      omega

theorem searchFrom_eq_some : searchFrom front 0 text = some found ↔
    front (text.drop found) = true ∧ found ≤ text.length ∧ ∀ earlier < found, front (text.drop earlier) = false := by
  induction text generalizing found with
  | nil =>
    rw [searchFrom_nil]
    by_cases here : front [] = true
    · rw [if_pos here]
      constructor
      · intro same
        cases same
        exact ⟨here, le_rfl, fun _ less => (Nat.not_lt_zero _ less).elim⟩
      · intro ⟨_, inside, _⟩
        rw [Nat.le_zero.mp inside]
    · simp [here]
  | cons c rest ih =>
    rw [searchFrom_cons]
    by_cases here : front (c :: rest) = true
    · rw [if_pos here]
      constructor
      · intro same
        cases same
        exact ⟨here, Nat.zero_le _, fun _ less => (Nat.not_lt_zero _ less).elim⟩
      · intro ⟨_, _, least⟩
        cases found with
        | zero => rfl
        | succ found => exact Bool.noConfusion (here.symm.trans (least 0 (Nat.succ_pos found)))
    · rw [if_neg here, searchFrom_shift]
      cases found with
      | zero => simp [here]
      | succ found =>
        have shifted : (searchFrom front 0 rest).map (0 + 1 + ·) = some (found + 1) ↔ searchFrom front 0 rest = some found := by
          cases searchFrom front 0 rest with
          | none => simp
          | some i => simp; omega
        rw [shifted, ih]
        constructor
        · intro ⟨starts, inside, least⟩
          refine ⟨starts, Nat.succ_le_succ inside, fun earlier less => ?_⟩
          cases earlier with
          | zero => exact Bool.eq_false_iff.mpr here
          | succ earlier => exact least earlier (by omega)
        · intro ⟨starts, inside, least⟩
          exact ⟨starts, Nat.le_of_succ_le_succ inside, fun earlier less => least (earlier + 1) (by omega)⟩

theorem searchFrom_eq_none : searchFrom front 0 text = none ↔ ∀ i ≤ text.length, front (text.drop i) = false := by
  constructor
  · intro absent i inside
    by_contra other
    have starts : front (text.drop i) = true := by simpa using other
    have somewhere : ∃ i, front (text.drop i) = true := ⟨i, starts⟩
    have first := searchFrom_eq_some.mpr ⟨Nat.find_spec somewhere, le_trans (Nat.find_min' somewhere starts) inside,
      fun _ less => Bool.eq_false_iff.mpr (Nat.find_min somewhere less)⟩
    rw [absent] at first
    cases first
  · intro absent
    cases seek : searchFrom front 0 text with
    | none => rfl
    | some i =>
      obtain ⟨starts, inside, _⟩ := searchFrom_eq_some.mp seek
      exact Bool.noConfusion (starts.symm.trans (absent i inside))

theorem search_eq_some (within : start ≤ text.length) : search front text start = some found ↔
    start ≤ found ∧ found ≤ text.length ∧ front (text.drop found) = true ∧ ∀ earlier, start ≤ earlier → earlier < found →
      front (text.drop earlier) = false := by
  unfold search
  rw [searchFrom_shift, Option.map_eq_some_iff]
  constructor
  · rintro ⟨i, seek, same⟩
    subst same
    obtain ⟨starts, inside, least⟩ := searchFrom_eq_some.mp seek
    rw [List.length_drop] at inside
    rw [List.drop_drop] at starts
    refine ⟨Nat.le_add_right _ _, by omega, starts, fun earlier after before => ?_⟩
    have apart := least (earlier - start) (by omega)
    rw [List.drop_drop, Nat.add_sub_cancel' after] at apart
    exact apart
  · intro ⟨after, inside, starts, least⟩
    refine ⟨found - start, searchFrom_eq_some.mpr ⟨?_, ?_, fun earlier before => ?_⟩, by omega⟩
    · rw [List.drop_drop, Nat.add_sub_cancel' after]
      exact starts
    · rw [List.length_drop]
      omega
    · rw [List.drop_drop]
      exact least (start + earlier) (by omega) (by omega)

theorem search_eq_none (some : front [] = false) : search front text start = none ↔ ∀ i, start ≤ i → front (text.drop i) = false := by
  unfold search
  rw [searchFrom_shift, Option.map_eq_none_iff, searchFrom_eq_none]
  constructor
  · intro absent i after
    by_cases inside : i ≤ text.length
    · have apart := absent (i - start) (by rw [List.length_drop]; omega)
      rw [List.drop_drop, Nat.add_sub_cancel' after] at apart
      exact apart
    · rw [List.drop_eq_nil_of_le (by omega)]
      exact some
  · intro absent i _
    rw [List.drop_drop]
    exact absent (start + i) (Nat.le_add_right _ _)

theorem search_within (nothing : front [] = false) (seek : search front text start = some found) : start ≤ text.length := by
  by_contra outside
  have absent := (@search_eq_none _ front text start nothing).mpr fun i after => by
    rw [List.drop_eq_nil_of_le (by omega)]
    exact nothing
  rw [seek] at absent
  cases absent

/-- A lazy repetition stops at the first place where the rest succeeds. -/
theorem Regex.find_upto {β : Type} {next : Run α → Option β} {done : Run α → β}
    (succeeds : ∀ run, next run = if front run.rest then some (done run) else none) :
    (Regex.star false (Regex.unit fun _ => true)).find next text =
      (searchFrom front 0 text).map fun i => done ⟨text.take i, text.drop i, []⟩ := by
  induction text generalizing next done with
  | nil =>
    rw [find_lazy, succeeds, searchFrom_nil]
    show (if front [] then _ else none).or none = _
    by_cases here : front [] = true
    · rw [if_pos here, if_pos here]
      rfl
    · rw [if_neg here, if_neg here]
      rfl
  | cons c rest ih =>
    rw [find_lazy, succeeds, find_unit_cons, searchFrom_cons]
    by_cases here : front (c :: rest) = true
    · rw [if_pos here]
      show (if front (c :: rest) then _ else none).or _ = _
      rw [if_pos here]
      rfl
    · rw [if_neg here, searchFrom_shift]
      show (if front (c :: rest) then _ else none).or ((Regex.star false (Regex.unit fun _ => true)).find _ rest) = _
      have later := @ih (next ∘ (⟨[c], rest, []⟩ : Run α).followedBy) (done ∘ (⟨[c], rest, []⟩ : Run α).followedBy) fun run => succeeds _
      rw [if_neg here, Option.none_or, later, Option.map_map]
      congr 1
      funext i
      simp only [Function.comp_apply, Run.followedBy]
      rw [Nat.add_comm (0 + 1) i]
      rfl

theorem Regex.find_body {β : Type} {closer : Regex α} {size : Nat} {done : Run α → β} (closes : ∀ (next : Run α → Option β) (text : List α),
    closer.find next text = if front text then next ⟨text.take size, text.drop size, []⟩ else none) :
    (Regex.seq (Regex.group (Regex.star false (Regex.unit fun _ => true))) closer).find (some ∘ done) text =
      (searchFrom front 0 text).map fun i => done ⟨text.take (i + size), text.drop (i + size), [text.take i]⟩ := by
  rw [find_seq, find_group]
  have ends : ∀ run : Run α, ((fun run : Run α => closer.find ((some ∘ done) ∘ run.followedBy) run.rest) ∘ Run.captured) run =
      if front run.rest then some (done (run.captured.followedBy ⟨run.rest.take size, run.rest.drop size, []⟩)) else none :=
    fun run => closes _ _
  refine (find_upto ends).trans ?_
  congr 1
  funext i
  simp only [Run.captured, Run.followedBy, List.take_add, List.drop_drop, List.append_nil]

/-! ### Patterns of one size -/

/-- A pattern that takes `size` units wherever `front` holds. -/
structure Regex.Fixed (regex : Regex α) (front : List α → Bool) (size : Nat) : Prop where
  reads : ∀ text, regex.first text = if front text then some ⟨text.take size, text.drop size, []⟩ else none
  fits : ∀ text, front text = true → size ≤ text.length
  moves : 0 < size

namespace Regex.Fixed
variable {regex : Regex α} {size : Nat}

theorem front_nil (fixed : regex.Fixed front size) : front [] = false := by
  by_contra other
  have fits := fixed.fits [] (by simpa using other)
  have moves := fixed.moves
  rw [List.length_nil] at fits
  omega

theorem hits_none (fixed : regex.Fixed front size) (absent : search front text start = none) : regex.hitsFrom text start = [] := by
  refine hitsFrom_none fun i after => ?_
  rw [fixed.reads, (search_eq_none fixed.front_nil).mp absent i after]
  rfl

theorem hits_some (fixed : regex.Fixed front size) (seek : search front text start = some found) :
    regex.hitsFrom text start = ⟨found, (text.drop found).take size, []⟩ :: regex.hitsFrom text (found + size) := by
  have within := search_within fixed.front_nil seek
  obtain ⟨ahead, inside, starts, least⟩ := (search_eq_some within).mp seek
  have fits := fixed.fits _ starts
  have taken : regex.first (text.drop found) = some ⟨(text.drop found).take size, (text.drop found).drop size, []⟩ := by
    rw [fixed.reads, if_pos starts]
  have width : ((text.drop found).take size).length = size := by
    rw [List.length_take]
    omega
  have moved : (text.drop found).take size ≠ [] := by
    rw [← List.length_pos_iff, width]
    exact fixed.moves
  rw [hitsFrom_skip ahead inside fun i after before => by
    rw [fixed.reads, least i after before]
    rfl, hitsFrom_found taken moved, width]

theorem exec_index (fixed : regex.Fixed front size) : (regex.exec text start).map (·.index) = search front text start := by
  unfold exec
  cases seek : search front text start with
  | none => rw [fixed.hits_none seek]; rfl
  | some found => rw [fixed.hits_some seek]; rfl

/-- Where no two occurrences overlap, the scan finds them all, in order. -/
theorem indices (fixed : regex.Fixed front size)
    (apart : ∀ text p, front text = true → 0 < p → p < size → front (text.drop p) = false) (text : List α) (start : Nat) :
    ((regex.hitsFrom text start).map (·.index)).Pairwise (· < ·) ∧
      ∀ q, q ∈ (regex.hitsFrom text start).map (·.index) ↔ start ≤ q ∧ front (text.drop q) = true := by
  induction left : text.length + 1 - start using Nat.strong_induction_on generalizing start with
  | _ left ih =>
    subst left
    cases seek : search front text start with
    | none =>
      rw [fixed.hits_none seek]
      refine ⟨List.Pairwise.nil, fun q => iff_of_false (List.not_mem_nil) ?_⟩
      rintro ⟨after, starts⟩
      exact Bool.noConfusion (starts.symm.trans ((search_eq_none fixed.front_nil).mp seek q after))
    | some found =>
      have within := search_within fixed.front_nil seek
      obtain ⟨ahead, inside, starts, least⟩ := (search_eq_some within).mp seek
      have moves := fixed.moves
      obtain ⟨sorted, all⟩ := ih (text.length + 1 - (found + size)) (by omega) (found + size) rfl
      rw [fixed.hits_some seek, List.map_cons]
      refine ⟨List.pairwise_cons.mpr ⟨fun q member => ?_, sorted⟩, fun q => ?_⟩
      · have later := ((all q).mp member).1
        dsimp only
        omega
      · rw [List.mem_cons, all q]
        constructor
        · rintro (same | ⟨after, here⟩)
          · exact same ▸ ⟨ahead, starts⟩
          · exact ⟨by omega, here⟩
        · rintro ⟨after, here⟩
          by_cases same : q = found
          · exact .inl same
          · refine .inr ⟨?_, here⟩
            by_contra near
            have late : found < q := by
              by_contra early
              exact Bool.noConfusion (here.symm.trans (least q after (by omega)))
            have none := apart (text.drop found) (q - found) starts (by omega) (by omega)
            rw [List.drop_drop, Nat.add_sub_cancel' late.le] at none
            exact Bool.noConfusion (here.symm.trans none)

end Regex.Fixed

section IndexOf
variable [DecidableEq α] {wanted : List α}

/-- `text.indexOf(wanted, start)` -/
def indexOf (wanted text : List α) (start : Nat) : Option Nat := search (fun text => decide (wanted <+: text)) text start

theorem indexOf_eq_some (within : start ≤ text.length) : indexOf wanted text start = some found ↔
    start ≤ found ∧ found ≤ text.length ∧ wanted <+: text.drop found ∧ ∀ earlier, start ≤ earlier → earlier < found →
      ¬wanted <+: text.drop earlier := by
  unfold indexOf
  simp only [search_eq_some within, decide_eq_true_eq, decide_eq_false_iff_not]

theorem indexOf_bounds (within : start ≤ text.length) (seek : indexOf wanted text start = some found) :
    start ≤ found ∧ found + wanted.length ≤ text.length := by
  obtain ⟨after, inside, starts, _⟩ := (indexOf_eq_some within).mp seek
  have fits := starts.length_le
  rw [List.length_drop] at fits
  omega

theorem indexOf_eq_none (some : wanted ≠ []) : indexOf wanted text start = none ↔ ∀ i, start ≤ i → ¬wanted <+: text.drop i := by
  have nothing : (fun text => decide (wanted <+: text)) [] = false := decide_eq_false fun starts => some (List.prefix_nil.mp starts)
  unfold indexOf
  rw [search_eq_none nothing]
  simp only [decide_eq_false_iff_not]

theorem indexOf_drop (text : List α) (start : Nat) : indexOf wanted text start = (indexOf wanted (text.drop start) 0).map (start + ·) :=
  searchFrom_shift

theorem indexOf_unit {c d : α} {rest : List α} :
    indexOf [c] (d :: rest) 0 = if d = c then some 0 else (indexOf [c] rest 0).map (· + 1) := by
  unfold indexOf search
  rw [List.drop_zero, List.drop_zero, searchFrom_cons, searchFrom_shift]
  by_cases same : d = c
  · subst same
    have here : [d] <+: d :: rest := List.prefix_append [d] rest
    rw [if_pos rfl, if_pos (decide_eq_true here)]
  · have other : ¬[c] <+: d :: rest := fun starts => same (List.cons_prefix_cons.mp starts).1.symm
    rw [if_neg same, if_neg (by simpa using other)]
    congr 1
    funext i
    exact Nat.add_comm (0 + 1) i

theorem Regex.find_through {β : Type} {next : Run α → Option β} {c : α} :
    (Regex.seq (Regex.star true (Regex.except c)) (Regex.only c)).find next text =
      (indexOf [c] text 0).bind fun i => next ⟨text.take (i + 1), text.drop (i + 1), []⟩ := by
  have stops : ∀ (run : Run α) d rest, run.rest = d :: rest → decide (d ≠ c) = true →
      (Regex.only c).find (next ∘ run.followedBy) run.rest = none := by
    intro run d rest same other
    rw [same, only, find_unit_cons, if_neg]
    simpa using other
  rw [find_seq, except, find_takeWhile stops]
  induction text generalizing next with
  | nil => rfl
  | cons d rest ih =>
    rw [indexOf_unit]
    by_cases same : d = c
    · subst same
      simp only [List.takeWhile_cons, List.dropWhile_cons, ne_eq, not_true_eq_false, decide_false, Bool.false_eq_true, ↓reduceIte]
      rw [only, find_unit_cons, if_pos (decide_eq_true rfl), Option.bind_some]
      rfl
    · have later := @ih (next ∘ (⟨[d], rest, []⟩ : Run α).followedBy) fun run e rest' same' other => by
        rw [same', only, find_unit_cons, if_neg]
        simpa using other
      rw [if_neg same, Option.bind_map]
      simp only [List.takeWhile_cons, List.dropWhile_cons, ne_eq, same, not_false_eq_true, decide_true, ↓reduceIte]
      exact later

end IndexOf

end Search

end Texts
