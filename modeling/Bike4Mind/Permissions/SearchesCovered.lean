import Bike4Mind.Permissions.PathRules

/-! Rules decide soundly about a recursive search: the folder of a glob holds all that the glob matches, and a glob covers all beneath what it matches. -/

namespace Bike4Mind.Permissions

open Texts Regex

/-! ### What globs match -/

section Globs
variable {glob taken rest file : Text}

theorem anything_takes : anything.Takes taken rest := takes_star_unit.mpr fun _ _ => rfl

theorem segment_takes : (star true (unit notSlash)).Takes taken rest ↔ SLASH ∉ taken := by
  rw [takes_star_unit]
  unfold notSlash
  constructor
  · intro all inside
    simpa using all SLASH inside
  · intro apart c inside
    simpa using fun same : c = SLASH => apart (same ▸ inside)

theorem star_wild : isWild STAR = true := rfl

theorem question_wild : isWild QUESTION = true := rfl

theorem plain_unit {c : CodeUnit} (star : c ≠ STAR) (question : c ≠ QUESTION) : isWild c = false := by
  simp [isWild, star, question]

theorem wild_front {c : CodeUnit} (wild : isWild c = true) (rest : Text) : (c :: rest).takeWhile (! isWild ·) = [] := by
  rw [List.takeWhile_cons_of_neg]
  simp [wild]

theorem glob_prefix (takes : (globSource glob).Takes taken rest) : glob.takeWhile (! isWild ·) <+: taken := by
  fun_induction globSource glob generalizing taken with
  | case1 => exact List.nil_prefix
  | case2 later ih | case3 later apart ih | case4 | case5 later apart ih | case6 =>
    rw [wild_front star_wild]
    exact List.nil_prefix
  | case7 more apart ih =>
    rw [wild_front question_wild]
    exact List.nil_prefix
  | case8 c more star question ih =>
    obtain ⟨front, back, rfl, early, late⟩ := takes_seq.mp takes
    rw [takes_only.mp early, List.takeWhile_cons_of_pos (by simp [plain_unit star question])]
    exact List.prefix_cons_inj c |>.mpr (ih late)

theorem glob_plain (plain : ∀ c ∈ glob, isWild c = false) (takes : (globSource glob).Takes taken rest) : taken = glob := by
  fun_induction globSource glob generalizing taken with
  | case1 => exact takes_empty.mp takes
  | case2 later ih | case3 later apart ih | case4 | case5 later apart ih | case6 =>
    exact absurd (plain STAR List.mem_cons_self) (by decide)
  | case7 more apart ih => exact absurd (plain QUESTION List.mem_cons_self) (by decide)
  | case8 c more star question ih =>
    obtain ⟨front, back, rfl, early, late⟩ := takes_seq.mp takes
    rw [takes_only.mp early, ih (fun d inside => plain d (List.mem_cons_of_mem c inside)) late]
    rfl

theorem glob_everything (some : glob ≠ []) (ends : ¬[SLASH] <:+ glob) (takes : (globSource glob).Takes [] rest) (file : Text) :
    ∃ front back, file = front ++ back ∧ (globSource glob).Takes front back ∧ (back = [] ∨ ∃ more, back = SLASH :: more) := by
  fun_induction globSource glob with
  | case1 => exact (some rfl).elim
  | case2 later ih =>
    obtain ⟨front, back, same, early, late⟩ := takes_seq.mp takes
    obtain ⟨rfl, rfl⟩ := List.append_eq_nil_iff.mp same.symm
    have more : later ≠ [] := by
      rintro rfl
      exact ends ⟨[STAR, STAR], rfl⟩
    have ends' : ¬[SLASH] <:+ later := fun last => ends (last.trans (List.suffix_append [STAR, STAR, SLASH] later))
    obtain ⟨front, back, rfl, takes, tail⟩ := ih more ends' late
    exact ⟨front, back, rfl, takes_seq.mpr ⟨[], front, rfl, takes_rest early, takes⟩, tail⟩
  | case3 e later apart ih =>
    obtain ⟨front, back, same, early, late⟩ := takes_seq.mp takes
    obtain ⟨rfl, rfl⟩ := List.append_eq_nil_iff.mp same.symm
    exact ⟨file, [], (List.append_nil file).symm, takes_seq.mpr ⟨file, [], (List.append_nil file).symm, anything_takes, takes_rest late⟩, .inl rfl⟩
  | case4 => exact ⟨file, [], (List.append_nil file).symm, takes_seq.mpr ⟨file, [], (List.append_nil file).symm, anything_takes, takes_empty.mpr rfl⟩, .inl rfl⟩
  | case5 e later apart ih =>
    obtain ⟨front, back, same, early, late⟩ := takes_seq.mp takes
    obtain ⟨rfl, rfl⟩ := List.append_eq_nil_iff.mp same.symm
    have ends' : ¬[SLASH] <:+ e :: later := fun last => ends (last.trans (List.suffix_cons STAR _))
    obtain ⟨front, back, rfl, takes, tail⟩ := ih (List.cons_ne_nil _ _) ends' late
    exact ⟨front, back, rfl, takes_seq.mpr ⟨[], front, rfl, takes_rest early, takes⟩, tail⟩
  | case6 =>
    refine ⟨file.takeWhile notSlash, file.dropWhile notSlash, List.takeWhile_append_dropWhile.symm, ?_, ?_⟩
    · refine takes_seq.mpr ⟨_, [], (List.append_nil _).symm, segment_takes.mpr fun inside => ?_, takes_empty.mpr rfl⟩
      simpa [notSlash] using List.mem_takeWhile_imp inside
    · cases stops : file.dropWhile notSlash with
      | nil => exact .inl rfl
      | cons c more =>
        have slash := List.head_dropWhile_not notSlash (by rw [stops]; exact List.cons_ne_nil c more)
        simp only [stops, List.head_cons, notSlash, ne_eq, decide_not, Bool.not_eq_false', decide_eq_true_eq] at slash
        exact .inr ⟨more, by rw [slash]⟩
  | case7 more apart ih =>
    obtain ⟨front, back, same, early, late⟩ := takes_seq.mp takes
    obtain ⟨rfl, rfl⟩ := List.append_eq_nil_iff.mp same.symm
    obtain ⟨c, one, _⟩ := takes_unit.mp early
    cases one
  | case8 c more star question ih =>
    obtain ⟨front, back, same, early, late⟩ := takes_seq.mp takes
    obtain ⟨rfl, rfl⟩ := List.append_eq_nil_iff.mp same.symm
    cases takes_only.mp early

theorem closure_takes : (optional (seq (only SLASH) anything)).Takes taken rest ↔ taken = [] ∨ ∃ more, taken = SLASH :: more := by
  rw [takes_optional, takes_seq]
  constructor
  · rintro (⟨front, back, rfl, early, _⟩ | none)
    · exact .inr ⟨back, by rw [takes_only.mp early]; rfl⟩
    · exact .inl none
  · rintro (none | ⟨more, rfl⟩)
    · exact .inr none
    · exact .inl ⟨[SLASH], more, rfl, takes_only.mpr rfl, anything_takes⟩

/-- A file that a glob matches: what its pattern takes, or something beneath. -/
theorem glob_test : (globToRegExp glob).test file = true ↔
    ∃ front back, file = front ++ back ∧ (globSource (globPattern glob)).Takes front [] ∧ (back = [] ∨ ∃ more, back = SLASH :: more) := by
  rw [test_iff, globToRegExp, takes_seq]
  simp only [closure_takes, List.append_nil]
  constructor
  · rintro ⟨front, back, same, early, tail⟩
    exact ⟨front, back, same, takes_rest early, tail⟩
  · rintro ⟨front, back, same, early, tail⟩
    exact ⟨front, back, same, takes_rest early, tail⟩

theorem globPattern_ends (glob : Text) : ¬[SLASH] <:+ globPattern glob := by
  unfold globPattern
  split
  · rintro ⟨before, same⟩
    have last := congrArg List.getLast? same
    simp [SLASH, STAR] at last
  · assumption

/-- What a glob matches, it matches with everything beneath. -/
theorem glob_beneath (matched : (globToRegExp glob).test file = true) (more : Text) : (globToRegExp glob).test (file ++ SLASH :: more) = true := by
  obtain ⟨front, back, rfl, takes, tail⟩ := glob_test.mp matched
  refine glob_test.mpr ⟨front, back ++ SLASH :: more, List.append_assoc .., takes, .inr ?_⟩
  rcases tail with rfl | ⟨early, rfl⟩
  · exact ⟨more, rfl⟩
  · exact ⟨early ++ SLASH :: more, rfl⟩

theorem slash_source (rest : Text) : globSource (SLASH :: rest) = .seq (.only SLASH) (globSource rest) := by
  conv_lhs => unfold globSource
  rw [if_neg (by decide), if_neg (by decide)]

theorem glob_root (leads : glob = [] ∨ isAbsolute glob = true) (matched : (globToRegExp glob).test [SLASH] = true) (more : Text) :
    (globToRegExp glob).test (SLASH :: more) = true := by
  obtain ⟨front, back, same, takes, tail⟩ := glob_test.mp matched
  have ends := globPattern_ends glob
  rcases List.cons_eq_append_iff.mp same with ⟨rfl, _⟩ | ⟨front', rfl, none⟩
  · -- Only the part after the pattern took the root.
    by_cases some : globPattern glob = []
    · rw [some] at takes
      exact glob_test.mpr ⟨[], SLASH :: more, rfl, by rw [some]; exact takes_rest takes, .inr ⟨more, rfl⟩⟩
    · obtain ⟨front, back, same, takes, tail⟩ := glob_everything some ends takes (SLASH :: more)
      exact glob_test.mpr ⟨front, back, same, takes_rest takes, tail⟩
  · obtain ⟨rfl, rfl⟩ := List.append_eq_nil_iff.mp none.symm
    have starts : globPattern glob = [] ∨ ∃ rest, globPattern glob = SLASH :: rest := by
      cases glob with
      | nil => exact .inl rfl
      | cons c rest =>
        obtain rfl : c = SLASH := by simpa [isAbsolute] using leads
        right
        unfold globPattern
        split
        · exact ⟨rest ++ [STAR, STAR], rfl⟩
        · exact ⟨rest, rfl⟩
    rcases starts with empty | ⟨rest, starts⟩
    · rw [empty] at takes
      cases takes_empty.mp takes
    · rw [starts] at takes ends
      obtain ⟨front, back, same, early, late⟩ := takes_seq.mp ((slash_source rest) ▸ takes)
      rw [takes_only.mp early, List.cons_append, List.nil_append, List.cons.injEq] at same
      rw [← same.2] at late
      have some : rest ≠ [] := by
        rintro rfl
        exact ends List.suffix_rfl
      have ends' : ¬[SLASH] <:+ rest := fun last => ends (last.trans (List.suffix_cons SLASH rest))
      obtain ⟨front, back, same, takes, tail⟩ := glob_everything some ends' late more
      refine glob_test.mpr ⟨SLASH :: front, back, by rw [same]; rfl, ?_, tail⟩
      rw [starts, slash_source]
      exact takes_seq.mpr ⟨[SLASH], front, rfl, takes_only.mpr rfl, takes_rest takes⟩

end Globs

/-! ### Folders -/

/-- A path as searches and rules name a folder: absolute, without a slash at its end. -/
def NormalRoot (root : Text) : Prop := root = [SLASH] ∨ (isAbsolute root = true ∧ ¬[SLASH] <:+ root)

section Folders
variable {root other file : Text}

/-- What every path beneath a folder starts with, up to the slash. -/
def trunk (root : Text) : Text := if root = [SLASH] then [] else root

theorem trunk_cancel (normal : NormalRoot root) (normal' : NormalRoot other) (same : trunk root = trunk other) : root = other := by
  unfold trunk at same
  have filled : ∀ {path}, NormalRoot path → path ≠ [SLASH] → path ≠ [] := by
    rintro path (root | ⟨leads, _⟩) apart rfl
    · exact apart root
    · cases leads
  by_cases here : root = [SLASH]
  · by_cases there : other = [SLASH]
    · rw [here, there]
    · rw [if_pos here, if_neg there] at same
      exact (filled normal' there same.symm).elim
  · by_cases there : other = [SLASH]
    · rw [if_neg here, if_pos there] at same
      exact (filled normal here same).elim
    · rwa [if_neg here, if_neg there] at same

theorem beneath_iff (normal : NormalRoot root) : guardFormWithin root file = true ↔ file = root ∨ ∃ more, file = trunk root ++ SLASH :: more := by
  unfold guardFormWithin trunk
  rw [Bool.or_eq_true, decide_eq_true_eq, decide_eq_true_eq]
  refine or_congr Iff.rfl ?_
  rcases normal with rfl | ⟨leads, ends⟩
  · rw [if_pos List.suffix_rfl, if_pos rfl]
    constructor
    · rintro ⟨more, same⟩
      exact ⟨more, same.symm⟩
    · rintro ⟨more, same⟩
      exact ⟨more, same.symm⟩
  · have apart : root ≠ [SLASH] := fun same => ends (same ▸ List.suffix_rfl)
    rw [if_neg ends, if_neg apart]
    constructor
    · rintro ⟨more, same⟩
      exact ⟨more, by rw [← same, List.append_assoc]; rfl⟩
    · rintro ⟨more, same⟩
      exact ⟨more, by rw [same, List.append_assoc]; rfl⟩

/-- Of two folders that hold one file, one holds the other. -/
theorem folders_nested (normal : NormalRoot root) (normal' : NormalRoot other) (here : guardFormWithin root file = true)
    (there : guardFormWithin other file = true) : guardFormWithin root other = true ∨ guardFormWithin other root = true := by
  rcases (beneath_iff normal).mp here with rfl | ⟨more, same⟩
  · exact .inr there
  rcases (beneath_iff normal').mp there with rfl | ⟨more', same'⟩
  · exact .inl here
  have nested : ∀ {root other more more' : Text}, NormalRoot root → NormalRoot other → ∀ between, trunk other = trunk root ++ between →
      SLASH :: more = between ++ SLASH :: more' → guardFormWithin root other = true := by
    intro root other more more' normal normal' between split tail
    refine (beneath_iff normal).mpr ?_
    cases between with
    | nil =>
      rw [List.append_nil] at split
      exact .inl (trunk_cancel normal' normal split)
    | cons c between =>
      rw [List.cons_append, List.cons.injEq] at tail
      refine .inr ⟨between, ?_⟩
      have apart : other ≠ [SLASH] := by
        rintro rfl
        have empty : trunk [SLASH] = [] := if_pos rfl
        rw [empty] at split
        simp at split
      rw [tail.1, ← split, trunk, if_neg apart]
  rw [same] at same'
  rcases List.append_eq_append_iff.mp same' with ⟨between, split, tail⟩ | ⟨between, split, tail⟩
  · exact .inl (nested normal normal' between split tail)
  · exact .inr (nested normal' normal between split tail)

theorem trimSlashes_slash (path rest : Text) : ∃ more, path ++ SLASH :: rest = trimSlashes path ++ SLASH :: more := by
  obtain ⟨slashes, same, all⟩ := trimSlashes_split path
  cases slashes with
  | nil => exact ⟨rest, by conv_lhs => rw [same, List.append_nil]⟩
  | cons c more =>
    refine ⟨more ++ SLASH :: rest, ?_⟩
    conv_lhs => rw [same, all c List.mem_cons_self]
    simp

theorem trimSlashes_ends (path : Text) : ¬[SLASH] <:+ trimSlashes path := by
  unfold trimSlashes
  intro last
  rw [← List.reverse_prefix, List.reverse_reverse] at last
  obtain ⟨rest, same⟩ := last
  have some : path.reverse.dropWhile (· = SLASH) ≠ [] := by
    rw [← same]
    exact List.cons_ne_nil _ _
  have stops := List.head_dropWhile_not (· = SLASH) some
  simp [← same] at stops

theorem trimSlashes_absolute {path : Text} (leads : path = [] ∨ isAbsolute path = true) :
    trimSlashes path = [] ∨ isAbsolute (trimSlashes path) = true := by
  obtain ⟨slashes, same, _⟩ := trimSlashes_split path
  rcases leads with rfl | leads
  · exact .inl (List.append_eq_nil_iff.mp same.symm).1
  · cases front : trimSlashes path with
    | nil => exact .inl rfl
    | cons c rest =>
      rw [same, front] at leads
      exact .inr leads

theorem trimSlashes_kept {path : Text} (ends : ¬[SLASH] <:+ path) : trimSlashes path = path := by
  obtain ⟨slashes, same, all⟩ := trimSlashes_split path
  rcases List.eq_nil_or_concat slashes with rfl | ⟨early, last, rfl⟩
  · rw [List.append_nil] at same
    exact same.symm
  · refine (ends ⟨trimSlashes path ++ early, ?_⟩).elim
    conv_rhs => rw [same]
    rw [all last (by simp)]
    simp

theorem trimSlashes_dirname {before name : Text} (apart : SLASH ∉ name) (some : name ≠ []) (leads : before = [] ∨ isAbsolute before = true) :
    trimSlashes (dirname (before ++ SLASH :: name)) = trimSlashes before := by
  have kept : (before ++ SLASH :: name).reverse.dropWhile (· = SLASH) = name.reverse ++ SLASH :: before.reverse := by
    rw [List.reverse_append, List.reverse_cons, List.append_assoc]
    cases back : name.reverse with
    | nil => exact (some (List.reverse_eq_nil_iff.mp back)).elim
    | cons c rest =>
      have other : c ≠ SLASH := fun same => apart (List.mem_reverse.mp (by rw [back, same]; exact List.mem_cons_self))
      rw [List.cons_append, List.dropWhile_cons_of_neg (by simpa using other)]
      rfl
  have cut : (name.reverse ++ SLASH :: before.reverse).dropWhile (· ≠ SLASH) = SLASH :: before.reverse := by
    rw [List.dropWhile_append_of_pos]
    · simp
    · intro c member
      simpa using fun same : c = SLASH => apart (same ▸ List.mem_reverse.mp member)
  unfold dirname
  rw [kept, cut]
  simp only [List.reverse_eq_nil_iff, List.length_reverse, List.reverse_reverse]
  split
  · rename_i none
    rw [none]
    rfl
  · rename_i filled
    split
    · rename_i short
      obtain ⟨_, one⟩ := Bool.and_eq_true_iff.mp short
      obtain ⟨c, rfl⟩ := List.length_eq_one_iff.mp (by simpa using one)
      rcases leads with none | slash
      · exact absurd none filled
      · obtain rfl : c = SLASH := by simpa [isAbsolute] using slash
        rfl
    · rfl

theorem isAbsolute_append {path rest : Text} (leads : isAbsolute path = true) : isAbsolute (path ++ rest) = true := by
  cases path with
  | nil => cases leads
  | cons c path => exact leads

theorem takeWhile_front {p : CodeUnit → Bool} {text whole : Text} (front : text <+: whole) : text.takeWhile p <+: whole.takeWhile p := by
  obtain ⟨rest, rfl⟩ := front
  rw [List.takeWhile_append]
  split
  · exact (List.takeWhile_prefix p).trans (List.prefix_append ..)
  · exact List.prefix_rfl

theorem globPattern_front (glob : Text) : glob <+: globPattern glob := by
  unfold globPattern
  split
  · exact List.prefix_append ..
  · exact List.prefix_rfl

theorem last_slash {absolute : Text} (leads : isAbsolute absolute = true) : ∃ before name, absolute.takeWhile (! isWild ·) = before ++ SLASH :: name ∧
    SLASH ∉ name ∧ (before = [] ∨ isAbsolute before = true) := by
  obtain ⟨rest, rfl⟩ : ∃ rest, absolute = SLASH :: rest := by
    cases absolute with
    | nil => cases leads
    | cons c rest =>
      obtain rfl : c = SLASH := by simpa [isAbsolute] using leads
      exact ⟨rest, rfl⟩
  rw [List.takeWhile_cons_of_pos (by decide)]
  have inside : SLASH ∈ (SLASH :: rest.takeWhile (! isWild ·)).reverse := List.mem_reverse.mpr List.mem_cons_self
  obtain ⟨name, before, same, apart⟩ := List.eq_append_cons_of_mem inside
  have split : SLASH :: rest.takeWhile (! isWild ·) = before.reverse ++ SLASH :: name.reverse := by
    rw [← List.reverse_reverse (SLASH :: _), same]
    simp
  refine ⟨before.reverse, name.reverse, split, by simpa using apart, ?_⟩
  cases front : before.reverse with
  | nil => exact .inl rfl
  | cons c early =>
    rw [front, List.cons_append, List.cons.injEq] at split
    exact .inr (by simp [isAbsolute, ← split.1])

theorem dirname_absolute {path : Text} (leads : isAbsolute path = true) : isAbsolute (dirname path) = true := by
  unfold dirname
  generalize cut : (path.reverse.dropWhile (· = SLASH)).dropWhile (· ≠ SLASH) = kept
  have ends : kept <:+ path.reverse := cut ▸ (List.dropWhile_suffix _).trans (List.dropWhile_suffix _)
  cases kept with
  | nil => simp only [leads, if_true]; rfl
  | cons c before =>
    simp only
    split
    · rfl
    · rename_i some
      split
      · rfl
      · obtain ⟨after, same⟩ := ends
        have whole : path = before.reverse ++ c :: after.reverse := by
          rw [← List.reverse_reverse path, ← same]
          simp
        cases front : before.reverse with
        | nil => exact (some (List.reverse_eq_nil_iff.mp front)).elim
        | cons d rest =>
          rw [whole, front] at leads
          exact leads

/-- The trimmed folder of a glob leads everything that the glob matches. -/
theorem matched_leads {absolute : Text} (leads : absolute = [] ∨ isAbsolute absolute = true) (matched : (globToRegExp absolute).test file = true) :
    ∃ directory, searchRootOf absolute = (if trimSlashes directory = [] then [SLASH] else trimSlashes directory) ∧
      (directory = [] ∨ isAbsolute directory = true) ∧ (file = trimSlashes directory ∨ ∃ more, file = trimSlashes directory ++ SLASH :: more) := by
  obtain ⟨front, back, rfl, takes, tail⟩ := glob_test.mp matched
  have starts : absolute.takeWhile (! isWild ·) <+: front := (takeWhile_front (globPattern_front absolute)).trans ( glob_prefix takes)
  by_cases wild : absolute.any isWild = true
  · have leads : isAbsolute absolute = true := leads.resolve_left fun none => by simp [none] at wild
    obtain ⟨before, name, split, apart, rooted⟩ := last_slash leads
    rw [split] at starts
    refine ⟨dirname (before ++ SLASH :: (name ++ ascii "x")), ?_, ?_, ?_⟩
    · simp only [searchRootOf, if_pos wild, split, List.append_assoc, List.cons_append]
    · exact .inr (dirname_absolute (by rcases rooted with rfl | rooted; exacts [rfl, isAbsolute_append rooted]))
    · rw [trimSlashes_dirname (by simpa [ascii, SLASH] using apart) (by simp [ascii]) rooted]
      obtain ⟨more, rfl⟩ := starts
      obtain ⟨rest, same⟩ := trimSlashes_slash before (name ++ more ++ back)
      exact .inr ⟨rest, by rw [← same]; simp⟩
  · have plain : ∀ c ∈ absolute, isWild c = false := by simpa using wild
    refine ⟨absolute, by simp only [searchRootOf, if_neg wild], leads, ?_⟩
    by_cases slash : [SLASH] <:+ absolute
    · rw [List.takeWhile_eq_self_iff.mpr fun c inside => by simp [plain c inside]] at starts
      obtain ⟨rest, rfl⟩ := starts
      obtain ⟨before, rfl⟩ := slash
      obtain ⟨more, same⟩ := trimSlashes_slash before (rest ++ back)
      have trimmed : trimSlashes (before ++ [SLASH]) = trimSlashes before := by simp [trimSlashes]
      exact .inr ⟨more, by rw [trimmed, ← same]; simp⟩
    · rw [globPattern, if_neg slash] at takes
      rw [glob_plain plain takes, trimSlashes_kept slash]
      rcases tail with rfl | ⟨more, rfl⟩
      · exact .inl (List.append_nil _)
      · exact .inr ⟨more, rfl⟩

theorem searchRoot_normal {absolute : Text} {directory : Text} (leads : directory = [] ∨ isAbsolute directory = true)
    (same : searchRootOf absolute = if trimSlashes directory = [] then [SLASH] else trimSlashes directory) : NormalRoot (searchRootOf absolute) := by
  rw [same]
  split
  · exact .inl rfl
  · rename_i some
    exact .inr ⟨(trimSlashes_absolute leads).resolve_left some, trimSlashes_ends directory⟩

theorem searchRoot_holds {absolute : Text} (leads : absolute = [] ∨ isAbsolute absolute = true) (rooted : isAbsolute file = true)
    (matched : (globToRegExp absolute).test file = true) :
    NormalRoot (searchRootOf absolute) ∧ guardFormWithin (searchRootOf absolute) file = true := by
  obtain ⟨directory, same, leads, inside⟩ := matched_leads leads matched
  have normal := searchRoot_normal leads same
  refine ⟨normal, (beneath_iff normal).mpr ?_⟩
  rw [same]
  by_cases none : trimSlashes directory = []
  · rw [if_pos none]
    rw [none] at inside
    rcases inside with rfl | ⟨more, rfl⟩
    · cases rooted
    · exact .inr ⟨more, rfl⟩
  · rw [if_neg none]
    rcases inside with inside | ⟨more, inside⟩
    · exact .inl inside
    · have apart : trimSlashes directory ≠ [SLASH] := fun same => trimSlashes_ends directory (same ▸ List.suffix_rfl)
      exact .inr ⟨more, by rw [trunk, if_neg apart, inside]⟩

end Folders

/-! ### Letter case -/

/-- Lower-casing goes on one side of a slash as on the other. -/
def LowersSegments (toLowerCase : Text → Text) : Prop :=
  toLowerCase [] = [] ∧ ∀ before after, toLowerCase (before ++ SLASH :: after) = toLowerCase before ++ SLASH :: toLowerCase after

theorem within_folded {host : Host} (lowers : LowersSegments host.toLowerCase) {root candidate : Text} (normal : NormalRoot root)
    (inside : guardFormWithin root candidate = true) : within host root candidate = true := by
  unfold within Host.guardForm Host.caseFolded
  split
  · unfold guardFormWithin
    rw [Bool.or_eq_true, decide_eq_true_eq, decide_eq_true_eq]
    rcases (beneath_iff normal).mp inside with rfl | ⟨more, rfl⟩
    · exact .inl rfl
    · right
      unfold trunk
      by_cases top : root = [SLASH]
      · have slash : host.toLowerCase [SLASH] = [SLASH] := by
          have folded := lowers.2 [] []
          rwa [lowers.1] at folded
        rw [if_pos top, top, slash, if_pos List.suffix_rfl, lowers.2, lowers.1]
        exact List.prefix_append ..
      · rw [if_neg top, lowers.2]
        split
        · exact List.prefix_append ..
        · exact ⟨host.toLowerCase more, by simp⟩
  · exact inside

/-! ### Decisions -/

/-- A folder, and the paths at it and beneath it. -/
def Beneath (root file : Text) : Prop := guardFormWithin root file = true

structure AbsoluteBase (base : PathBase) : Prop where
  home : isAbsolute base.home = true
  root : ∀ root, base.root = some root → isAbsolute root = true
  cwd : ∀ cwd, base.cwd = some cwd → isAbsolute cwd = true

/-- A rule as the sources of a session compile theirs. -/
def Compiled (rule : CompiledRule) : Prop :=
  ∃ parsed list source base, AbsoluteBase base ∧ compileRule parsed list source base = some rule

/-- What a rule names about a path. -/
def RuleMatches (rule : CompiledRule) (file : Text) : Prop := coversPath rule file = true

section Rules
variable {rule : CompiledRule} {base : PathBase} {spec absolute root file : Text}

theorem absoluteGlob_leads (rooted : AbsoluteBase base) (compiled : absolutePathGlob spec base = some absolute) :
    absolute = [] ∨ isAbsolute absolute = true := by
  have trimmed : ∀ {path rest : Text}, isAbsolute path = true → (rest = [] ∨ isAbsolute rest = true) →
      trimSlashes path ++ rest = [] ∨ isAbsolute (trimSlashes path ++ rest) = true := by
    intro path rest leads tail
    rcases trimSlashes_absolute (.inr leads) with none | leads
    · rw [none]
      exact tail
    · exact .inr (isAbsolute_append leads)
  unfold absolutePathGlob at compiled
  split at compiled
  · rename_i slashes
    obtain ⟨rest, rfl⟩ := slashes
    cases compiled
    exact .inr rfl
  · split at compiled
    · rename_i tilde
      cases compiled
      apply trimmed rooted.home
      rcases tilde with rfl | ⟨rest, rfl⟩
      · exact .inl rfl
      · exact .inr rfl
    · split at compiled
      · rename_i slash
        obtain ⟨root, given, kept⟩ := Option.bind_eq_some_iff.mp compiled
        split at kept
        · cases kept
        · cases kept
          obtain ⟨rest, rfl⟩ := slash
          exact trimmed (rooted.root root given) (.inr rfl)
      · obtain ⟨cwd, given, kept⟩ := Option.bind_eq_some_iff.mp compiled
        split at kept
        · cases kept
        · cases kept
          rw [List.append_assoc, List.append_assoc]
          exact trimmed (rooted.cwd cwd given) (.inr rfl)

/-- The matcher of a compiled path rule is of one glob that starts at the root. -/
theorem compiled_path (compiled : Compiled rule) {pattern : Regex CodeUnit} {searchRoot : Text} (kind : rule.matcher = .path pattern searchRoot) :
    ∃ absolute, (absolute = [] ∨ isAbsolute absolute = true) ∧ pattern = globToRegExp absolute ∧ searchRoot = searchRootOf absolute := by
  obtain ⟨parsed, list, source, base, rooted, same⟩ := compiled
  unfold compileRule at same
  cases given : parsed.matcher with
  | path spec =>
    rw [given] at same
    obtain ⟨absolute, found, rfl⟩ := Option.map_eq_some_iff.mp same
    cases kind
    exact ⟨absolute, absoluteGlob_leads rooted found, rfl, rfl⟩
  | any | shell | domain | mcp =>
    rw [given] at same
    cases same
    cases kind

theorem normal_absolute (normal : NormalRoot root) : isAbsolute root = true := by
  rcases normal with rfl | ⟨leads, _⟩
  · rfl
  · exact leads

theorem beneath_absolute (normal : NormalRoot root) (beneath : Beneath root file) : isAbsolute file = true := by
  rcases (beneath_iff normal).mp beneath with rfl | ⟨more, rfl⟩
  · exact normal_absolute normal
  · unfold trunk
    split
    · rfl
    · exact isAbsolute_append (normal_absolute normal)

variable {set : PermissionRuleSet} {subject : PermissionSubject} {roots : List Text}

theorem touches_beneath (lowers : LowersSegments set.host.toLowerCase) (compiled : Compiled rule) (recursive : subject.recursive = true)
    (paths : subject.paths = some roots) (member : root ∈ roots) (normal : NormalRoot root) (beneath : Beneath root file)
    (matched : RuleMatches rule file) : set.touches rule subject = true := by
  unfold RuleMatches coversPath at matched
  unfold PermissionRuleSet.touches
  cases kind : rule.matcher with
  | any => rfl
  | path pattern searchRoot =>
    rw [kind] at matched
    obtain ⟨absolute, leads, rfl, rfl⟩ := compiled_path compiled kind
    obtain ⟨normal', holds⟩ := searchRoot_holds leads (beneath_absolute normal beneath) matched
    simp only [paths, Option.getD_some]
    refine List.any_eq_true.mpr ⟨root, member, ?_⟩
    have nested : (within set.host root (searchRootOf absolute) || within set.host (searchRootOf absolute) root) = true := by
      rcases folders_nested normal normal' beneath holds with inside | inside
      · rw [within_folded lowers normal inside, Bool.true_or]
      · rw [within_folded lowers normal' inside, Bool.or_true]
    rw [recursive, nested]
    exact Bool.or_true _
  | shell | domain | mcp =>
    rw [kind] at matched
    cases matched

theorem mem_byTool {tool : Text} : rule ∈ set.byTool tool ↔ rule ∈ set.rules ∧ tool ∈ rule.tools := by
  unfold PermissionRuleSet.byTool
  simp only [List.mem_flatMap, List.mem_map, List.mem_filter, decide_eq_true_eq]
  constructor
  · rintro ⟨_, there, ⟨_, ⟨named, rfl⟩, rfl⟩⟩
    exact ⟨there, named⟩
  · rintro ⟨there, named⟩
    exact ⟨rule, there, tool, ⟨named, rfl⟩, rfl⟩

theorem covers_beneath (compiled : Compiled rule) (normal : NormalRoot root) (covers : coversPath rule root = true) (beneath : Beneath root file) :
    RuleMatches rule file := by
  unfold RuleMatches
  unfold coversPath at covers ⊢
  cases kind : rule.matcher with
  | any => rfl
  | path pattern searchRoot =>
    rw [kind] at covers
    obtain ⟨absolute, leads, rfl, rfl⟩ := compiled_path compiled kind
    rcases (beneath_iff normal).mp beneath with rfl | ⟨more, rfl⟩
    · exact covers
    · unfold trunk
      by_cases top : root = [SLASH]
      · rw [if_pos top]
        exact glob_root leads (top ▸ covers) more
      · rw [if_neg top]
        exact glob_beneath covers more
  | shell | domain | mcp =>
    rw [kind] at covers
    cases covers

theorem allowing_all {rules : List CompiledRule} (paths : subject.paths = some roots) (allowed : set.allowing rules subject = some rule) :
    ∀ root ∈ roots, isProtectedPath set.host root set.guardRoots = false ∧ ∃ rule ∈ rules, coversPath rule root = true := by
  unfold PermissionRuleSet.allowing at allowed
  split at allowed
  · cases allowed
  · split at allowed
    · cases allowed
    · rw [paths] at allowed
      simp only at allowed
      split at allowed
      · cases allowed
      · rename_i clear
        split at allowed
        · rename_i all
          intro root member
          rw [not_or] at clear
          refine ⟨?_, List.any_eq_true.mp (List.all_eq_true.mp all root member)⟩
          by_contra guarded
          exact clear.2 (List.any_eq_true.mpr ⟨root, member, by simpa using guarded⟩)
        · cases allowed

end Rules

/-- Neither the path as written, nor its real place, nor its own location, is a settings file or within a protected root. -/
def OutsideProtected (set : PermissionRuleSet) (path : Text) : Prop :=
  ∃ all, spellings set.host path = some all ∧ ∀ spelling ∈ all, isSettingsFile spelling = false ∧
    ∀ guarded ∈ set.protectedRoots, guardFormWithin (set.host.guardForm guarded) (set.host.guardForm spelling) = false

theorem outside_protected {set : PermissionRuleSet} {path : Text} (clear : isProtectedPath set.host path set.guardRoots = false) :
    OutsideProtected set path := by
  unfold isProtectedPath at clear
  cases known : spellings set.host path with
  | none =>
    rw [known] at clear
    cases clear
  | some all =>
    rw [known] at clear
    refine ⟨all, known, fun spelling member => ?_⟩
    have each := List.any_eq_false.mp clear spelling member
    rw [Bool.or_eq_true, not_or] at each
    refine ⟨by simpa using each.1, fun guarded listed => ?_⟩
    by_contra inside
    exact each.2 (List.any_eq_true.mpr ⟨_, List.mem_map.mpr ⟨guarded, listed, rfl⟩, by simpa using inside⟩)

/-- A recursive search is refused when any file at or beneath its roots is one that a deny rule names, asked about when an
ask rule names it, and allowed only over what allow rules cover whole. -/
theorem searches_sound (set : PermissionRuleSet) (lowers : LowersSegments set.host.toLowerCase) (compiled : ∀ rule ∈ set.rules, Compiled rule)
    (subject : PermissionSubject) (recursive : subject.recursive = true) (roots : List Text) (paths : subject.paths = some roots)
    (normal : ∀ root ∈ roots, NormalRoot root) :
    (∀ rule ∈ set.rules, subject.tool ∈ rule.tools → ∀ root ∈ roots, ∀ file, Beneath root file → RuleMatches rule file →
      (rule.list = .deny → (set.evaluate subject).decision = some .deny) ∧
      (rule.list = .ask → (set.evaluate subject).decision = some .deny ∨ (set.evaluate subject).decision = some .ask)) ∧
    ((set.evaluate subject).decision = some .allow → ∀ root ∈ roots, OutsideProtected set root ∧
      ∃ rule ∈ set.rules, subject.tool ∈ rule.tools ∧ rule.list = .allow ∧ ∀ file, Beneath root file → RuleMatches rule file) := by
  refine ⟨fun rule there named root member file beneath matched => ?_, fun allowed root member => ?_⟩
  · have touched : set.touches rule subject = true := touches_beneath lowers (compiled rule there) recursive paths member (normal root member) beneath matched
    have listed := mem_byTool.mpr ⟨there, named⟩
    unfold PermissionRuleSet.evaluate
    simp only
    cases denied : (set.byTool subject.tool).find? fun rule => rule.list = .deny && set.touches rule subject with
    | some first => exact ⟨fun _ => rfl, fun _ => .inl rfl⟩
    | none =>
      refine ⟨fun deny => ?_, fun ask => ?_⟩
      · have missed := List.find?_eq_none.mp denied rule listed
        simp [deny, touched] at missed
      · cases asked : (set.byTool subject.tool).find? fun rule => rule.list = .ask && set.touches rule subject with
        | some first => exact .inr rfl
        | none =>
          have missed := List.find?_eq_none.mp asked rule listed
          simp [ask, touched] at missed
  · unfold PermissionRuleSet.evaluate at allowed
    simp only at allowed
    split at allowed
    · cases allowed
    · split at allowed
      · cases allowed
      · split at allowed
        · cases allowed
        · cases chosen : set.allowing ((set.byTool subject.tool).filter (·.list = .allow)) subject with
          | none =>
            rw [chosen] at allowed
            cases allowed
          | some first =>
            obtain ⟨clear, rule, among, covers⟩ := allowing_all paths chosen root member
            obtain ⟨listed, allows⟩ := List.mem_filter.mp among
            obtain ⟨there, named⟩ := mem_byTool.mp listed
            exact ⟨outside_protected clear, rule, there, named, by simpa using allows, fun file beneath =>
              covers_beneath (compiled rule there) (normal root member) covers beneath⟩

/-- A host whose paths are what they say. -/
def plainHost : Host where
  ignoresCase := true
  toLowerCase := List.map lowerCase
  realpathSyncNearest := some
  ownLocation := some

def readRule (spec : String) (list : PermissionList) : ParsedRule × PermissionList :=
  (⟨ascii spec, [ascii "grep_search"], .path (ascii spec)⟩, list)

def homeBase : PathBase := ⟨ascii "/home/u", some (ascii "/home/u/p"), some (ascii "/home/u/p")⟩

def compiledRules (rules : List (ParsedRule × PermissionList)) : List CompiledRule :=
  rules.filterMap fun rule => compileRule rule.1 rule.2 ⟨[], [], none⟩ homeBase

theorem home_spec : absolutePathGlob (ascii "~/.ssh") homeBase = some (ascii "/home/u/.ssh") := by decide

def sshRule : CompiledRule :=
  { text := ascii "~/.ssh"
    list := .deny
    source := ⟨[], [], none⟩
    tools := [ascii "grep_search"]
    matcher := .path (globToRegExp (ascii "/home/u/.ssh")) (searchRootOf (ascii "/home/u/.ssh")) }

theorem sshRule_compiled : compileRule ⟨ascii "~/.ssh", [ascii "grep_search"], .path (ascii "~/.ssh")⟩ .deny ⟨[], [], none⟩ homeBase = some sshRule := by
  unfold compileRule
  simp only [home_spec, Option.map_some]
  rfl

theorem compiledRules_ssh : compiledRules [readRule "~/.ssh" .deny] = [sshRule] := by
  have first : compileRule (readRule "~/.ssh" .deny).1 (readRule "~/.ssh" .deny).2 ⟨[], [], none⟩ homeBase = some sshRule := sshRule_compiled
  unfold compiledRules
  rw [List.filterMap_cons]
  simp only [first, List.filterMap_nil]

/-- A search from the home folder is refused when a file beneath it is. -/
theorem home_search_refused : (PermissionRuleSet.evaluate { host := plainHost, rules := compiledRules [readRule "~/.ssh" .deny] }
    { tool := ascii "grep_search", paths := some [ascii "/home/u"], recursive := true }).decision = some .deny := by
  have lowers : LowersSegments (List.map lowerCase) := ⟨rfl, fun before after => by rw [List.map_append]; rfl⟩
  have rooted : AbsoluteBase homeBase := ⟨rfl, fun root same => by cases same; rfl, fun cwd same => by cases same; rfl⟩
  have compiled : ∀ rule ∈ [sshRule], Compiled rule := by
    intro rule member
    rw [List.mem_singleton.mp member]
    exact ⟨_, _, _, homeBase, rooted, sshRule_compiled⟩
  have normal : ∀ root ∈ [ascii "/home/u"], NormalRoot root := by
    intro root member
    rw [List.mem_singleton.mp member]
    exact .inr ⟨rfl, by decide⟩
  have beneath : Beneath (ascii "/home/u") (ascii "/home/u/.ssh/id") := by
    change guardFormWithin _ _ = true
    decide
  have matched : RuleMatches sshRule (ascii "/home/u/.ssh/id") := by
    change (globToRegExp (ascii "/home/u/.ssh")).test (ascii "/home/u/.ssh/id") = true
    decide +kernel
  rw [compiledRules_ssh]
  exact ((searches_sound { host := plainHost, rules := [sshRule] } lowers compiled
    { tool := ascii "grep_search", paths := some [ascii "/home/u"], recursive := true } rfl [ascii "/home/u"] rfl normal).1
    sshRule List.mem_cons_self List.mem_cons_self (ascii "/home/u") List.mem_cons_self (ascii "/home/u/.ssh/id") beneath matched).1 rfl

/-! ### Stricter rules -/

namespace PermissionRuleSet

def strictness : Option PermissionList → Nat
  | some .allow => 0
  | none => 1
  | some .ask => 2
  | some .deny => 3

variable {set : PermissionRuleSet} {subject : PermissionSubject} {rule : CompiledRule} {rules rules' : List CompiledRule}

theorem allowing_fewer (fewer : rules' ⊆ rules) (allowed : (set.allowing rules' subject).isSome = true) :
    (set.allowing rules subject).isSome = true := by
  unfold allowing at allowed ⊢
  split at allowed
  · cases allowed
  split at allowed
  · cases allowed
  rename_i filled resolved
  rw [if_neg fun none : rules = [] => filled (List.subset_nil.mp (none ▸ fewer)), if_neg resolved]
  cases given : subject.paths with
  | some paths =>
    simp only [given] at allowed ⊢
    split at allowed
    · cases allowed
    rename_i free
    split at allowed
    · have covered : (paths.all fun path => rules.any (coversPath · path)) = true := by grind
      rw [if_neg free, if_pos covered]
      cases paths with
      | nil => exact (free (.inl rfl)).elim
      | cons path paths => exact List.find?_isSome.mpr (List.any_eq_true.mp (List.all_eq_true.mp covered path List.mem_cons_self))
    · cases allowed
  | none =>
    simp only [given] at allowed ⊢
    obtain ⟨rule, listed, touched⟩ := List.find?_isSome.mp allowed
    exact List.find?_isSome.mpr ⟨rule, fewer listed, touched⟩

/-- The verdict, from the first deny, ask and allow rule that applies. -/
def verdictOf (irreversible : Bool) : (deny ask allow : Option CompiledRule) → PermissionVerdict
  | some rule, _, _ => .decided .deny rule
  | none, some rule, _ => .decided .ask rule
  | none, none, allow => if irreversible then .none else allow.elim .none (.decided .allow)

theorem verdictOf_strictness {irreversible : Bool} {deny deny' ask ask' allow allow' : Option CompiledRule}
    (denies : deny.isSome = true → deny'.isSome = true) (asks : ask.isSome = true → ask'.isSome = true)
    (allows : allow'.isSome = true → allow.isSome = true) :
    strictness (verdictOf irreversible deny ask allow).decision ≤ strictness (verdictOf irreversible deny' ask' allow').decision := by
  cases deny <;> cases deny' <;> cases ask <;> cases ask' <;> cases allow <;> cases allow' <;> cases irreversible <;>
    simp_all [verdictOf, strictness, PermissionVerdict.decision]

/-- The first rule of a tool, of one list, that names part of the call. -/
def firstNaming (rules : List CompiledRule) (kind : PermissionList) (subject : PermissionSubject) : Option CompiledRule :=
  rules.find? fun rule => rule.list = kind && set.touches rule subject

theorem evaluate_eq : set.evaluate subject = verdictOf subject.irreversible (set.firstNaming (set.byTool subject.tool) .deny subject)
    (set.firstNaming (set.byTool subject.tool) .ask subject) (set.allowing ((set.byTool subject.tool).filter (·.list = .allow)) subject) := by
  unfold evaluate firstNaming
  dsimp only
  split
  · rename_i found
    rw [found]; rfl
  rename_i undenied
  rw [undenied]
  split <;> rename_i asked <;> rw [asked] <;> rfl

/-- More deny and ask rules, or fewer allow rules, never loosen a decision; nor does the order of the rules change it. -/
theorem evaluate_tightens (set : PermissionRuleSet) (rules' : List CompiledRule) (subject : PermissionSubject)
    (kept : ∀ rule ∈ set.rules, rule.list ≠ .allow → rule ∈ rules') (granted : ∀ rule ∈ rules', rule.list = .allow → rule ∈ set.rules) :
    strictness (set.evaluate subject).decision ≤ strictness (({ set with rules := rules' } : PermissionRuleSet).evaluate subject).decision := by
  have named (kind : PermissionList) (other : kind ≠ .allow) (found : (set.firstNaming (set.byTool subject.tool) kind subject).isSome = true) :
      (set.firstNaming (byTool { set with rules := rules' } subject.tool) kind subject).isSome = true := by
    obtain ⟨rule, member, meets⟩ := List.find?_isSome.mp found
    obtain ⟨listed, tool⟩ := mem_byTool.mp member
    have list : rule.list = kind := of_decide_eq_true (Bool.and_eq_true_iff.mp meets).1
    exact List.find?_isSome.mpr ⟨rule, mem_byTool.mpr ⟨kept rule listed (list ▸ other), tool⟩, meets⟩
  rw [evaluate_eq, evaluate_eq]
  refine verdictOf_strictness (named .deny (by decide)) (named .ask (by decide)) (@allowing_fewer set subject _ _ fun rule member => ?_)
  obtain ⟨member, kind⟩ := List.mem_filter.mp member
  obtain ⟨listed, tool⟩ := mem_byTool.mp member
  exact List.mem_filter.mpr ⟨mem_byTool.mpr ⟨granted rule listed (of_decide_eq_true kind), tool⟩, kind⟩

theorem deny_tightens :
    let rule (list : PermissionList) : CompiledRule := ⟨[], list, ⟨[], [], none⟩, [ascii "web_fetch"], .any⟩
    let decides (rules : List CompiledRule) := (PermissionRuleSet.evaluate ⟨⟨false, id, some, some⟩, rules, [], []⟩ { tool := ascii "web_fetch" }).decision
    decides [rule .allow] = some .allow ∧ decides [rule .deny, rule .allow] = some .deny ∧
      strictness (decides [rule .allow]) ≤ strictness (decides [rule .deny, rule .allow]) :=
  ⟨rfl, rfl, evaluate_tightens ⟨_, [_], _, _⟩ _ _ (fun _ member _ => .tail _ member) fun rule member kind => by
    cases member with
    | head => cases kind
    | tail _ member => exact member⟩

end PermissionRuleSet

end Bike4Mind.Permissions
