import Bike4Mind.Supersession.Partition

/-! Every superseded file leads to a servable one, unless rulings of different lakes go in a circle. -/

namespace Bike4Mind.Supersession
open Collections

/-! ### Files by id -/

section Files
variable {files files' : List SupersedableFile} {file : SupersedableFile} {id lakeId : String}

theorem filesById_get? (distinct : (files.map (·.id)).Nodup) : (filesById files).get? id = some file ↔ file ∈ files ∧ file.id = id := by
  unfold filesById
  rw [OrderedMap.get?_foldl_set distinct]
  constructor
  · rintro ⟨_, listed, same, rfl⟩
    exact ⟨listed, same⟩
  · rintro ⟨listed, same⟩
    exact ⟨file, listed, same, rfl⟩

theorem id_inj (distinct : (files.map (·.id)).Nodup) {other : SupersedableFile} (here : file ∈ files) (there : other ∈ files)
    (same : file.id = other.id) : file = other := List.inj_on_of_nodup_map distinct here there same

theorem filesById_perm (distinct : (files.map (·.id)).Nodup) (same : files.Perm files') :
    (filesById files').get? id = (filesById files).get? id := by
  apply Option.ext
  intro file
  rw [filesById_get? distinct, filesById_get? ((same.map _).nodup_iff.mp distinct), same.mem_iff]

end Files

/-! ### Rulings -/

section Rulings
variable {attributeFileToLakeIds : SupersedableFile → List String} {files files' : List SupersedableFile} {file : SupersedableFile}
  {winner : String}

variable (attributeFileToLakeIds files) in
/-- The ruling of a file's own lake names `winner`, and the rulings of that lake lead on from the file to an end. -/
def RuledBehind (file : SupersedableFile) (winner : String) : Prop :=
  winner ≠ "" ∧ ∃ lakeId, owningLake attributeFileToLakeIds file = some lakeId ∧ rulingIn file lakeId = some winner ∧
    Ends (nextRuled (filesById files) lakeId) file.id

theorem ruledBy_iff (distinct : (files.map (·.id)).Nodup) (listed : file ∈ files) :
    ruledBy attributeFileToLakeIds files file = some winner ↔
      (∃ g ∈ files, g.id = winner) ∧ RuledBehind attributeFileToLakeIds files file winner := by
  have self : (filesById files).get? file.id = some file := (filesById_get? distinct).mpr ⟨listed, rfl⟩
  have resolved (lakeId : String) (named : winner ≠ "") : resolveRuling file lakeId (filesById files) = some winner ↔
      (∃ g ∈ files, g.id = winner) ∧ rulingIn file lakeId = some winner ∧ Ends (nextRuled (filesById files) lakeId) file.id := by
    unfold resolveRuling
    cases ruling : rulingIn file lakeId with
    | none => simp
    | some other =>
      have goes (same : other = winner) : nextRuled (filesById files) lakeId file.id = some winner := by
        unfold nextRuled
        rw [self, Option.bind_some, ruling, same]
        simp [named]
      have present : (filesById files).get? other = none ↔ ¬∃ g ∈ files, g.id = other := by
        rw [Option.eq_none_iff_forall_ne_some]
        simp only [ne_eq, filesById_get? distinct]
        simp
      simp only
      split
      · rename_i missing
        constructor
        · intro none
          cases none
        · rintro ⟨inScope, same, _⟩
          cases same
          exact (present.mp missing inScope).elim
      · rename_i inScope
        rw [present, not_not] at inScope
        constructor
        · intro found
          obtain ⟨ends, same⟩ := (Option.ite_none_right_eq_some).mp found
          cases same
          rw [if_neg named] at ends
          exact ⟨inScope, rfl, .step (goes rfl) (walkEnds_sound ends)⟩
        · rintro ⟨_, same, ends⟩
          cases same
          rw [if_neg named, if_pos]
          refine @walkEnds_complete _ _ _ _ (filesById files).keys ?_ _ _ (List.nodup_singleton _) ?_ ?_ (ends.along (goes rfl))
          · intro k j next
            unfold nextRuled at next
            obtain ⟨found, _⟩ := Option.filter_eq_some_iff.mp next
            obtain ⟨g, held, _⟩ := Option.bind_eq_some_iff.mp found
            exact OrderedMap.mem_keys_iff.mpr ⟨g, held⟩
          · intro s member
            cases List.mem_singleton.mp member
            exact Relation.TransGen.single (goes rfl)
          · simp
  unfold ruledBy RuledBehind
  rw [Option.filter_eq_some_iff]
  constructor
  · rintro ⟨found, named⟩
    have named : winner ≠ "" := by simpa using named
    obtain ⟨lakeId, owned, found⟩ := Option.bind_eq_some_iff.mp found
    obtain ⟨inScope, ruling, ends⟩ := (resolved lakeId named).mp found
    exact ⟨inScope, named, lakeId, owned, ruling, ends⟩
  · rintro ⟨inScope, named, lakeId, owned, ruling, ends⟩
    refine ⟨Option.bind_eq_some_iff.mpr ⟨lakeId, owned, (resolved lakeId named).mpr ⟨inScope, ruling, ends⟩⟩, by simpa using named⟩

theorem ruledBy_perm (distinct : (files.map (·.id)).Nodup) (same : files.Perm files') (listed : file ∈ files) :
    ruledBy attributeFileToLakeIds files' file = ruledBy attributeFileToLakeIds files file := by
  have next (lakeId : String) : nextRuled (filesById files') lakeId = nextRuled (filesById files) lakeId := by
    funext id
    unfold nextRuled
    rw [filesById_perm distinct same]
  apply Option.ext
  intro winner
  rw [ruledBy_iff distinct listed, ruledBy_iff ((same.map _).nodup_iff.mp distinct) (same.mem_iff.mp listed)]
  simp only [RuledBehind, next, same.mem_iff]

end Rulings

/-! ### Winners -/

section Winners

/-- The order in which a newer file, and of two files of one time the one with the smaller id, comes last. -/
def rank (file : SupersedableFile) : WithBot Int ×ₗ (List Nat)ᵒᵈ :=
  toLex (createdAtMillis file, OrderDual.toDual (Texts.codeUnits file.id))

theorem winsOver_iff {candidate incumbent : SupersedableFile} : winsOver candidate incumbent = true ↔ rank incumbent < rank candidate := by
  unfold winsOver rank
  rw [Prod.Lex.toLex_lt_toLex]
  dsimp only
  split
  · rename_i apart
    rw [decide_eq_true_eq]
    constructor
    · exact Or.inl
    · rintro (newer | ⟨same, _⟩)
      · exact newer
      · exact (apart same.symm).elim
  · rename_i same
    rw [not_not] at same
    rw [decide_eq_true_eq, same]
    constructor
    · intro smaller
      exact Or.inr ⟨rfl, OrderDual.toDual_lt_toDual.mpr smaller⟩
    · rintro (newer | ⟨_, smaller⟩)
      · exact (lt_irrefl _ newer).elim
      · exact OrderDual.toDual_lt_toDual.mp smaller

theorem rank_inj {file other : SupersedableFile} (same : rank file = rank other) : file.id = other.id :=
  Texts.codeUnits_injective (OrderDual.toDual.injective (congrArg (fun r => (ofLex r).2) same))

/-- The files that go by an identity key. -/
def rivals (entries : List Keyed) (key : String) : List SupersedableFile :=
  (entries.filter fun entry => entry.identity.map (·.key) = some key).map (·.file)

theorem crowned_get? {winners : OrderedMap String SupersedableFile} {entry : Keyed} {key : String} : (crowned winners entry).get? key =
    if entry.identity.map (·.key) = some key then challenge rank (winners.get? key) entry.file else winners.get? key := by
  unfold crowned
  cases entry.identity with
  | none => rfl
  | some identity =>
    by_cases here : identity.key = key
    · subst here
      cases held : winners.get? identity.key with
      | none => simp [held, challenge]
      | some incumbent =>
        by_cases newer : winsOver entry.file incumbent = true
        · simp [held, challenge, newer, winsOver_iff.mp newer]
        · simp [challenge, newer, mt winsOver_iff.mpr newer, held]
    · have other : key ≠ identity.key := fun same => here same.symm
      cases held : winners.get? identity.key with
      | none => simp [held, here, OrderedMap.get?_set_other other]
      | some incumbent =>
        by_cases newer : winsOver entry.file incumbent = true <;> simp [held, here, newer, OrderedMap.get?_set_other other]

theorem winners_get? (entries : List Keyed) (key : String) : (entries.foldl crowned ∅).get? key = (rivals entries key).argmax rank := by
  have run (winners : OrderedMap String SupersedableFile) :
      (entries.foldl crowned winners).get? key = (rivals entries key).foldl (challenge rank) (winners.get? key) := by
    induction entries generalizing winners with
    | nil => rfl
    | cons entry rest ih =>
      rw [List.foldl_cons, ih, crowned_get?]
      unfold rivals
      rw [List.filter_cons]
      by_cases here : entry.identity.map (·.key) = some key
      · rw [if_pos here, if_pos (decide_eq_true here)]
        rfl
      · rw [if_neg here, if_neg fun same => here (of_decide_eq_true same)]
  rw [run, argmax_eq_foldl]
  rfl

end Winners

/-! ### Verdicts -/

section Verdicts
variable {attributeFileToLakeIds : SupersedableFile → List String}
  {sourceIdentityKeyFor : SupersedableFile → String → Option SourceIdentity} {identityTiers : Bool} {files files' : List SupersedableFile}

variable (attributeFileToLakeIds sourceIdentityKeyFor identityTiers files)

def winnersOf : OrderedMap String SupersedableFile :=
  (files.map (keyed attributeFileToLakeIds sourceIdentityKeyFor identityTiers files)).foldl crowned ∅

def verdictOf (file : SupersedableFile) : Option SupersededEntry :=
  verdict (winnersOf attributeFileToLakeIds sourceIdentityKeyFor identityTiers files)
    (keyed attributeFileToLakeIds sourceIdentityKeyFor identityTiers files file)

variable {attributeFileToLakeIds sourceIdentityKeyFor identityTiers files}

theorem servable_eq : (partitionBySupersession attributeFileToLakeIds sourceIdentityKeyFor identityTiers files).servable =
    files.filter (verdictOf attributeFileToLakeIds sourceIdentityKeyFor identityTiers files · = none) := by
  unfold partitionBySupersession
  dsimp only
  rw [List.filter_map, List.map_map]
  exact List.map_id _

theorem superseded_eq : (partitionBySupersession attributeFileToLakeIds sourceIdentityKeyFor identityTiers files).superseded =
    files.filterMap (verdictOf attributeFileToLakeIds sourceIdentityKeyFor identityTiers files) := by
  unfold partitionBySupersession
  dsimp only
  rw [List.filterMap_map]
  rfl

theorem mem_superseded {entry : SupersededEntry} :
    entry ∈ (partitionBySupersession attributeFileToLakeIds sourceIdentityKeyFor identityTiers files).superseded ↔
      ∃ file ∈ files, verdictOf attributeFileToLakeIds sourceIdentityKeyFor identityTiers files file = some entry := by
  rw [superseded_eq, List.mem_filterMap]

/-- A curator's ruling decides by itself; an identity verdict names the winner of the key of a file without a ruling. -/
theorem verdict_cases {file : SupersedableFile} {entry : SupersededEntry}
    (given : verdictOf attributeFileToLakeIds sourceIdentityKeyFor identityTiers files file = some entry) :
    (∃ winner, ruledBy attributeFileToLakeIds files file = some winner ∧ entry = ⟨file, .curator, winner⟩) ∨
      ruledBy attributeFileToLakeIds files file = none ∧ ∃ key winner tier,
        (winnersOf attributeFileToLakeIds sourceIdentityKeyFor identityTiers files).get? key = some winner ∧
          entry = ⟨file, .source tier, winner.id⟩ := by
  unfold verdictOf verdict at given
  dsimp only [keyed] at given
  cases ruled : ruledBy attributeFileToLakeIds files file with
  | some winner =>
    simp only [ruled] at given
    cases given
    exact Or.inl ⟨winner, rfl, rfl⟩
  | none =>
    simp only [ruled, true_and] at given
    split at given
    · cases given
    · rename_i identity _
      split at given
      · cases given
      · rename_i winner held
        obtain ⟨_, same⟩ := Option.ite_none_left_eq_some.mp given
        cases same
        exact Or.inr ⟨rfl, identity.key, winner, identity.tier, held, rfl⟩

theorem verdict_file {file : SupersedableFile} {entry : SupersededEntry}
    (given : verdictOf attributeFileToLakeIds sourceIdentityKeyFor identityTiers files file = some entry) : entry.file = file := by
  rcases verdict_cases given with ⟨_, _, rfl⟩ | ⟨_, _, _, _, _, rfl⟩ <;> rfl

theorem verdict_ruled {file : SupersedableFile} {winner : String} (ruled : ruledBy attributeFileToLakeIds files file = some winner) :
    verdictOf attributeFileToLakeIds sourceIdentityKeyFor identityTiers files file = some ⟨file, .curator, winner⟩ := by
  unfold verdictOf verdict keyed
  simp only [ruled]

/-- The winner of a key is in scope, is not ruled behind another file and stays servable. -/
theorem winner_servable {key : String} {winner : SupersedableFile}
    (held : (winnersOf attributeFileToLakeIds sourceIdentityKeyFor identityTiers files).get? key = some winner) :
    winner ∈ files ∧ ruledBy attributeFileToLakeIds files winner = none ∧
      verdictOf attributeFileToLakeIds sourceIdentityKeyFor identityTiers files winner = none := by
  have first := held
  unfold winnersOf at first
  rw [winners_get?] at first
  have member := List.argmax_mem first
  unfold rivals at member
  obtain ⟨entry, listed, same⟩ := List.mem_map.mp member
  obtain ⟨listed, mine⟩ := List.mem_filter.mp listed
  obtain ⟨file, there, rfl⟩ := List.mem_map.mp listed
  have file_winner : file = winner := same
  subst file_winner
  obtain ⟨identity, found, rfl⟩ := Option.map_eq_some_iff.mp (of_decide_eq_true mine)
  have free : ruledBy attributeFileToLakeIds files file = none := by
    unfold keyed at found
    dsimp only at found
    split at found
    · rename_i both
      exact both.1
    · cases found
  refine ⟨there, free, ?_⟩
  have shape : (keyed attributeFileToLakeIds sourceIdentityKeyFor identityTiers files file).ruledBy = none := free
  unfold verdictOf verdict
  rw [shape, found]
  simp only
  rw [held]
  exact if_pos rfl

theorem superseded_files : (partitionBySupersession attributeFileToLakeIds sourceIdentityKeyFor identityTiers files).superseded.map (·.file) =
    files.filter fun file => !decide (verdictOf attributeFileToLakeIds sourceIdentityKeyFor identityTiers files file = none) := by
  rw [superseded_eq, List.map_filterMap, ← List.filterMap_eq_filter]
  apply List.filterMap_congr
  intro file _
  cases given : verdictOf attributeFileToLakeIds sourceIdentityKeyFor identityTiers files file with
  | none => simp [Option.guard, given]
  | some entry => simp [Option.guard, given, verdict_file given]

theorem verdictOf_perm (distinct : (files.map (·.id)).Nodup) (same : files.Perm files') {file : SupersedableFile} (listed : file ∈ files) :
    verdictOf attributeFileToLakeIds sourceIdentityKeyFor identityTiers files' file =
      verdictOf attributeFileToLakeIds sourceIdentityKeyFor identityTiers files file := by
  have entry {file : SupersedableFile} (listed : file ∈ files) : keyed attributeFileToLakeIds sourceIdentityKeyFor identityTiers files' file =
      keyed attributeFileToLakeIds sourceIdentityKeyFor identityTiers files file := by
    unfold keyed
    rw [ruledBy_perm distinct same listed]
  have entries : (files.map (keyed attributeFileToLakeIds sourceIdentityKeyFor identityTiers files)).Perm
      (files'.map (keyed attributeFileToLakeIds sourceIdentityKeyFor identityTiers files')) := by
    rw [List.map_congr_left fun file there => entry (same.mem_iff.mpr there)]
    exact same.map _
  have winners (key : String) : (winnersOf attributeFileToLakeIds sourceIdentityKeyFor identityTiers files').get? key =
      (winnersOf attributeFileToLakeIds sourceIdentityKeyFor identityTiers files).get? key := by
    unfold winnersOf
    rw [winners_get?, winners_get?]
    refine (argmax_perm ((entries.filter _).map _) fun left here right there level => ?_).symm
    have inside {file : SupersedableFile}
        (rival : file ∈ rivals (files.map (keyed attributeFileToLakeIds sourceIdentityKeyFor identityTiers files)) key) : file ∈ files := by
      obtain ⟨entry, listed, rfl⟩ := List.mem_map.mp rival
      obtain ⟨file, there, rfl⟩ := List.mem_map.mp (List.mem_filter.mp listed).1
      exact there
    exact id_inj distinct (inside here) (inside there) (rank_inj level)
  unfold verdictOf verdict
  rw [entry listed]
  simp only [winners]

/-! ### Following the entries -/

/-- An entry leads from the superseded file to the one that it names. -/
def Follows (result : Partition) (a b : String) : Prop := ∃ entry ∈ result.superseded, entry.file.id = a ∧ entry.supersededBy = b

variable (attributeFileToLakeIds files) in
/-- A ruling of `f`'s own lake puts it behind `g`. -/
def Honoured (f g : SupersedableFile) : Prop := f ∈ files ∧ g ∈ files ∧ RuledBehind attributeFileToLakeIds files f g.id

theorem ruledBy_honoured (distinct : (files.map (·.id)).Nodup) {f : SupersedableFile} (listed : f ∈ files) {winner : String} :
    ruledBy attributeFileToLakeIds files f = some winner ↔ ∃ g, g.id = winner ∧ Honoured attributeFileToLakeIds files f g := by
  rw [ruledBy_iff distinct listed]
  constructor
  · rintro ⟨⟨g, there, rfl⟩, behind⟩
    exact ⟨g, rfl, listed, there, behind⟩
  · rintro ⟨g, rfl, _, there, behind⟩
    exact ⟨⟨g, there, rfl⟩, behind⟩

/-- Without a circle of rulings, every superseded file leads to a servable one. -/
theorem reaches_servable (distinct : (files.map (·.id)).Nodup)
    (straight : ∀ f ∈ files, ¬Relation.TransGen (Honoured attributeFileToLakeIds files) f f) {f : SupersedableFile} (listed : f ∈ files) :
    verdictOf attributeFileToLakeIds sourceIdentityKeyFor identityTiers files f = none ∨
      ∃ g ∈ files, verdictOf attributeFileToLakeIds sourceIdentityKeyFor identityTiers files g = none ∧
        Relation.TransGen (Follows (partitionBySupersession attributeFileToLakeIds sourceIdentityKeyFor identityTiers files)) f.id g.id := by
  have founded := wellFounded_of_acyclic (fun _ _ honoured => honoured.2.1) straight
  induction f using founded.induction with
  | _ f ih =>
    cases given : verdictOf attributeFileToLakeIds sourceIdentityKeyFor identityTiers files f with
    | none => exact Or.inl rfl
    | some entry =>
      have step : Follows (partitionBySupersession attributeFileToLakeIds sourceIdentityKeyFor identityTiers files) f.id entry.supersededBy :=
        ⟨entry, mem_superseded.mpr ⟨f, listed, given⟩, by rw [verdict_file given], rfl⟩
      right
      rcases verdict_cases given with ⟨winner, ruled, rfl⟩ | ⟨_, key, winner, tier, held, rfl⟩
      · obtain ⟨g, rfl, honoured⟩ := (ruledBy_honoured distinct listed).mp ruled
        rcases ih g honoured honoured.2.1 with free | ⟨last, there, free, later⟩
        · exact ⟨g, honoured.2.1, free, Relation.TransGen.single step⟩
        · exact ⟨last, there, free, Relation.TransGen.head step later⟩
      · obtain ⟨there, _, free⟩ := winner_servable held
        exact ⟨winner, there, free, Relation.TransGen.single step⟩

/-- From a file on a circle of rulings, the entries stay on it. -/
theorem circle_closed (distinct : (files.map (·.id)).Nodup) {f g : SupersedableFile}
    (circle : Relation.TransGen (Honoured attributeFileToLakeIds files) f f)
    (path : Relation.TransGen (Follows (partitionBySupersession attributeFileToLakeIds sourceIdentityKeyFor identityTiers files)) f.id g.id)
    (there : g ∈ files) : verdictOf attributeFileToLakeIds sourceIdentityKeyFor identityTiers files g ≠ none := by
  -- Each file on the circle is ruled behind the next one, which is on the circle too.
  have next {f : SupersedableFile} (circle : Relation.TransGen (Honoured attributeFileToLakeIds files) f f) : f ∈ files ∧ ∃ g,
      Relation.TransGen (Honoured attributeFileToLakeIds files) g g ∧
        verdictOf attributeFileToLakeIds sourceIdentityKeyFor identityTiers files f = some ⟨f, .curator, g.id⟩ := by
    obtain ⟨g, honoured, rest⟩ := Relation.TransGen.head'_iff.mp circle
    exact ⟨honoured.1, g, Relation.TransGen.tail' rest honoured,
      verdict_ruled ((ruledBy_honoured distinct honoured.1).mpr ⟨g, rfl, honoured⟩)⟩
  have stays (id : String)
      (path : Relation.TransGen (Follows (partitionBySupersession attributeFileToLakeIds sourceIdentityKeyFor identityTiers files)) f.id id) :
      ∃ g ∈ files, g.id = id ∧ Relation.TransGen (Honoured attributeFileToLakeIds files) g g := by
    have one {f : SupersedableFile} (circle : Relation.TransGen (Honoured attributeFileToLakeIds files) f f) {id : String}
        (step : Follows (partitionBySupersession attributeFileToLakeIds sourceIdentityKeyFor identityTiers files) f.id id) :
        ∃ g ∈ files, g.id = id ∧ Relation.TransGen (Honoured attributeFileToLakeIds files) g g := by
      obtain ⟨entry, superseded, source, rfl⟩ := step
      obtain ⟨other, listed, given⟩ := mem_superseded.mp superseded
      obtain ⟨here, g, around, ruled⟩ := next circle
      rw [verdict_file given] at source
      cases id_inj distinct listed here source
      cases given.symm.trans ruled
      exact ⟨g, (next around).1, rfl, around⟩
    induction path with
    | single step => exact one circle step
    | tail _ step ih =>
      obtain ⟨g, _, rfl, around⟩ := ih
      exact one around step
  obtain ⟨other, listed, same, around⟩ := stays g.id path
  cases id_inj distinct listed there same
  obtain ⟨_, _, _, ruled⟩ := next around
  rw [ruled]
  exact Option.some_ne_none _

end Verdicts

/-! ### Subjects -/

/-- No subject vanishes from a split of the files. -/
structure SubjectsKept (attributeFileToLakeIds : SupersedableFile → List String)
    (sourceIdentityKeyFor : SupersedableFile → String → Option SourceIdentity) (identityTiers : Bool) (files : List SupersedableFile)
    (result : Partition) : Prop where
  split : ∃ keeps : SupersedableFile → Bool, result.servable = files.filter keeps ∧
    result.superseded.map (·.file) = files.filter fun file => !keeps file
  named : ∀ entry ∈ result.superseded, ∃ file ∈ files, file.id = entry.supersededBy
  reaches : ∀ entry ∈ result.superseded, ∃ file ∈ result.servable, Relation.TransGen (Follows result) entry.file.id file.id
  retired : ∀ entry ∈ result.superseded, entry.tier = .curator →
    ∀ other ∈ result.superseded, other.tier ≠ .curator → other.supersededBy ≠ entry.file.id
  unordered : ∀ files', files.Perm files' →
    (partitionBySupersession attributeFileToLakeIds sourceIdentityKeyFor identityTiers files').superseded.Perm result.superseded

/-- The subjects are kept exactly while no files stand in a circle of rulings, each ruled behind the next by its own lake. -/
theorem subjects_kept_iff (attributeFileToLakeIds : SupersedableFile → List String)
    (sourceIdentityKeyFor : SupersedableFile → String → Option SourceIdentity) (identityTiers : Bool) (inScope : ScopedFiles) :
    SubjectsKept attributeFileToLakeIds sourceIdentityKeyFor identityTiers inScope.files
        (partitionBySupersession attributeFileToLakeIds sourceIdentityKeyFor identityTiers inScope.files) ↔
      ∀ f ∈ inScope.files, ¬Relation.TransGen (Honoured attributeFileToLakeIds inScope.files) f f := by
  have distinct := inScope.distinct
  constructor
  · intro kept f listed circle
    obtain ⟨g, honoured, _⟩ := Relation.TransGen.head'_iff.mp circle
    have ruled := (ruledBy_honoured distinct listed).mpr ⟨g, rfl, honoured⟩
    obtain ⟨last, free, path⟩ := kept.reaches _ (mem_superseded.mpr ⟨f, listed, verdict_ruled ruled⟩)
    rw [servable_eq] at free
    obtain ⟨there, free⟩ := List.mem_filter.mp free
    exact circle_closed distinct circle path there (of_decide_eq_true free)
  · intro straight
    refine ⟨⟨_, servable_eq, superseded_files⟩, ?_, ?_, ?_, ?_⟩
    · intro entry superseded
      obtain ⟨file, listed, given⟩ := mem_superseded.mp superseded
      rcases verdict_cases given with ⟨winner, ruled, rfl⟩ | ⟨_, key, winner, tier, held, rfl⟩
      · obtain ⟨g, same, honoured⟩ := (ruledBy_honoured distinct listed).mp ruled
        exact ⟨g, honoured.2.1, same⟩
      · exact ⟨winner, (winner_servable held).1, rfl⟩
    · intro entry superseded
      obtain ⟨file, listed, given⟩ := mem_superseded.mp superseded
      rw [verdict_file given]
      rcases reaches_servable distinct straight listed with free | ⟨g, there, free, path⟩
      · cases given.symm.trans free
      · refine ⟨g, ?_, path⟩
        rw [servable_eq]
        exact List.mem_filter.mpr ⟨there, decide_eq_true free⟩
    · intro entry superseded curated other found derived same
      obtain ⟨file, listed, given⟩ := mem_superseded.mp superseded
      obtain ⟨loser, _, lost⟩ := mem_superseded.mp found
      rcases verdict_cases lost with ⟨_, _, rfl⟩ | ⟨_, key, winner, tier, held, rfl⟩
      · exact derived rfl
      · obtain ⟨there, _, free⟩ := winner_servable held
        rw [verdict_file given] at same
        cases id_inj distinct there listed same
        cases given.symm.trans free
    · intro files' same
      rw [superseded_eq, superseded_eq, List.filterMap_congr fun file there => verdictOf_perm distinct same (same.mem_iff.mpr there)]
      exact (same.filterMap _).symm

/-- Two lakes' rulings put two files behind each other: each lake's own chain ends, and neither file is servable. -/
def crossedRulings : ScopedFiles where
  files :=
    [{ id := "old", fileTags := some ["policies"], supersededInLakes := [⟨"policies", "new"⟩] },
      { id := "new", fileTags := some ["archive"], supersededInLakes := [⟨"archive", "old"⟩] }]
  distinct := by decide

theorem crossed_rulings_vanish : ¬∀ (attributeFileToLakeIds : SupersedableFile → List String)
    (sourceIdentityKeyFor : SupersedableFile → String → Option SourceIdentity) (identityTiers : Bool) (inScope : ScopedFiles),
    SubjectsKept attributeFileToLakeIds sourceIdentityKeyFor identityTiers inScope.files
      (partitionBySupersession attributeFileToLakeIds sourceIdentityKeyFor identityTiers inScope.files) := by
  intro all
  have kept := all (fun file => file.fileTags.getD []) (fun _ _ => none) true crossedRulings
  have empty : (partitionBySupersession (fun file => file.fileTags.getD []) (fun _ _ => none) true crossedRulings.files).servable = [] := by
    decide +kernel
  have superseded : ∃ entry, entry ∈
      (partitionBySupersession (fun file => file.fileTags.getD []) (fun _ _ => none) true crossedRulings.files).superseded :=
    ⟨⟨crossedRulings.files[0], .curator, "new"⟩, by decide +kernel⟩
  obtain ⟨entry, superseded⟩ := superseded
  obtain ⟨file, free, _⟩ := kept.reaches entry superseded
  rw [empty] at free
  cases free

end Bike4Mind.Supersession
