import Bike4Mind.Sharing.Projects

/-! What a revocation takes: a document at a time, and through the cascade from a whole project. -/

namespace Bike4Mind.Sharing
open Collections

def Shareable.mapUsers (f : List UserShare → List UserShare) (doc : Shareable) : Shareable := { doc with users := f doc.users }

section Lookups
variable {s s' : Store} {type type' : DocumentType} {id id' : String} {f : List UserShare → List UserShare} {doc : Shareable}

theorem shareable_modifyUsers : (s.modifyUsers type id f).shareable type' id' =
    if type' = type ∧ id' = id then (s.shareable type' id').map (·.mapUsers f) else s.shareable type' id' := by
  cases type <;> cases type' <;> by_cases same : id' = id <;>
    simp [Store.modifyUsers, Store.shareable, same, Function.comp_def] <;> rfl

@[simp] theorem users_modifyUsers : (s.modifyUsers type id f).users = s.users := by cases type <;> rfl

theorem projects_modifyUsers (document : type ≠ .projects) : (s.modifyUsers type id f).projects = s.projects := by
  cases type with
  | projects => exact (document rfl).elim
  | files | sessions => rfl

end Lookups

/-! ### Results -/

section Results
variable {α β : Type}

theorem elim_ok {found : Option α} {e : SharingError} {a : α} (h : found.elim (throw e) pure = (.ok a : Result α)) :
    found = some a := by
  cases found with
  | none => cases h
  | some b =>
    cases h
    rfl

theorem toOption_some {x : Result α} {a : α} (h : x.toOption = some a) : x = .ok a := by
  cases x with
  | error e => cases h
  | ok b =>
    cases h
    rfl

end Results

/-! ### Stores that differ in the rows that were kept -/

/-- Every document of `s` with the rows that `keep` lets stand. -/
structure Rewritten (s s' : Store) (keep : DocumentType → String → Shareable → UserShare → Bool) : Prop where
  users : s'.users = s.users
  projects : s'.projects = s.projects
  rows : ∀ type id, s'.shareable type id = (s.shareable type id).map fun doc => doc.mapUsers (·.filter (keep type id doc))

section Rewritten
variable {s mid s' : Store} {keep keep' : DocumentType → String → Shareable → UserShare → Bool}

theorem Rewritten.congr (rewritten : Rewritten s s' keep) (same : ∀ type id doc, s.shareable type id = some doc →
    ∀ row ∈ doc.users, keep type id doc row = keep' type id doc row) : Rewritten s s' keep' := by
  refine ⟨rewritten.users, rewritten.projects, fun type id => ?_⟩
  rw [rewritten.rows type id]
  cases stored : s.shareable type id with
  | none => rfl
  | some doc =>
    simp only [Option.map_some, Shareable.mapUsers]
    rw [List.filter_congr (same type id doc stored)]

theorem Rewritten.refl (all : ∀ type id doc, s.shareable type id = some doc → ∀ row ∈ doc.users, keep type id doc row = true) :
    Rewritten s s keep := by
  refine ⟨rfl, rfl, fun type id => ?_⟩
  cases stored : s.shareable type id with
  | none => rfl
  | some doc =>
    simp only [Option.map_some, Shareable.mapUsers]
    rw [List.filter_eq_self.mpr (all type id doc stored)]

theorem Rewritten.trans (first : Rewritten s mid keep) (second : Rewritten mid s' keep') :
    Rewritten s s' fun type id doc row =>
      keep type id doc row && keep' type id (doc.mapUsers (·.filter (keep type id doc))) row := by
  refine ⟨second.users.trans first.users, second.projects.trans first.projects, fun type id => ?_⟩
  rw [second.rows type id, first.rows type id, Option.map_map]
  congr 1
  funext doc
  simp only [Function.comp_apply, Shareable.mapUsers, List.filter_filter]
  congr 1
  exact List.filter_congr fun row _ => Bool.and_comm _ _

end Rewritten

/-! ### One revocation -/

/-- The user's account exists and finds the document. -/
def reaches (s : Store) (userId : String) (doc : Shareable) : Bool := (s.users userId).any (accessible doc ·)

/-- Whether a revocation in the name of the project takes this row of this document. -/
def taken (s : Store) (projectId leaver : String) (others : List String) (doc : Shareable) (row : UserShare) : Bool :=
  row.projectId == some projectId &&
    if doc.userId = leaver then others.contains row.userId && reaches s row.userId doc
    else row.userId == leaver && reaches s leaver doc

section Revocation
variable {s s' : Store} {projectId leaver actor id : String} {type : DocumentType} {p : RevokeParameters}

theorem reaches_filter {userId : String} {doc : Shareable} {keep : UserShare → Bool}
    (own : ∀ row, row.userId = userId → keep row = true) :
    reaches s userId (doc.mapUsers (·.filter keep)) = reaches s userId doc := by
  unfold reaches
  cases found : s.users userId with
  | none => rfl
  | some user =>
    have name := s.named found
    exact accessible_filter fun row mine => own row (mine.trans name)

theorem revoked_tagged (scope : p.projectId = some projectId) (real : projectId ≠ "") (document : p.type ≠ .projects)
    (row : UserShare) : p.isRevoked row = row.tagged p.userId projectId := by
  have typed : (p.type == .projects) = false := by simpa using document
  simp [RevokeParameters.isRevoked, UserShare.tagged, scope, real, typed]

theorem revocable_ok {doc : Shareable} (allowed : revocable s actor p = .ok doc) :
    isObjectIdOrHexString p.id = true ∧ s.shareable p.type p.id = some doc ∧ ∃ user, s.users p.userId = some user := by
  unfold revocable at allowed
  obtain ⟨member, account, allowed⟩ := bind_ok allowed
  obtain ⟨found, accessed, allowed⟩ := bind_ok allowed
  have same : found = doc := by
    split at allowed
    · cases allowed
    · split at allowed
      · cases allowed
      · cases allowed
        rfl
  subst same
  have located := elim_ok accessed
  unfold Store.findAccessibleById at located
  split at located
  · rename_i valid
    exact ⟨valid, (Option.filter_eq_some_iff.mp located).1, member, elim_ok account⟩
  · cases located

/-- An authorized revocation either finds nothing to take, or a document that its user can reach. -/
theorem revocable_cases (valid : isObjectIdOrHexString p.id = true)
    (authorized : ∀ doc, s.shareable p.type p.id = some doc → doc.userId = actor ∨ actor = p.userId) :
    (∃ m, revocable s actor p = .error (.notFound m) ∧ ∀ doc, s.shareable p.type p.id = some doc →
      reaches s p.userId doc = true → ∀ row ∈ doc.users, p.isRevoked row = false) ∨
    ∃ doc, revocable s actor p = .ok doc ∧ s.shareable p.type p.id = some doc ∧ reaches s p.userId doc = true := by
  unfold revocable
  cases account : s.users p.userId with
  | none => exact Or.inl ⟨_, rfl, by simp [reaches, account]⟩
  | some member =>
    cases stored : s.shareable p.type p.id with
    | none =>
      refine Or.inl ⟨s!"{p.type.text} not found for {p.id}", ?_, by simp⟩
      have missing : s.findAccessibleById p.type member p.id = none := by simp [Store.findAccessibleById, stored]
      simp only [Option.elim_some, Option.elim_none, pure_bind, missing]
      rfl
    | some doc =>
      by_cases access : accessible doc member = true
      · have found : s.findAccessibleById p.type member p.id = some doc := by
          simp [Store.findAccessibleById, stored, valid, access]
        have allowed : ¬ (doc.userId ≠ actor ∧ actor ≠ p.userId) := by
          rintro ⟨other, notSelf⟩
          exact (authorized doc stored).elim other notSelf
        by_cases held : doc.users.any p.isRevoked = true
        · refine Or.inr ⟨doc, ?_, rfl, by simp [reaches, account, access]⟩
          simp only [Option.elim_some, pure_bind, found, if_neg allowed, held, Bool.not_true, Bool.false_eq_true, ↓reduceIte]
        · refine Or.inl ⟨"User not found in document", ?_, ?_⟩
          · simp only [Option.elim_some, pure_bind, found, if_neg allowed, held, Bool.not_false, ↓reduceIte]
          · intro _ same _ row member
            cases same
            simp only [List.any_eq_true, not_exists, not_and, Bool.not_eq_true] at held
            exact held row member
      · refine Or.inl ⟨s!"{p.type.text} not found for {p.id}", ?_, ?_⟩
        · have missing : s.findAccessibleById p.type member p.id = none := by
            simp [Store.findAccessibleById, stored, valid, access]
          simp only [Option.elim_some, Option.elim_none, pure_bind, missing]
          rfl
        · intro _ same reached
          cases same
          simp [reaches, account, access] at reached

/-- A tolerated revocation takes the rows of its user and project, where that user finds the document. -/
theorem tolerated_rewritten (scope : p.projectId = some projectId) (real : projectId ≠ "") (document : p.type ≠ .projects)
    (valid : isObjectIdOrHexString p.id = true)
    (authorized : ∀ doc, s.shareable p.type p.id = some doc → doc.userId = actor ∨ actor = p.userId) :
    ∃ s', tolerated s (revokeDocument s actor p) = .ok s' ∧ Rewritten s s' fun type id doc row =>
      !(decide (type = p.type ∧ id = p.id) && (row.tagged p.userId projectId && reaches s p.userId doc)) := by
  have tags := revoked_tagged scope real document
  rcases revocable_cases valid authorized with ⟨m, refused, nothing⟩ | ⟨doc, allowed, stored, reached⟩
  · refine ⟨s, ?_, Rewritten.refl fun type id doc there row member => ?_⟩
    · simp only [revokeDocument, refused]
      rfl
    · by_cases here : type = p.type ∧ id = p.id
      · obtain ⟨rfl, rfl⟩ := here
        by_cases reached : reaches s p.userId doc = true
        · simp [← tags, nothing doc there reached row member]
        · simp [reached]
      · simp [here]
  · refine ⟨s.withdraw p, ?_, users_modifyUsers, projects_modifyUsers document, fun type id => ?_⟩
    · simp only [revokeDocument, allowed]
      simp [scope, real]
      rfl
    · rw [Store.withdraw, shareable_modifyUsers]
      by_cases here : type = p.type ∧ id = p.id
      · obtain ⟨rfl, rfl⟩ := here
        simp [stored, reached, tags, Shareable.mapUsers]
      · simp only [here, ↓reduceIte, decide_false, Bool.false_and, Bool.not_false, List.filter_true]
        cases s.shareable type id <;> rfl

/-- Each of the others loses the project's row, where they reach the document. -/
theorem others_rewritten {others : List String} (real : projectId ≠ "") (document : type ≠ .projects)
    (valid : isObjectIdOrHexString id = true) (distinct : others.Nodup) :
    ∃ s', revokeFromOthers projectId type id others s = .ok s' ∧ Rewritten s s' fun t i doc row =>
      !(decide (t = type ∧ i = id) && (row.projectId == some projectId && (others.contains row.userId && reaches s row.userId doc))) := by
  induction others generalizing s with
  | nil => exact ⟨s, rfl, Rewritten.refl fun t i doc _ row _ => by simp⟩
  | cons userId rest ih =>
    obtain ⟨fresh, distinct⟩ := List.nodup_cons.mp distinct
    obtain ⟨mid, first, rewritten⟩ := @tolerated_rewritten s projectId userId
      { id, type, userId, projectId := some projectId } rfl real document valid fun _ _ => Or.inr rfl
    obtain ⟨s', later, rest'⟩ := @ih mid distinct
    refine ⟨s', ?_, (rewritten.trans rest').congr fun t i doc stored row member => ?_⟩
    · rw [revokeFromOthers, List.foldlM_cons, first]
      exact later
    · by_cases here : t = type ∧ i = id
      · by_cases own : row.userId = userId
        · have gone : rest.contains row.userId = false := by simpa [own] using fresh
          simp [here, own, fresh, UserShare.tagged]
        · have same : reaches mid row.userId (doc.mapUsers (·.filter fun other =>
              !(decide (t = type ∧ i = id) && (other.tagged userId projectId && reaches s userId doc)))) =
              reaches s row.userId doc := by
            have users : reaches mid row.userId = reaches s row.userId := by
              unfold reaches
              rw [rewritten.users]
            rw [users]
            refine reaches_filter fun other mine => ?_
            simp [UserShare.tagged, mine, own]
          dsimp only
          rw [same]
          simp [here, own, UserShare.tagged]
      · simp [here]

theorem one_rewritten {others : List String} {document : String × Shareable} (real : projectId ≠ "") (kind : type ≠ .projects)
    (valid : isObjectIdOrHexString document.1 = true) (distinct : others.Nodup)
    (stored : ∀ doc, s.shareable type document.1 = some doc → doc.userId = document.2.userId) :
    ∃ s', revokeOne projectId leaver others type s document = .ok s' ∧ Rewritten s s' fun t i doc row =>
      !(decide (t = type ∧ i = document.1) && taken s projectId leaver others doc row) := by
  unfold revokeOne
  by_cases own : document.2.userId = leaver
  · obtain ⟨s', revoked, rewritten⟩ := @others_rewritten s projectId document.1 type others real kind valid distinct
    refine ⟨s', ?_, rewritten.congr fun t i doc there row _ => ?_⟩
    · simp only [own, ↓reduceIte, revoked]
      rfl
    · by_cases here : t = type ∧ i = document.1
      · obtain ⟨rfl, rfl⟩ := here
        simp [taken, stored doc there, own]
      · simp [here]
  · obtain ⟨s', revoked, rewritten⟩ := @tolerated_rewritten s projectId document.2.userId
      { id := document.1, type, userId := leaver, projectId := some projectId } rfl real kind valid
      fun doc there => Or.inl (stored doc there)
    refine ⟨s', ?_, rewritten.congr fun t i doc there row _ => ?_⟩
    · simp only [own, ↓reduceIte]
      exact revoked
    · by_cases here : t = type ∧ i = document.1
      · obtain ⟨rfl, rfl⟩ := here
        simp [taken, stored doc there, own, UserShare.tagged, Bool.and_left_comm, Bool.or_assoc]
      · simp [here]

/-- The cascade over one kind of documents: each is judged as it was before. -/
theorem cascade_rewritten {others : List String} {documents : List (String × Shareable)} (real : projectId ≠ "")
    (kind : type ≠ .projects) (distinct : others.Nodup) (unique : (documents.map Prod.fst).Nodup)
    (valid : ∀ document ∈ documents, isObjectIdOrHexString document.1 = true)
    (stored : ∀ document ∈ documents, ∀ doc, s.shareable type document.1 = some doc → doc.userId = document.2.userId) :
    ∃ s', documents.foldlM (revokeOne projectId leaver others type) s = .ok s' ∧ Rewritten s s' fun t i doc row =>
      !(decide (t = type ∧ i ∈ documents.map Prod.fst) && taken s projectId leaver others doc row) := by
  induction documents generalizing s with
  | nil => exact ⟨s, rfl, Rewritten.refl fun t i doc _ row _ => by simp⟩
  | cons document rest ih =>
    rw [List.map_cons] at unique
    obtain ⟨fresh, unique⟩ := List.nodup_cons.mp unique
    obtain ⟨mid, first, rewritten⟩ := @one_rewritten s projectId leaver type others document real kind
      (valid document List.mem_cons_self) distinct (stored document List.mem_cons_self)
    have later : ∀ other ∈ rest, ∀ doc, mid.shareable type other.1 = some doc → doc.userId = other.2.userId := by
      intro other member doc there
      rw [rewritten.rows] at there
      obtain ⟨before, found, rfl⟩ := Option.map_eq_some_iff.mp there
      exact stored other (List.mem_cons_of_mem _ member) before found
    obtain ⟨s', ran, rest'⟩ := ih unique (fun other member => valid other (List.mem_cons_of_mem _ member)) later
    refine ⟨s', ?_, (rewritten.trans rest').congr fun t i doc there row member => ?_⟩
    · rw [List.foldlM_cons, first]
      exact ran
    · have same : taken mid projectId leaver others = taken s projectId leaver others := by
        unfold taken reaches
        rw [rewritten.users]
      by_cases here : t = type ∧ i = document.1
      · obtain ⟨rfl, rfl⟩ := here
        simp [fresh, -List.mem_map]
      · by_cases among : t = type ∧ i ∈ rest.map Prod.fst
        · have untouched : (doc.mapUsers (·.filter fun other =>
              !(decide (t = type ∧ i = document.1) && taken s projectId leaver others doc other))) = doc := by
            simp [here, Shareable.mapUsers]
          have elsewhere : i ≠ document.1 := fun here' => here ⟨among.1, here'⟩
          rw [untouched, same]
          simp [elsewhere, among, -List.mem_map]
        · have outside : ¬ (t = type ∧ i ∈ (document :: rest).map Prod.fst) := by
            rintro ⟨rfl, member⟩
            rcases List.mem_cons.mp member with rfl | member
            · exact here ⟨rfl, rfl⟩
            · exact among ⟨rfl, member⟩
          simp [here, among, outside, -List.mem_map, -List.map_cons]

end Revocation

/-! ### A whole revocation on a project -/

/-- The documents of the project that the cascade visits. -/
def visited (s : Store) (project : Project) : DocumentType → List String
  | .files => s.existing .files project.fileIds
  | .sessions => s.existing .sessions project.sessionIds
  | .projects => []

def Project.without (project : Project) (leaver : String) : Project :=
  { project with users := project.users.filter (·.userId ≠ leaver) }

def prunedFrom (s : Store) (project : Project) (leaver : String) : Pruned where
  fileIds := prunedIds project.fileIds (s.findAllByIds .files project.fileIds) leaver
  sessionIds := prunedIds project.sessionIds (s.findAllByIds .sessions project.sessionIds) leaver

section Project
variable {s s' : Store} {project : Project} {projectId leaver actor id : String} {type : DocumentType}

@[simp] theorem visited_without : visited s (project.without leaver) type = visited s project type := by cases type <;> rfl

theorem mem_others_without {userId : String} : userId ∈ (project.without leaver).others leaver ↔
    userId ≠ leaver ∧ (userId = project.userId ∨ ∃ row ∈ project.users, row.userId = userId) := by
  simp only [Project.others, Project.without, mem_distinct, List.mem_filter, List.mem_cons, List.mem_map, decide_eq_true_eq]
  constructor
  · rintro ⟨owner | ⟨row, ⟨held, _⟩, same⟩, other⟩
    · exact ⟨other, Or.inl owner⟩
    · exact ⟨other, Or.inr ⟨row, held, same⟩⟩
  · rintro ⟨other, owner | ⟨row, held, rfl⟩⟩
    · exact ⟨Or.inl owner, other⟩
    · exact ⟨Or.inr ⟨row, ⟨held, other⟩, rfl⟩, other⟩

theorem existing_nodup {ids : List String} : (s.existing type ids).Nodup := distinct_nodup.filter _

theorem mem_existing {ids : List String} : id ∈ s.existing type ids ↔
    id ∈ ids ∧ isObjectIdOrHexString id = true ∧ (s.shareable type id).isSome = true := by
  simp [Store.existing]

theorem findAllByIds_ids {ids : List String} : (s.findAllByIds type ids).map Prod.fst = s.existing type ids := by
  have all : ∀ id ∈ s.existing type ids, (s.shareable type id).isSome = true := fun id member => (mem_existing.mp member).2.2
  unfold Store.findAllByIds
  generalize s.existing type ids = found at all
  induction found with
  | nil => rfl
  | cons id rest ih =>
    obtain ⟨doc, stored⟩ := Option.isSome_iff_exists.mp (all id List.mem_cons_self)
    simp only [List.filterMap_cons, stored, Option.map_some, List.map_cons]
    rw [ih fun other member => all other (List.mem_cons_of_mem _ member)]

theorem mem_findAllByIds {ids : List String} {document : String × Shareable} (member : document ∈ s.findAllByIds type ids) :
    isObjectIdOrHexString document.1 = true ∧ s.shareable type document.1 = some document.2 := by
  obtain ⟨id, listed, found⟩ := List.mem_filterMap.mp member
  obtain ⟨doc, stored, rfl⟩ := Option.map_eq_some_iff.mp found
  exact ⟨(mem_existing.mp listed).2.1, stored⟩

theorem others_nodup : (project.others leaver).Nodup := distinct_nodup

/-- The cascade over a project takes what each visited document holds in its name. -/
theorem revokeFromProject_rewritten (real : projectId ≠ "") :
    ∃ s', revokeFromProject s projectId project leaver = .ok (s', prunedFrom s project leaver) ∧
      Rewritten s s' fun t i doc row =>
        !(decide (i ∈ visited s project t) && taken s projectId leaver (project.others leaver) doc row) := by
  obtain ⟨mid, first, files⟩ := @cascade_rewritten s projectId leaver .files (project.others leaver)
    (s.findAllByIds .files project.fileIds) real nofun others_nodup (by rw [findAllByIds_ids]; exact existing_nodup)
    (fun _ member => (mem_findAllByIds member).1) fun _ member doc stored => by
      rw [(mem_findAllByIds member).2] at stored
      cases stored
      rfl
  have later : ∀ document ∈ s.findAllByIds .sessions project.sessionIds, ∀ doc,
      mid.shareable .sessions document.1 = some doc → doc.userId = document.2.userId := by
    intro document member doc stored
    rw [files.rows, (mem_findAllByIds member).2] at stored
    cases stored
    rfl
  obtain ⟨s', second, sessions⟩ := @cascade_rewritten mid projectId leaver .sessions (project.others leaver)
    (s.findAllByIds .sessions project.sessionIds) real nofun others_nodup (by rw [findAllByIds_ids]; exact existing_nodup)
    (fun _ member => (mem_findAllByIds member).1) later
  refine ⟨s', ?_, (files.trans sessions).congr fun t i doc stored row member => ?_⟩
  · have run : revokeFromProject s projectId project leaver = (do
        let mid ← (s.findAllByIds .files project.fileIds).foldlM (revokeOne projectId leaver (project.others leaver) .files) s
        let s' ← (s.findAllByIds .sessions project.sessionIds).foldlM
          (revokeOne projectId leaver (project.others leaver) .sessions) mid
        return (s', prunedFrom s project leaver)) := rfl
    rw [run, first]
    simp only [bind, Except.bind]
    rw [second]
    rfl
  · have same : taken mid projectId leaver = taken s projectId leaver := by
      unfold taken reaches
      rw [files.users]
    simp only [findAllByIds_ids, same]
    cases t with
    | files => by_cases listed : i ∈ s.existing .files project.fileIds <;> simp [visited, listed]
    | sessions =>
      by_cases listed : i ∈ s.existing .sessions project.sessionIds <;> simp [visited, listed, Shareable.mapUsers]
    | projects => simp [visited]

/-- A revocation on a project: the member's rows leave the project, and the cascade has run on the rest. -/
theorem revoke_project (revoked : revoke s actor { id := projectId, type := .projects, userId := leaver } = .ok s') :
    ∃ before : Project, s.projects projectId = some before ∧ (∃ user, s.users leaver = some user) ∧
      s'.projects projectId = some { before.without leaver with
        fileIds := (prunedFrom s before leaver).fileIds, sessionIds := (prunedFrom s before leaver).sessionIds } ∧
      (∀ other, other ≠ projectId → s'.projects other = s.projects other) ∧
      ∀ t i, t ≠ .projects → s'.shareable t i = (s.shareable t i).map fun doc => doc.mapUsers (·.filter fun row =>
        !(decide (i ∈ visited s before t) && taken s projectId leaver ((before.without leaver).others leaver) doc row)) := by
  have unfolded : revoke s actor { id := projectId, type := .projects, userId := leaver } = (do
      let document ← revocable s actor { id := projectId, type := .projects, userId := leaver }
      let users := document.users.filter (fun row => !(⟨projectId, .projects, leaver, none⟩ : RevokeParameters).isRevoked row)
      let project ← (s.projects projectId).elim (throw (.notFound s!"projects not found for {projectId}")) pure
      let cascade ← revokeFromProject s projectId { project with users } leaver
      return cascade.1.putProject projectId users cascade.2) := rfl
  rw [unfolded] at revoked
  obtain ⟨document, allowed, revoked⟩ := bind_ok revoked
  obtain ⟨valid, stored, account⟩ := revocable_ok allowed
  obtain ⟨before, found, revoked⟩ := bind_ok revoked
  have found := elim_ok found
  have same : before.toShareable = document := by
    simp only [Store.shareable, found, Option.map_some, Option.some.injEq] at stored
    exact stored
  have rows : (document.users.filter fun row => !(⟨projectId, .projects, leaver, none⟩ : RevokeParameters).isRevoked row) =
      before.users.filter (·.userId ≠ leaver) := by
    rw [← same]
    refine List.filter_congr fun row _ => ?_
    by_cases own : row.userId = leaver <;> simp [RevokeParameters.isRevoked, own]
  rw [rows] at revoked
  have real : projectId ≠ "" := by
    rintro rfl
    cases valid
  obtain ⟨mid, cascaded, rewritten⟩ := @revokeFromProject_rewritten s (before.without leaver) projectId leaver real
  have run : revokeFromProject s projectId { before with users := before.users.filter (·.userId ≠ leaver) } leaver =
      .ok (mid, prunedFrom s (before.without leaver) leaver) := cascaded
  rw [run] at revoked
  cases revoked
  refine ⟨before, found, account, ?_, fun other elsewhere => ?_, fun t i document => ?_⟩
  · simp only [Store.putProject, rewritten.projects, found, ↓reduceIte, Option.map_some]
    rfl
  · simp [Store.putProject, rewritten.projects, elsewhere]
  · have rows := rewritten.rows t i
    simp only [visited_without] at rows
    rw [← rows]
    cases t with
    | projects => exact (document rfl).elim
    | files | sessions => rfl

end Project

end Bike4Mind.Sharing
