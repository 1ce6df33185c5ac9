import Bike4Mind.Sharing.Revocation

/-! What a revocation on a project takes from the documents that the acceptance of its invite reached. -/

namespace Bike4Mind.Sharing
open Collections

/-! ### The acceptance before it -/

section Acceptance
variable {s s' : Store} {type type' : DocumentType} {id id' : String} {grant : Grant} {ids : List String}

theorem grantAll_shareable (unique : ids.Nodup) : (grantAll type grant ids s).shareable type' id' =
    if type' = type ∧ id' ∈ ids then (s.shareable type' id').map (·.mapUsers (pushShareable grant)) else s.shareable type' id' := by
  induction ids generalizing s with
  | nil => simp [grantAll]
  | cons id rest ih =>
    obtain ⟨fresh, unique⟩ := List.nodup_cons.mp unique
    have later := @ih (s.updateUserShares type id grant) unique
    rw [Store.updateUserShares, shareable_modifyUsers] at later
    refine later.trans ?_
    by_cases same : type' = type
    · by_cases here : id' = id
      · subst here
        simp [same, fresh]
      · simp [same, here]
    · simp [same]

theorem grantAll_projects (document : type ≠ .projects) : (grantAll type grant ids s).projects = s.projects := by
  induction ids generalizing s with
  | nil => rfl
  | cons id rest ih => exact (@ih (s.updateUserShares type id grant)).trans (projects_modifyUsers document)

/-- The documents an acceptance grants: those of the system prompts among them. -/
def reached (s : Store) (project : Project) : DocumentType → List String
  | .files => s.existing .files project.reachedFiles
  | .sessions => s.existing .sessions project.sessionIds
  | .projects => []

theorem granted_read {doc : Shareable} {invite : Invite} {permissions granted : List Permission} {inviter : Option User}
    (ok : permissionsInviterCanStillGrant doc invite permissions inviter = .ok granted) (read : .read ∈ permissions) :
    .read ∈ granted := by
  unfold permissionsInviterCanStillGrant at ok
  split at ok
  · cases ok
    exact read
  · dsimp only at ok
    split at ok
    · cases ok
    · rename_i holds
      cases ok
      refine reshareable_read read ?_
      by_contra without
      simp [without] at holds

/-- After the acceptance each reached document has a row that lets the member read in the project's name. -/
theorem acceptProject_granted {user : User} {invite : Invite} {inviter : Option User} (read : .read ∈ invite.permissions)
    (accepted : acceptProject s user invite inviter = .ok s') :
    ∃ project project' : Project, s.projects invite.documentId = some project ∧ s'.projects invite.documentId = some project' ∧
      project'.fileIds = project.fileIds ∧ project'.sessionIds = project.sessionIds ∧
      (∀ type id, type ≠ .projects → ((s'.shareable type id).isSome = (s.shareable type id).isSome)) ∧
      ∀ type, ∀ id ∈ reached s project type, ∃ doc, s'.shareable type id = some doc ∧
        ∃ row ∈ doc.users, row.tagged user.id invite.documentId = true ∧ .read ∈ row.permissions := by
  unfold acceptProject at accepted
  obtain ⟨project, found, accepted⟩ := bind_ok accepted
  obtain ⟨permissions, capped, accepted⟩ := bind_ok accepted
  have found := elim_ok found
  unfold Store.findProject at found
  split at found
  · have conveyed := granted_read capped read
    simp only [Pure.pure, Except.pure, Except.ok.injEq] at accepted
    generalize files : (s.updateUserShares .projects invite.documentId { userId := user.id, permissions }).existing
      .files project.reachedFiles = fileIds at accepted
    generalize sessions : (s.updateUserShares .projects invite.documentId { userId := user.id, permissions }).existing
      .sessions project.sessionIds = sessionIds at accepted
    subst accepted
    have granted : ∀ doc : Shareable,
        ∃ row ∈ (doc.mapUsers (pushShareable { userId := user.id, permissions, projectId := some invite.documentId })).users,
          row.tagged user.id invite.documentId = true ∧ .read ∈ row.permissions := by
      intro doc
      obtain ⟨row, present, own, project, all⟩ := @pushShareable_granted
        { userId := user.id, permissions, projectId := some invite.documentId } doc.users
      exact ⟨row, present, by simp [UserShare.tagged, own, project], all _ conveyed⟩
    have uniqueFiles : fileIds.Nodup := by
      rw [← files]
      exact existing_nodup
    have uniqueSessions : sessionIds.Nodup := by
      rw [← sessions]
      exact existing_nodup
    have unchanged : ∀ type id, type ≠ .projects →
        (s.updateUserShares .projects invite.documentId { userId := user.id, permissions }).shareable type id =
          s.shareable type id := by
      intro type id document
      rw [Store.updateUserShares, shareable_modifyUsers]
      simp [document]
    have sameExisting : ∀ type ids, type ≠ .projects →
        (s.updateUserShares .projects invite.documentId { userId := user.id, permissions }).existing type ids =
          s.existing type ids := by
      intro type ids document
      unfold Store.existing
      simp only [unchanged type _ document]
    rw [sameExisting .files _ (by decide)] at files
    rw [sameExisting .sessions _ (by decide)] at sessions
    refine ⟨project, { project with users := pushShareable { userId := user.id, permissions } project.users }, found, ?_, rfl, rfl,
      fun type id document => ?_, fun type id member => ?_⟩
    · rw [grantAll_projects (by decide : DocumentType.sessions ≠ .projects),
        grantAll_projects (by decide : DocumentType.files ≠ .projects)]
      simp [Store.updateUserShares, Store.modifyUsers, found]
    · rw [grantAll_shareable uniqueSessions, grantAll_shareable uniqueFiles, unchanged type id document]
      split <;> split <;> simp
    · rw [grantAll_shareable uniqueSessions, grantAll_shareable uniqueFiles]
      cases type with
      | projects => cases member
      | files =>
        have listed : id ∈ fileIds := files ▸ member
        obtain ⟨doc, stored⟩ := Option.isSome_iff_exists.mp (mem_existing.mp member).2.2
        rw [unchanged .files id (by decide), stored]
        exact ⟨doc.mapUsers (pushShareable _), by simp [listed], granted doc⟩
      | sessions =>
        have listed : id ∈ sessionIds := sessions ▸ member
        obtain ⟨doc, stored⟩ := Option.isSome_iff_exists.mp (mem_existing.mp member).2.2
        rw [unchanged .sessions id (by decide), stored]
        exact ⟨doc.mapUsers (pushShareable _), by simp [listed], granted doc⟩
  · cases found

theorem redeem_user {key email : String} {now : Time} {userId : String} {user : User} {invite : Invite}
    (redeemed : redeem s userId key now = .ok (user, email, invite)) : user.id = userId := by
  unfold redeem at redeemed
  obtain ⟨found, account, redeemed⟩ := bind_ok redeemed
  obtain ⟨_, _, redeemed⟩ := bind_ok redeemed
  obtain ⟨_, _, redeemed⟩ := bind_ok redeemed
  have name := s.named (elim_ok account)
  have same : found = user := by
    split at redeemed
    · cases redeemed
    · split at redeemed
      · cases redeemed
      · split at redeemed
        · cases redeemed
        · split at redeemed
          · cases redeemed
          · cases redeemed
            rfl
  rw [← same, name]

end Acceptance

/-! ### From an acceptance to the revocation -/

/-- Between the two, any grants may have come and gone but the member's own in the project's name. -/
structure OtherGrantsChanged (userId projectId : String) (s s' : Store) : Prop where
  present : ∀ type id, type ≠ .projects → (s'.shareable type id).isSome = (s.shareable type id).isSome
  kept : ∀ type id doc doc', type ≠ .projects → s.shareable type id = some doc → s'.shareable type id = some doc' →
    doc'.userId = doc.userId ∧ doc'.users.filter (·.tagged userId projectId) = doc.users.filter (·.tagged userId projectId)
  project : ∀ project, s.projects projectId = some project → ∃ project', s'.projects projectId = some project' ∧
    project'.fileIds = project.fileIds ∧ project'.sessionIds = project.sessionIds

/-- What a revocation on a project does to the documents of its lists, and to all others. -/
structure TakenBack (projectId leaver : String) (project : Project) (s s' : Store) : Prop where
  own : ∀ type, ∀ id ∈ visited s project type, ∀ doc, s'.shareable type id = some doc → doc.userId ≠ leaver →
    ∀ row ∈ doc.users, row.tagged leaver projectId = false
  others : ∀ type, ∀ id ∈ visited s project type, ∀ before doc, s.shareable type id = some before →
    s'.shareable type id = some doc → before.userId = leaver → ∀ userId, userId ≠ leaver →
      userId = project.userId ∨ (∃ row ∈ project.users, row.userId = userId) → reaches s userId before = true →
        ∀ row ∈ doc.users, row.tagged userId projectId = false
  pruned : ∃ project', s'.projects projectId = some project' ∧ project'.users = project.users.filter (·.userId ≠ leaver) ∧
    project'.fileIds = (prunedFrom s project leaver).fileIds ∧ project'.sessionIds = (prunedFrom s project leaver).sessionIds
  elsewhere : ∀ other, other ≠ projectId → s'.projects other = s.projects other
  untouched : ∀ type id, type ≠ .projects → ∀ before, s.shareable type id = some before →
    ∃ kept : UserShare → Bool, s'.shareable type id = some (before.mapUsers (·.filter kept)) ∧
      ∀ row ∈ before.users, kept row = false → id ∈ visited s project type ∧ row.projectId = some projectId ∧
        (row.userId = leaver ∧ before.userId ≠ leaver ∨ row.userId ≠ leaver ∧ before.userId = leaver)

theorem OtherGrantsChanged.refl {userId projectId : String} {s : Store} : OtherGrantsChanged userId projectId s s := by
  refine ⟨fun _ _ _ => rfl, fun type id doc doc' _ stored same => ?_, fun project stored => ⟨project, stored, rfl, rfl⟩⟩
  rw [stored] at same
  cases same
  exact ⟨rfl, rfl⟩

section Leaving
variable {s₀ s₁ s₂ s₃ : Store} {otherArms : OtherArms} {userId key email actor : String} {now : Time} {user : User}
variable {invite accepted : Invite}

theorem acceptInvite_project (redeemed : redeem s₀ userId key now = .ok (user, email, invite)) (forProject : invite.type = .Project)
    (accept : acceptInvite otherArms s₀ userId key now = .ok (accepted, s₁)) :
    ∃ inviter mid invites, acceptProject s₀ user invite inviter = .ok mid ∧ s₁ = { mid with invites } := by
  unfold acceptInvite at accept
  obtain ⟨redeemed', same, accept⟩ := bind_ok accept
  rw [redeemed] at same
  cases same
  dsimp only at accept
  rw [if_pos forProject] at accept
  obtain ⟨mid, granted, accept⟩ := bind_ok accept
  obtain ⟨spent, _, accept⟩ := bind_ok accept
  cases accept
  exact ⟨_, mid, _, granted, rfl⟩

theorem existing_congr {s s' : Store} {type : DocumentType} {ids ids' : List String} (listed : ids = ids')
    (present : ∀ id, (s.shareable type id).isSome = (s'.shareable type id).isSome) : s.existing type ids = s'.existing type ids' := by
  unfold Store.existing
  simp only [listed, present]

/-- An accepted project invite, any changes to other grants, and then a revocation of the member. -/
theorem leaving_takes_back (redeemed : redeem s₀ userId key now = .ok (user, email, invite)) (forProject : invite.type = .Project)
    (read : .read ∈ invite.permissions) (accept : acceptInvite otherArms s₀ userId key now = .ok (accepted, s₁))
    (changed : OtherGrantsChanged userId invite.documentId s₁ s₂)
    (revoked : revoke s₂ actor { id := invite.documentId, type := .projects, userId } = .ok s₃) :
    ∃ listed project : Project, s₀.projects invite.documentId = some listed ∧ s₂.projects invite.documentId = some project ∧
      (∀ type, visited s₂ project type = visited s₀ listed type) ∧ TakenBack invite.documentId userId project s₂ s₃ := by
  have named := redeem_user redeemed
  obtain ⟨inviter, mid, invites, granted, rfl⟩ := acceptInvite_project redeemed forProject accept
  obtain ⟨listed, after, found, stored, sameFiles, sameSessions, present, rows⟩ := acceptProject_granted read granted
  obtain ⟨project, found₂, files, sessions⟩ := changed.project after stored
  obtain ⟨project', found₃, ⟨account, known⟩, written, elsewhere, taken⟩ := revoke_project revoked
  rw [found₂] at found₃
  cases found₃
  have sameVisited : ∀ type, visited s₂ project type = visited s₀ listed type := by
    intro type
    cases type with
    | files =>
      exact existing_congr (files.trans sameFiles) fun id =>
        (changed.present .files id nofun).trans (present .files id nofun)
    | sessions =>
      exact existing_congr (sessions.trans sameSessions) fun id =>
        (changed.present .sessions id nofun).trans (present .sessions id nofun)
    | projects => rfl
  refine ⟨listed, project, found, found₂, sameVisited, ?_⟩
  -- Every visited document was reached by the acceptance, so the member still reads it through that row.
  have reads : ∀ type, ∀ id ∈ visited s₂ project type, ∀ doc, s₂.shareable type id = some doc →
      reaches s₂ userId doc = true := by
    intro type id member doc there
    have document : type ≠ .projects := by
      rintro rfl
      cases member
    have wasReached : id ∈ reached s₀ listed type := by
      rw [sameVisited] at member
      cases type with
      | files =>
        obtain ⟨among, facts⟩ := mem_existing.mp member
        exact mem_existing.mpr ⟨List.mem_append_left _ among, facts⟩
      | sessions => exact member
      | projects => cases member
    obtain ⟨granted, was, row, present, tagged, readable⟩ := rows type id wasReached
    obtain ⟨_, same⟩ := changed.kept type id granted doc document was there
    have held : row ∈ doc.users.filter (·.tagged userId invite.documentId) := by
      rw [same]
      rw [named] at tagged
      exact List.mem_filter.mpr ⟨present, tagged⟩
    obtain ⟨still, tagged⟩ := List.mem_filter.mp held
    have own : row.userId = account.id := by
      rw [s₂.named known]
      simp only [UserShare.tagged, Bool.and_eq_true, beq_iff_eq] at tagged
      exact tagged.1
    simp [reaches, known, accessible_of_row still own readable]
  have document : ∀ {type id}, id ∈ visited s₂ project type → type ≠ .projects := by
    rintro type id member rfl
    cases member
  refine ⟨fun type id member doc there other row present => ?_,
    fun type id member before doc was there own userId' other inProject reached row present => ?_,
    ⟨_, written, rfl, rfl, rfl⟩, elsewhere, fun type id kind before was => ?_⟩
  · rw [taken type id (document member)] at there
    obtain ⟨before, was, rfl⟩ := Option.map_eq_some_iff.mp there
    obtain ⟨present, spared⟩ := List.mem_filter.mp present
    by_contra tagged
    simp only [Bool.not_eq_false, UserShare.tagged, Bool.and_eq_true, beq_iff_eq] at tagged
    have foreign : ¬ before.userId = userId := other
    simp [member, Sharing.taken, foreign, tagged.1, tagged.2, reads type id member before was] at spared
  · rw [taken type id (document member), was] at there
    cases there
    obtain ⟨present, spared⟩ := List.mem_filter.mp present
    by_contra tagged
    simp only [Bool.not_eq_false, UserShare.tagged, Bool.and_eq_true, beq_iff_eq] at tagged
    have among : row.userId ∈ (project.without userId).others userId := by
      rw [tagged.1]
      exact mem_others_without.mpr ⟨other, inProject⟩
    simp [member, Sharing.taken, own, among, tagged.2, tagged.1 ▸ reached] at spared
  · rw [taken type id kind, was]
    refine ⟨fun row => !(decide (id ∈ visited s₂ project type) && Sharing.taken s₂ invite.documentId userId
      ((project.without userId).others userId) before row), rfl, fun row _ gone => ?_⟩
    simp only [Bool.not_eq_false', Bool.and_eq_true, decide_eq_true_eq, Sharing.taken, beq_iff_eq] at gone
    obtain ⟨visits, scope, taker⟩ := gone
    refine ⟨visits, scope, ?_⟩
    split at taker
    · rename_i own
      have among := List.contains_iff_mem.mp (Bool.and_eq_true_iff.mp taker).1
      exact Or.inr ⟨(mem_others_without.mp among).1, own⟩
    · rename_i foreign
      exact Or.inl ⟨by simpa using (Bool.and_eq_true_iff.mp taker).1, foreign⟩

end Leaving
namespace SharedProject

def project : String := "aaaaaaaaaaaaaaaaaaaaaaaa"
def ownFile : String := "bbbbbbbbbbbbbbbbbbbbbbbb"
def promptFile : String := "cccccccccccccccccccccccc"
def memberFile : String := "dddddddddddddddddddddddd"

/-- A project of `owner` that lists a file of its owner and one of `mia`, and a system prompt. On the file
of `mia` the project gave `bob` the permission to update, but not to read. -/
def start : Store where
  users id := if id ∈ ["owner", "mia", "bob"] then some { id, email := some id } else none
  files id :=
    if id = ownFile ∨ id = promptFile then some { userId := "owner", users := [] }
    else if id = memberFile then
      some { userId := "mia", users := [{ userId := "bob", permissions := [.update], projectId := some project }] }
    else none
  sessions _ := none
  projects id := if id = project then
    some { userId := "owner", users := [{ userId := "bob", permissions := [.update] }], fileIds := [ownFile, memberFile],
           sessionIds := [], systemPrompts := [⟨promptFile, true⟩] } else none
  invites := [{
    id := "eeeeeeeeeeeeeeeeeeeeeeee", token := some "key", type := .Project, documentId := project, inviterId := none,
    permissions := [.read], recipients := { pending := ["mia"] }, isLinkOnly := some false, remaining := 1, expiresAt := none }]
  named {id user} found := by
    split at found
    · cases found
      rfl
    · cases found

def accept : Result (Invite × Store) := acceptInvite (fun s _ _ _ => .ok s) start "mia" "key" 0

def leave (s : Store) : Result Store := revoke s "owner" { id := project, type := .projects, userId := "mia" }

/-- The grant rows on the three files, by user and project. -/
def seen (s : Store) : List (List (String × Option String)) :=
  [ownFile, promptFile, memberFile].map fun id =>
    ((s.files id).map fun doc => doc.users.map fun row => (row.userId, row.projectId)).getD []

end SharedProject

/-- The member leaves: the grant on the system prompt stays, and so do those on the member's own file, which
the project drops. -/
theorem prompt_grant_left :
    (SharedProject.accept.toOption.bind fun r => (SharedProject.leave r.2).toOption).map
      (fun s => (SharedProject.seen s, (s.projects SharedProject.project).map (·.fileIds))) =
    some ([[], [("mia", some SharedProject.project)], [("bob", some SharedProject.project), ("mia", some SharedProject.project)]],
      some [SharedProject.ownFile]) := by decide +kernel

theorem leaving_takes_back_shared : ∃ accepted s₁ s₃, SharedProject.accept = .ok (accepted, s₁) ∧ SharedProject.leave s₁ = .ok s₃ ∧
    ∃ listed project : Project, SharedProject.start.projects SharedProject.project = some listed ∧
      s₁.projects SharedProject.project = some project ∧
      (∀ type, visited s₁ project type = visited SharedProject.start listed type) ∧
      TakenBack SharedProject.project "mia" project s₁ s₃ := by
  have runs : (SharedProject.accept.toOption.bind fun r => (SharedProject.leave r.2).toOption).isSome = true := by
    decide +kernel
  obtain ⟨s₃, ran⟩ := Option.isSome_iff_exists.mp runs
  obtain ⟨⟨accepted, s₁⟩, accept, leave⟩ := Option.bind_eq_some_iff.mp ran
  have accept := toOption_some accept
  have leave := toOption_some leave
  have redeemed : redeem SharedProject.start "mia" "key" 0 =
      .ok ({ id := "mia", email := some "mia" }, "mia", SharedProject.start.invites.head (by decide)) :=
    toOption_some (by decide +kernel)
  exact ⟨accepted, s₁, s₃, accept, leave, leaving_takes_back redeemed rfl (by decide) accept OtherGrantsChanged.refl leave⟩

end Bike4Mind.Sharing
