import Bike4Mind.DataLakes.GrantEffects

/-! Who owns the lakes of an organization as its members transfer them and leave. -/

namespace Bike4Mind.DataLakes
open Collections

/-- The lakes and grants an organization sees, with its past members and those of them granted something since. -/
structure OrgState where
  clock : Time
  organization : Organization
  lakes : List DataLake
  grants : GrantTable
  departed : List String := []
  grantedSince : List String := []

namespace OrgState

def orgLakes (s : OrgState) : List DataLake := findByOrganizationId s.lakes s.organization.id.val

def activeGrants (s : OrgState) (lake : DataLake) (asOf : Time) : List LakeGrant := lakeGrants (grantRows s.grants) lake.id.val asOf

def owners (s : OrgState) (lake : DataLake) (asOf : Time) : List String :=
  resolveEffectiveOwnerIds lake.createdByUserId (s.activeGrants lake asOf)

def findOrganization (s : OrgState) (id : String) : Option Organization :=
  if id = s.organization.id.val then some s.organization else none

/-- A table written by a call that granted to these users. -/
def written (s : OrgState) (now : Time) (grants : GrantTable) (userIds : List String) : OrgState :=
  { s with clock := now, grants, grantedSince := s.grantedSince ++ userIds.filter (s.departed.contains ·) }

def withLake (s : OrgState) (now : Time) (lake : DataLake) : OrgState :=
  { s.written now (seedOwnerGrant s.grants lake.id.val lake.createdByUserId) [lake.createdByUserId] with lakes := s.lakes ++ [lake] }

def without (s : OrgState) (now : Time) (userId triggeredBy : String) : OrgState :=
  { s.written now (lapseDepartedMemberLakeAccess userId s.organization triggeredBy s.lakes now s.grants).1 [] with
    organization := removeMember s.organization userId
    departed := s.departed ++ [userId] }

end OrgState

inductive LakeStep where
  | create (lake : DataLake)
  | transfer (accounts : List Account) (actor : LakeTransferActor) (lake : DataLake) (newOwnerUserId : String)
  | grantAccess (accounts : List Account) (actor : ManageActor) (lake : DataLake) (input : GrantLakeAccessInput)
  | revokeAccess (actor : ManageActor) (lake : DataLake) (principalType : PrincipalType) (principalId : String)
  | depart (userId triggeredBy : String)

section Run
variable (sameAddress : String → String → Bool)

/-- One call at a time; a refused one is no step. -/
def step (s : OrgState) (now : Time) (a : LakeStep) : Option OrgState :=
  if now < s.clock then none
  else
    match a with
    | .create lake =>
      if lake.organizationId = some s.organization.id.val ∧ isOrgOwnershipCandidate s.organization lake.createdByUserId = true ∧
          lake.id ∉ s.lakes.map (·.id) ∧ lake.id.val ∉ s.grants.keys.map (·.dataLakeId) then
        some (s.withLake now lake)
      else none
    | .transfer accounts actor lake newOwnerUserId =>
      if lake ∈ s.orgLakes then
        match authorizeLakeTransfer accounts s.findOrganization actor lake (s.activeGrants lake now) newOwnerUserId with
        | .error _ => none
        | .ok authorized =>
          let (grants, result) :=
            applyLakeOwnershipTransfer actor.toManageActor lake (s.activeGrants lake now) authorized.newOwnerUserId s.grants
          some (s.written now grants (result.newOwnerUserId :: result.demotedUserIds))
      else none
    | .grantAccess accounts actor lake input =>
      if lake ∈ s.orgLakes then
        match grantLakeAccess sameAddress accounts actor lake (s.activeGrants lake now) input now s.grants with
        | .error _ => none
        | .ok (grants, result) => some (s.written now grants (if result.principalType = .user then [result.principalId] else []))
      else none
    | .revokeAccess actor lake principalType principalId =>
      if lake ∈ s.orgLakes then
        match revokeLakeAccess actor lake (s.activeGrants lake now) principalType principalId s.grants with
        | .error _ => none
        | .ok (grants, _) => some (s.written now grants [])
      else none
    | .depart userId triggeredBy =>
      if isOrgOwnershipCandidate s.organization userId = true ∧ userId ≠ s.organization.userId then
        some (s.without now userId triggeredBy)
      else none

def run : OrgState → List (Time × LakeStep) → Option OrgState
  | s, [] => some s
  | s, (now, a) :: rest => (step sameAddress s now a).bind (run · rest)

/-- A property of every state of a run. -/
def Always (P : OrgState → Prop) : OrgState → List (Time × LakeStep) → Prop
  | s, [] => P s
  | s, (now, a) :: rest => P s ∧ ∀ s', step sameAddress s now a = some s' → Always P s' rest

/-- A property of every step of a run, of the state before it. -/
def EachStep (P : OrgState → Time → LakeStep → Prop) : OrgState → List (Time × LakeStep) → Prop
  | _, [] => True
  | s, (now, a) :: rest => ∀ s', step sameAddress s now a = some s' → P s now a ∧ EachStep P s' rest

end Run

/-- An organization before its first lake. -/
structure Founded (s : OrgState) : Prop where
  owned : s.organization.userId ≠ ""
  distinct : (s.lakes.map (·.id)).Nodup
  noLake : s.orgLakes = []
  everyoneIn : s.departed = []

structure OwnedByMembers (s : OrgState) : Prop where
  owned : ∀ lake ∈ s.orgLakes, ∀ now, s.clock ≤ now → s.owners lake now ≠ []
  members : ∀ lake ∈ s.orgLakes, ∀ now, s.clock ≤ now → ∀ userId ∈ s.owners lake now, userId ∉ s.departed
  unmanaged : ∀ lake ∈ s.orgLakes, ∀ now, s.clock ≤ now → ∀ actor : ManageActor, actor.userId ∈ s.departed →
    actor.userId ∉ s.grantedSince → actor.isAdmin = false →
    (administers actor.administeredOrgIds s.organization.id.val = true → isOrgAdminOf s.organization actor.userId = true) →
    canManageLake lake actor (s.activeGrants lake now) = false

/-- No member leaves as the last to hold an owner grant on a lake whose creator has left. -/
def leavesOwner (s : OrgState) (now : Time) : LakeStep → Prop
  | .depart userId _ => ∀ lake ∈ s.orgLakes, lake.createdByUserId ∈ s.departed →
      ∃ g ∈ s.activeGrants lake now, g.ownsAsUser = true ∧ g.principalId ≠ userId
  | _ => True

/-! ### What holds between steps -/

def GrantTerms.lapsedBy (clock : Time) (terms : GrantTerms) : Prop := ∃ e, terms.expiresAt = some e ∧ e ≤ clock

/-- Owner grants of past members have lapsed, and so have all their grants from before they left. -/
def TermsKept (s : OrgState) (userId : String) (terms : GrantTerms) : Prop :=
  (terms.role = .owner → terms.expiresAt = none ∧ userId ∉ s.departed ∨ terms.lapsedBy s.clock) ∧
  (userId ∈ s.departed → userId ∉ s.grantedSince → terms.lapsedBy s.clock)

/-- An owner grant without an end. -/
def OwnsForGood (table : GrantTable) (dataLakeId userId : String) : Prop :=
  ∃ terms, table.get? (userKey dataLakeId userId) = some terms ∧ terms.role = .owner ∧ terms.expiresAt = none

structure Kept (s : OrgState) : Prop where
  named : s.organization.userId ≠ ""
  distinct : (s.lakes.map (·.id)).Nodup
  created : ∀ lake ∈ s.orgLakes, lake.createdByUserId ≠ ""
  outside : ∀ userId ∈ s.departed, isOrgOwnershipCandidate s.organization userId = false
  terms : ∀ lake ∈ s.orgLakes, ∀ userId terms, s.grants.get? (userKey lake.id.val userId) = some terms → TermsKept s userId terms
  successor : ∀ lake ∈ s.orgLakes, lake.createdByUserId ∈ s.departed → ∃ userId ≠ "", OwnsForGood s.grants lake.id.val userId

section Facts
variable {s : OrgState} {now : Time} {lake : DataLake} {terms : GrantTerms} {userId : String}

theorem lapsed_inactive (lapsed : terms.lapsedBy s.clock) (later : s.clock ≤ now) : terms.activeAsOf now = false := by
  obtain ⟨e, expires, past⟩ := lapsed
  simp only [GrantTerms.activeAsOf, expires, Option.all_some, decide_eq_false_iff_not, not_lt]
  exact Int.le_trans past later

theorem inactive_lapsed (ended : terms.activeAsOf now = false) : terms.lapsedBy now := by
  unfold GrantTerms.activeAsOf at ended
  rcases expires : terms.expiresAt with - | e
  · simp [expires] at ended
  · exact ⟨e, expires, by simpa [expires] using ended⟩

theorem forGood_owns (owns : OwnsForGood s.grants lake.id.val userId) : OwnsAt s.grants now lake.id.val userId := by
  obtain ⟨terms, found, role, endless⟩ := owns
  exact ⟨terms, found, role, by simp [GrantTerms.activeAsOf, endless]⟩

theorem Kept.owns_forGood (kept : Kept s) (member : lake ∈ s.orgLakes) (later : s.clock ≤ now)
    (owns : OwnsAt s.grants now lake.id.val userId) : OwnsForGood s.grants lake.id.val userId ∧ userId ∉ s.departed := by
  obtain ⟨terms, found, role, live⟩ := owns
  rcases (kept.terms lake member userId terms found).1 role with ⟨endless, current⟩ | lapsed
  · exact ⟨⟨terms, found, role, endless⟩, current⟩
  · rw [lapsed_inactive lapsed later] at live
    cases live

theorem Kept.owner_current (kept : Kept s) (member : lake ∈ s.orgLakes) (later : s.clock ≤ now)
    (owner : userId ∈ s.owners lake now) : userId ∉ s.departed := by
  rcases (effective_owner_iff (owner_named owner)).mp owner with owns | ⟨rfl, unowned⟩
  · exact (kept.owns_forGood member later owns).2
  · intro gone
    obtain ⟨other, blank, owns⟩ := kept.successor lake member gone
    exact unowned other blank (forGood_owns owns)

theorem orgLake_organization (member : lake ∈ s.orgLakes) : normalizeId lake.organizationId = some s.organization.id.val := by
  have here := (List.mem_filter.mp member).2
  exact normalizeId_eq_some.mpr ⟨by simpa using here, s.organization.id.property⟩

theorem Kept.ownedByMembers (kept : Kept s) : OwnedByMembers s where
  owned lake member _ _ := owners_nonempty (kept.created lake member)
  members lake member _ later _ owner := kept.owner_current member later owner
  unmanaged lake member now later actor gone ungranted notAdmin rights := by
    by_contra manages
    have organization := orgLake_organization member
    have outside := kept.outside _ gone
    by_cases named : actor.userId = ""
    · simp [canManageLake, notAdmin, named] at manages
    rcases (canManageLake_iff notAdmin named).mp (Bool.not_eq_false _ ▸ manages) with
      owner | ⟨g, held, isUser, own, role⟩ | ⟨org, here, administered⟩ | ⟨orgless, -⟩
    · exact kept.owner_current member later owner gone
    · obtain ⟨terms, found, -, live⟩ := mem_lakeGrants_rows.mp held
      rw [isUser, own] at found
      have lapsed := (kept.terms lake member _ terms found).2 gone ungranted
      rw [lapsed_inactive lapsed later] at live
      cases live
    · rw [organization, Option.some.injEq] at here
      subst here
      have rightful := rights administered
      simp [isOrgAdminOf, named] at rightful
      simp [isOrgOwnershipCandidate, listOrgOwnershipCandidateIds, named] at outside
      exact rightful.elim (fun owner => outside.1 owner.symm) outside.2.1
    · rw [organization] at orgless
      cases orgless

/-! ### Grants and transfers -/

variable {sameAddress : String → String → Bool} {grants' : GrantTable} {userIds : List String}

theorem TermsKept.later {s' : OrgState} (kept : TermsKept s userId terms) (later : s.clock ≤ s'.clock)
    (same : userId ∈ s'.departed ↔ userId ∈ s.departed) (since : ∀ id ∈ s.grantedSince, id ∈ s'.grantedSince) :
    TermsKept s' userId terms := by
  have lapsed : terms.lapsedBy s.clock → terms.lapsedBy s'.clock := fun ⟨e, expires, past⟩ => ⟨e, expires, Int.le_trans past later⟩
  refine ⟨fun role => (kept.1 role).imp (And.imp_right (mt same.mp)) lapsed, fun gone ungranted => lapsed (kept.2 (same.mp gone) ?_)⟩
  exact mt (since userId) ungranted

theorem TermsKept.written (kept : TermsKept s userId terms) (later : s.clock ≤ now) :
    TermsKept (s.written now grants' userIds) userId terms :=
  kept.later later Iff.rfl fun _ => List.mem_append_left _

theorem Kept.written (kept : Kept s) (later : s.clock ≤ now)
    (rows : ∀ lake ∈ s.orgLakes, ∀ userId terms, grants'.get? (userKey lake.id.val userId) = some terms →
      s.grants.get? (userKey lake.id.val userId) = some terms ∨ TermsKept (s.written now grants' userIds) userId terms)
    (owned : ∀ lake ∈ s.orgLakes, ∀ userId ≠ "", OwnsForGood s.grants lake.id.val userId →
      ∃ userId ≠ "", OwnsForGood grants' lake.id.val userId) : Kept (s.written now grants' userIds) where
  named := kept.named
  distinct := kept.distinct
  created := kept.created
  outside := kept.outside
  terms lake member userId terms found :=
    (rows lake member userId terms found).elim (fun old => (kept.terms lake member userId terms old).written later) id
  successor lake member gone := by
    obtain ⟨userId, named, owns⟩ := kept.successor lake member gone
    exact owned lake member userId named owns

theorem authorized_candidate {accounts : List Account} {findOrganization : String → Option Organization} {actor : LakeTransferActor}
    {grants : List LakeGrant} {newOwnerUserId : String} {authorized : LakeTransferAuthorization} {organization : Organization}
    (ok : authorizeLakeTransfer accounts findOrganization actor lake grants newOwnerUserId = .ok authorized) {id : String}
    (org : normalizeId lake.organizationId = some id) (found : findOrganization id = some organization) :
    isOrgOwnershipCandidate organization authorized.newOwnerUserId = true := by
  unfold authorizeLakeTransfer at ok
  dsimp only at ok
  split at ok
  · cases ok
  · split at ok
    · cases ok
    · split at ok
      · cases ok
      · split at ok
        · cases ok
        · rename_i candidate
          cases ok
          simpa [org, found] using candidate

theorem candidate_named {organization : Organization} (candidate : isOrgOwnershipCandidate organization userId = true) : userId ≠ "" := by
  simp only [isOrgOwnershipCandidate, Bool.and_eq_true, bne_iff_ne] at candidate
  exact candidate.1

theorem Kept.candidate_current (kept : Kept s) (candidate : isOrgOwnershipCandidate s.organization userId = true) :
    userId ∉ s.departed := by
  intro gone
  rw [kept.outside userId gone] at candidate
  cases candidate

theorem Kept.transferred (kept : Kept s) (later : s.clock ≤ now) (member : lake ∈ s.orgLakes) {actor : ManageActor}
    (candidate : isOrgOwnershipCandidate s.organization userId = true) :
    Kept (s.written now (applyLakeOwnershipTransfer actor lake (s.activeGrants lake now) userId s.grants).1
      (userId :: (s.owners lake now).filter (· ≠ userId))) := by
  have found : ∀ key, (applyLakeOwnershipTransfer actor lake (s.activeGrants lake now) userId s.grants).1.get? key =
      if key.dataLakeId = lake.id.val ∧ key.principalType = .user ∧ key.principalId ∈ (s.owners lake now).filter (· ≠ userId) then
        some { role := .curator, grantedByUserId := actor.userId, expiresAt := none }
      else if key = userKey lake.id.val userId then some { role := .owner, grantedByUserId := actor.userId, expiresAt := none }
      else s.grants.get? key := by
    intro key
    unfold applyLakeOwnershipTransfer
    dsimp only
    rw [get?_demoted, get?_upsertGrant]
    rfl
  refine kept.written later ?_ ?_
  · intro other _ owner terms there
    rw [found] at there
    split at there
    · rename_i demoted
      cases there
      have current := kept.owner_current member later (List.mem_filter.mp demoted.2.2).1
      refine Or.inr ⟨fun owner => ?_, fun gone => (current gone).elim⟩
      cases owner
    · split at there
      · rename_i same
        cases there
        injection same with _ _ same
        subst same
        exact Or.inr ⟨fun _ => Or.inl ⟨rfl, kept.candidate_current candidate⟩, fun gone => (kept.candidate_current candidate gone).elim⟩
      · exact Or.inl there
  · intro other _ owner named owns
    by_cases here : other.id.val = lake.id.val
    · refine ⟨userId, candidate_named candidate, { role := .owner, grantedByUserId := actor.userId }, ?_, rfl, rfl⟩
      rw [found, if_neg (by simp [userKey]), here, if_pos rfl]
    · obtain ⟨terms, there, role, endless⟩ := owns
      refine ⟨owner, named, terms, ?_, role, endless⟩
      rw [found, if_neg fun h => here h.1, if_neg fun same => here (by injection same), there]

theorem refused_ok {refusal : Option String} (ok : refused refusal = .ok ()) : refusal = none := by
  cases refusal with
  | none => rfl
  | some message => cases ok

theorem unowned_row {existing : Option GrantTerms} (ok : refuseOwnerGrantChange existing = none) (found : existing = some terms) :
    terms.role ≠ .owner := by
  subst found
  intro owner
  simp [refuseOwnerGrantChange, owner] at ok

theorem refuseGrantWrite_role {principalType : PrincipalType} {principalId : String} {role : AccessRole} {expiresAt : Option (Option Time)}
    (ok : refuseGrantWrite lake principalType principalId role expiresAt now = none) : role ≠ .owner := by
  rintro rfl
  unfold refuseGrantWrite at ok
  split at ok
  · cases ok
  · simp at ok

/-- The sharing door writes one row that is no owner's, neither before nor after. -/
theorem grantLakeAccess_ok {accounts : List Account} {actor : ManageActor} {grants : List LakeGrant} {input : GrantLakeAccessInput}
    {table table' : GrantTable} {result : GrantLakeAccessResult}
    (ok : grantLakeAccess sameAddress accounts actor lake grants input now table = .ok (table', result)) :
    ∃ expiresAt, table' = upsertGrant table ⟨lake.id.val, result.principalType, result.principalId⟩ input.role actor.userId expiresAt ∧
      input.role ≠ .owner ∧
      ∀ terms, table.get? ⟨lake.id.val, result.principalType, result.principalId⟩ = some terms → terms.role ≠ .owner := by
  unfold grantLakeAccess at ok
  obtain ⟨-, -, ok⟩ := bind_ok ok
  obtain ⟨principalId, -, ok⟩ := bind_ok ok
  obtain ⟨⟨⟩, permitted, ok⟩ := bind_ok ok
  obtain ⟨⟨⟩, unowned, ok⟩ := bind_ok ok
  obtain ⟨⟨⟩, -, ok⟩ := bind_ok ok
  have unowned := refused_ok unowned
  cases ok
  exact ⟨_, rfl, refuseGrantWrite_role (refused_ok permitted), fun terms found => unowned_row unowned found⟩

theorem revokeLakeAccess_ok {actor : ManageActor} {grants : List LakeGrant} {principalType : PrincipalType} {principalId : String}
    {table table' : GrantTable} {revoked : Bool}
    (ok : revokeLakeAccess actor lake grants principalType principalId table = .ok (table', revoked)) :
    table' = table ∨ table' = removeGrant table ⟨lake.id.val, principalType, principalId⟩ ∧
      ∀ terms, table.get? ⟨lake.id.val, principalType, principalId⟩ = some terms → terms.role ≠ .owner := by
  unfold revokeLakeAccess at ok
  obtain ⟨-, -, ok⟩ := bind_ok ok
  dsimp only at ok
  split at ok
  · cases ok
    exact Or.inl rfl
  · obtain ⟨⟨⟩, unowned, ok⟩ := bind_ok ok
    have unowned := refused_ok unowned
    cases ok
    exact Or.inr ⟨rfl, fun terms found => unowned_row unowned found⟩

theorem Kept.shared (kept : Kept s) (later : s.clock ≤ now) {accounts : List Account} {actor : ManageActor} {grants : List LakeGrant}
    {input : GrantLakeAccessInput} {table' : GrantTable} {result : GrantLakeAccessResult}
    (ok : grantLakeAccess sameAddress accounts actor lake grants input now s.grants = .ok (table', result)) :
    Kept (s.written now table' (if result.principalType = .user then [result.principalId] else [])) := by
  obtain ⟨expiresAt, rfl, ordinary, unowned⟩ := grantLakeAccess_ok ok
  refine kept.written later ?_ ?_
  · intro other _ holder terms there
    rw [get?_upsertGrant] at there
    split at there
    · rename_i same
      cases there
      injection same with _ isUser same
      refine Or.inr ⟨fun owner => (ordinary owner).elim, fun gone ungranted => (ungranted ?_).elim⟩
      refine List.mem_append_right _ (List.mem_filter.mpr ⟨?_, List.contains_iff_mem.mpr gone⟩)
      rw [if_pos isUser.symm, same]
      exact List.mem_singleton_self _
    · exact Or.inl there
  · rintro other _ holder named ⟨terms, there, role, endless⟩
    refine ⟨holder, named, terms, ?_, role, endless⟩
    rw [get?_upsertGrant, if_neg, there]
    intro same
    exact unowned terms (same ▸ there) role

theorem Kept.revoked (kept : Kept s) (later : s.clock ≤ now) {actor : ManageActor} {grants : List LakeGrant}
    {principalType : PrincipalType} {principalId : String} {table' : GrantTable} {revoked : Bool}
    (ok : revokeLakeAccess actor lake grants principalType principalId s.grants = .ok (table', revoked)) :
    Kept (s.written now table' []) := by
  rcases revokeLakeAccess_ok ok with rfl | ⟨rfl, unowned⟩
  · exact kept.written later (fun _ _ _ _ => Or.inl) fun _ _ holder named owns => ⟨holder, named, owns⟩
  · refine kept.written later ?_ ?_
    · intro other _ holder terms there
      rw [removeGrant, OrderedMap.get?_erase] at there
      split at there
      · cases there
      · exact Or.inl there
    · rintro other _ holder named ⟨terms, there, role, endless⟩
      refine ⟨holder, named, terms, ?_, role, endless⟩
      rw [removeGrant, OrderedMap.get?_erase, if_neg, there]
      intro same
      exact unowned terms (same ▸ there) role

/-! ### Creation -/

theorem Kept.created_lake (kept : Kept s) (later : s.clock ≤ now) (here : lake.organizationId = some s.organization.id.val)
    (candidate : isOrgOwnershipCandidate s.organization lake.createdByUserId = true) (newId : lake.id ∉ s.lakes.map (·.id))
    (ungranted : lake.id.val ∉ s.grants.keys.map (·.dataLakeId)) : Kept (s.withLake now lake) := by
  have lakes : (s.withLake now lake).orgLakes = s.orgLakes ++ [lake] := by
    simp [OrgState.withLake, OrgState.written, OrgState.orgLakes, findByOrganizationId, here]
  have norow : ∀ userId, s.grants.get? (userKey lake.id.val userId) = none := fun userId =>
    OrderedMap.get?_none_iff.mpr fun row => ungranted (List.mem_map.mpr ⟨_, row, rfl⟩)
  have found : ∀ key, (s.withLake now lake).grants.get? key =
      if key = userKey lake.id.val lake.createdByUserId then
        some { role := .owner, grantedByUserId := lake.createdByUserId, expiresAt := none }
      else s.grants.get? key := by
    intro key
    unfold OrgState.withLake OrgState.written seedOwnerGrant
    dsimp only
    rw [get?_upsertGrant]
    have norow := norow lake.createdByUserId
    unfold userKey at norow ⊢
    simp [findGrant, norow]
  refine ⟨kept.named, ?_, ?_, kept.outside, ?_, ?_⟩
  · unfold OrgState.withLake
    rw [List.map_append, List.nodup_append]
    refine ⟨kept.distinct, List.nodup_singleton _, ?_⟩
    rintro id member _ last rfl
    cases List.mem_singleton.mp last
    exact newId member
  · intro other member
    rw [lakes, List.mem_append] at member
    rcases member with old | new
    · exact kept.created other old
    · rw [List.mem_singleton.mp new]
      exact candidate_named candidate
  · intro other member holder terms there
    rw [found] at there
    split at there
    · rename_i same
      cases there
      injection same with _ _ same
      subst same
      exact ⟨fun _ => Or.inl ⟨rfl, kept.candidate_current candidate⟩, fun gone => (kept.candidate_current candidate gone).elim⟩
    · rw [lakes, List.mem_append] at member
      rcases member with old | new
      · exact (kept.terms other old holder terms there).later later Iff.rfl fun _ => List.mem_append_left _
      · rw [List.mem_singleton.mp new, norow] at there
        cases there
  · intro other member gone
    rw [lakes, List.mem_append] at member
    rcases member with old | new
    · obtain ⟨holder, named, terms, there, role, endless⟩ := kept.successor other old gone
      refine ⟨holder, named, terms, ?_, role, endless⟩
      rw [found, if_neg, there]
      intro same
      rw [same, norow] at there
      cases there
    · rw [List.mem_singleton.mp new] at gone
      exact (kept.candidate_current candidate gone).elim

/-! ### Departure -/

variable {triggeredBy : String}

/-- No owner grant on the lake but of the one who leaves. -/
def alone (s : OrgState) (now : Time) (lake : DataLake) (userId : String) : Prop :=
  ∀ other ≠ "", other ≠ userId → ¬OwnsAt s.grants now lake.id.val other

theorem ownsAt_lapsed (member : lake ∈ s.orgLakes) {other : String} :
    OwnsAt (lapseOwnGrants userId s.orgLakes now s.grants).1 now lake.id.val other ↔
      other ≠ userId ∧ OwnsAt s.grants now lake.id.val other := by
  have listed : lake.id.val ∈ s.orgLakes.map (·.id.val) := List.mem_map.mpr ⟨lake, member, rfl⟩
  unfold OwnsAt
  rw [get?_lapseOwnGrants listed]
  by_cases leaving : other = userId
  · simp only [leaving, if_true, ne_eq, not_true_eq_false, false_and, iff_false]
    rintro ⟨terms, found, -, live⟩
    obtain ⟨before, -, rfl⟩ := Option.map_eq_some_iff.mp found
    split at live
    · simp [GrantTerms.activeAsOf] at live
    · rename_i ended
      exact ended live
  · simp [leaving]

open Classical in
/-- A departure ends the grants of the one who leaves, and hands on the lakes that would be theirs alone. -/
theorem Kept.get?_without (kept : Kept s) (member : lake ∈ s.orgLakes) (other : userId ≠ s.organization.userId) {holder : String} :
    (s.without now userId triggeredBy).grants.get? (userKey lake.id.val holder) =
      if holder = s.organization.userId ∧ lake.createdByUserId = userId ∧ alone s now lake userId then
        some { role := .owner, grantedByUserId := triggeredBy, expiresAt := none }
      else if holder = userId then (s.grants.get? (userKey lake.id.val holder)).map fun terms =>
        if terms.activeAsOf now then { terms with expiresAt := some now } else terms
      else s.grants.get? (userKey lake.id.val holder) := by
  have listed : lake.id.val ∈ s.orgLakes.map (·.id.val) := List.mem_map.mpr ⟨lake, member, rfl⟩
  have unique : (s.orgLakes.map (·.id)).Nodup := kept.distinct.sublist (List.filter_sublist.map _)
  have some_lake : s.orgLakes ≠ [] := List.ne_nil_of_mem member
  have left : (s.without now userId triggeredBy).grants =
      (passOnCreatedLakes userId s.organization s.orgLakes triggeredBy now (lapseOwnGrants userId s.orgLakes now s.grants).1).1 := by
    unfold OrgState.without OrgState.written lapseDepartedMemberLakeAccess
    dsimp only
    rw [if_neg (show findByOrganizationId s.lakes s.organization.id.val ≠ [] from some_lake)]
    rfl
  rw [left, get?_passOnCreatedLakes kept.named (Ne.symm other) unique member, get?_lapseOwnGrants listed]
  refine if_congr (and_congr_right fun _ => and_congr_right fun created => ?_) rfl rfl
  constructor
  · intro theirs holder blank others owns
    have owns : OwnsAt (lapseOwnGrants userId s.orgLakes now s.grants).1 now lake.id.val holder :=
      (ownsAt_lapsed member).mpr ⟨others, owns⟩
    exact others (theirs holder ((effective_owner_iff blank).mpr (Or.inl owns)))
  · intro single owner owns
    rcases (effective_owner_iff (owner_named owns)).mp owns with granted | ⟨creator, -⟩
    · obtain ⟨others, granted⟩ := (ownsAt_lapsed member).mp granted
      exact (single owner (owner_named owns) others granted).elim
    · exact creator.symm.trans created

theorem removed_candidate {organization : Organization} {other : String}
    (candidate : isOrgOwnershipCandidate (removeMember organization userId) other = true) :
    isOrgOwnershipCandidate organization other = true ∧ (other = userId → userId = organization.userId) := by
  simp only [isOrgOwnershipCandidate, listOrgOwnershipCandidateIds, removeMember, Bool.and_eq_true, bne_iff_ne,
    List.contains_iff_mem, mem_distinct, List.mem_filter, List.mem_append, List.mem_cons, decide_eq_true_eq] at candidate ⊢
  obtain ⟨named, (⟨owner | ⟨admin, others⟩⟩ | ⟨user, others⟩), -⟩ := candidate
  · exact ⟨⟨named, Or.inl (Or.inl owner), named⟩, fun same => same ▸ owner⟩
  · exact ⟨⟨named, Or.inl (Or.inr admin), named⟩, fun same => (others same).elim⟩
  · exact ⟨⟨named, Or.inr user, named⟩, fun same => (others same).elim⟩

theorem Kept.left (kept : Kept s) (later : s.clock ≤ now)
    (other : userId ≠ s.organization.userId) (meets : leavesOwner s now (.depart userId triggeredBy)) :
    Kept (s.without now userId triggeredBy) where
  named := kept.named
  distinct := kept.distinct
  created := kept.created
  outside holder gone := by
    by_contra candidate'
    obtain ⟨before, owner⟩ := removed_candidate (Bool.not_eq_false _ ▸ candidate')
    rcases List.mem_append.mp gone with past | leaving
    · rw [kept.outside holder past] at before
      cases before
    · exact other (owner (List.mem_singleton.mp leaving))
  terms lake member holder terms found := by
    have lapsed : ∀ {before : GrantTerms}, (if before.activeAsOf now then { before with expiresAt := some now } else before).lapsedBy now := by
      intro before
      split
      · exact ⟨now, rfl, Int.le_refl now⟩
      · rename_i ended
        exact inactive_lapsed (Bool.not_eq_true _ ▸ ended)
    rw [kept.get?_without member other] at found
    split at found
    · rename_i handed
      cases found
      have current : s.organization.userId ∉ s.departed ++ [userId] := by
        rw [List.mem_append, List.mem_singleton]
        rintro (past | same)
        · exact kept.candidate_current (by simp [isOrgOwnershipCandidate, listOrgOwnershipCandidateIds, kept.named]) past
        · exact other same.symm
      rw [handed.1]
      exact ⟨fun _ => Or.inl ⟨rfl, current⟩, fun gone => (current gone).elim⟩
    · split at found
      · obtain ⟨before, -, rfl⟩ := Option.map_eq_some_iff.mp found
        exact ⟨fun _ => Or.inr lapsed, fun _ _ => lapsed⟩
      · rename_i staying
        refine (kept.terms lake member holder terms found).later later ?_ fun _ => List.mem_append_left _
        refine ⟨fun gone => (List.mem_append.mp gone).resolve_right fun leaving => ?_, List.mem_append_left _⟩
        exact staying (List.mem_singleton.mp leaving)
  successor lake member gone := by
    have keeps : ∀ owner ≠ "", owner ≠ userId → OwnsAt s.grants now lake.id.val owner →
        ∃ owner ≠ "", OwnsForGood (s.without now userId triggeredBy).grants lake.id.val owner := by
      intro owner named staying owns
      obtain ⟨terms, found, role, endless⟩ := (kept.owns_forGood member later owns).1
      refine ⟨owner, named, ?_⟩
      unfold OwnsForGood
      rw [kept.get?_without member other, if_neg staying, found]
      split
      · exact ⟨_, rfl, rfl, rfl⟩
      · exact ⟨terms, rfl, role, endless⟩
    rcases List.mem_append.mp gone with past | leaving
    · obtain ⟨g, held, owned, staying⟩ := meets lake member past
      simp only [LakeGrant.ownsAsUser, Bool.and_eq_true, beq_iff_eq, bne_iff_ne] at owned
      exact keeps _ owned.2 staying (ownsAt_iff.mpr ⟨g, held, owned.1.1, owned.1.2, rfl⟩)
    · by_cases single : alone s now lake userId
      · refine ⟨s.organization.userId, kept.named, { role := .owner, grantedByUserId := triggeredBy }, ?_, rfl, rfl⟩
        rw [kept.get?_without member other, if_pos ⟨rfl, List.mem_singleton.mp leaving, single⟩]
      · unfold alone at single
        push Not at single
        obtain ⟨owner, named, staying, owns⟩ := single
        exact keeps owner named staying owns

/-- A member who leaves as the last owner of a lake whose creator has left before leaves it to that creator. -/
theorem Kept.left_to_departed (kept : Kept s) (other : userId ≠ s.organization.userId) (candidate : isOrgOwnershipCandidate s.organization userId = true)
    (violates : ¬leavesOwner s now (.depart userId triggeredBy)) : ¬OwnedByMembers (s.without now userId triggeredBy) := by
  intro owned
  unfold leavesOwner at violates
  push Not at violates
  obtain ⟨lake, member, past, lone⟩ := violates
  have unowned : ∀ owner ≠ "", ¬OwnsAt (s.without now userId triggeredBy).grants now lake.id.val owner := by
    rintro owner named ⟨terms, found, role, live⟩
    rw [kept.get?_without member other, if_neg] at found
    · split at found
      · obtain ⟨before, -, rfl⟩ := Option.map_eq_some_iff.mp found
        split at live
        · simp [GrantTerms.activeAsOf] at live
        · rename_i ended
          exact ended live
      · rename_i staying
        obtain ⟨g, held, isUser, isOwner, rfl⟩ := ownsAt_iff.mp ⟨terms, found, role, live⟩
        exact staying (lone g held (by simp [LakeGrant.ownsAsUser, isUser, isOwner, named]))
    · rintro ⟨-, creator, -⟩
      exact kept.candidate_current candidate (creator ▸ past)
  refine owned.members lake member now (Int.le_refl now) lake.createdByUserId ?_ (List.mem_append_left _ past)
  exact (effective_owner_iff (kept.created lake member)).mpr (Or.inr ⟨rfl, unowned⟩)

/-! ### Runs -/

theorem Kept.step {s' : OrgState} {a : LakeStep} (kept : Kept s) (meets : leavesOwner s now a)
    (stepped : DataLakes.step sameAddress s now a = some s') : Kept s' := by
  unfold DataLakes.step at stepped
  split at stepped
  · cases stepped
  rename_i later
  have later : s.clock ≤ now := not_lt.mp later
  cases a with
  | create lake =>
    obtain ⟨⟨here, candidate, newId, ungranted⟩, stepped⟩ := (ite_eq_iff.mp stepped).resolve_right fun h => nomatch h.2
    cases stepped
    exact kept.created_lake later here candidate newId ungranted
  | transfer accounts actor lake newOwnerUserId =>
    obtain ⟨member, stepped⟩ := (ite_eq_iff.mp stepped).resolve_right fun h => nomatch h.2
    dsimp only at stepped
    split at stepped
    · cases stepped
    · rename_i authorized ok
      cases stepped
      refine kept.transferred later member (authorized_candidate ok (orgLake_organization member) ?_)
      simp [OrgState.findOrganization]
  | grantAccess accounts actor lake input =>
    obtain ⟨-, stepped⟩ := (ite_eq_iff.mp stepped).resolve_right fun h => nomatch h.2
    split at stepped
    · cases stepped
    · rename_i table result ok
      cases stepped
      exact kept.shared later ok
  | revokeAccess actor lake principalType principalId =>
    obtain ⟨-, stepped⟩ := (ite_eq_iff.mp stepped).resolve_right fun h => nomatch h.2
    split at stepped
    · cases stepped
    · rename_i table revoked ok
      cases stepped
      exact kept.revoked later ok
  | depart leaving triggeredBy =>
    obtain ⟨⟨-, other⟩, stepped⟩ := (ite_eq_iff.mp stepped).resolve_right fun h => nomatch h.2
    cases stepped
    exact kept.left later other meets

/-- The only step that can break ownership is a departure that leaves no owner. -/
theorem Kept.step_breaks {s' : OrgState} {a : LakeStep} (kept : Kept s) (violates : ¬leavesOwner s now a)
    (stepped : DataLakes.step sameAddress s now a = some s') : ¬OwnedByMembers s' := by
  cases a with
  | depart leaving triggeredBy =>
    unfold DataLakes.step at stepped
    split at stepped
    · cases stepped
    obtain ⟨⟨candidate, other⟩, stepped⟩ := (ite_eq_iff.mp stepped).resolve_right fun h => nomatch h.2
    cases stepped
    exact kept.left_to_departed other candidate violates
  | create | transfer | grantAccess | revokeAccess => exact (violates trivial).elim

theorem always_start {P : OrgState → Prop} {steps : List (Time × LakeStep)} (always : Always sameAddress P s steps) : P s := by
  cases steps with
  | nil => exact always
  | cons first rest => exact always.1

theorem always_run {P : OrgState → Prop} {steps : List (Time × LakeStep)} {s' : OrgState} (always : Always sameAddress P s steps)
    (ran : run sameAddress s steps = some s') : P s' := by
  induction steps generalizing s with
  | nil =>
    cases ran
    exact always
  | cons first rest ih =>
    obtain ⟨next, stepped, ran⟩ := Option.bind_eq_some_iff.mp ran
    exact ih (always.2 next stepped) ran

theorem Kept.run (kept : Kept s) (steps : List (Time × LakeStep)) :
    Always sameAddress OwnedByMembers s steps ↔ EachStep sameAddress leavesOwner s steps := by
  induction steps generalizing s with
  | nil => exact iff_of_true kept.ownedByMembers trivial
  | cons first rest ih =>
    obtain ⟨now, a⟩ := first
    constructor
    · rintro ⟨-, always⟩ s' stepped
      have meets : leavesOwner s now a := by
        by_contra violates
        exact kept.step_breaks violates stepped (always_start (always s' stepped))
      exact ⟨meets, (ih (kept.step meets stepped)).mp (always s' stepped)⟩
    · intro each
      refine ⟨kept.ownedByMembers, fun s' stepped => ?_⟩
      obtain ⟨meets, onwards⟩ := each s' stepped
      exact (ih (kept.step meets stepped)).mpr onwards

theorem Founded.kept (founded : Founded s) : Kept s where
  named := founded.owned
  distinct := founded.distinct
  created lake member := by rw [founded.noLake] at member; cases member
  outside userId gone := by rw [founded.everyoneIn] at gone; cases gone
  terms lake member := by rw [founded.noLake] at member; cases member
  successor lake member := by rw [founded.noLake] at member; cases member

end Facts

/-- The lakes of an organization stay owned by its members throughout a run exactly when no member leaves it
as the last to hold an owner grant on a lake whose creator has left before. -/
theorem lakes_owned_by_members_iff (sameAddress : String → String → Bool) (start : OrgState) (steps : List (Time × LakeStep))
    (founded : Founded start) : Always sameAddress OwnedByMembers start steps ↔ EachStep sameAddress leavesOwner start steps :=
  founded.kept.run steps

/-! ### The creator first, the later owner second -/

def team : Organization where
  id := ⟨"team", by decide⟩
  userId := "owner"
  adminUserIds := []
  users := ["creator", "heir"]

def teamLake : DataLake where
  id := ⟨"0123456789abcdef01234567", rfl⟩
  createdByUserId := "creator"
  organizationId := some "team"

def founding : OrgState := { clock := 0, organization := team, lakes := [], grants := ∅ }

theorem founding_founded : Founded founding where
  owned := by decide
  distinct := List.nodup_nil
  noLake := rfl
  everyoneIn := rfl

/-- The lake is handed on before its creator leaves; then the new owner leaves too. -/
def handedOnAndLeft : List (Time × LakeStep) :=
  [(1, .create teamLake),
    (2, .transfer [{ id := "heir", email := none }] { userId := "creator", organizationIds := [team.id] } teamLake "heir"),
    (3, .depart "creator" "owner"), (4, .depart "heir" "owner")]

theorem handed_on_and_left : Always (· == ·) OwnedByMembers founding handedOnAndLeft ↔ EachStep (· == ·) leavesOwner founding handedOnAndLeft :=
  lakes_owned_by_members_iff (· == ·) founding handedOnAndLeft founding_founded

theorem creator_owns_again : Founded founding ∧ ¬Always (· == ·) OwnedByMembers founding handedOnAndLeft := by
  refine ⟨founding_founded, fun always => ?_⟩
  have owned_by_creator : (run (· == ·) founding handedOnAndLeft).any (fun s =>
      s.orgLakes.any fun lake => (s.owners lake s.clock).any (s.departed.contains ·)) = true := by decide
  rcases ran : run (· == ·) founding handedOnAndLeft with - | s
  · simp [ran] at owned_by_creator
  · rw [ran, Option.any_some] at owned_by_creator
    obtain ⟨lake, member, owner⟩ := List.any_eq_true.mp owned_by_creator
    obtain ⟨userId, owns, gone⟩ := List.any_eq_true.mp owner
    exact (always_run always ran).members lake member s.clock (Int.le_refl _) userId owns (List.contains_iff_mem.mp gone)

end Bike4Mind.DataLakes
