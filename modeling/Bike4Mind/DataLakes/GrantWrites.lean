import Bike4Mind.DataLakes.ReadAccess

/-! The writers of lake grants: creation, the sharing door, transfers of ownership, and departures. -/

namespace Bike4Mind.DataLakes
open Collections

inductive LakeRefusal where
  | badRequest (message : String)
  | forbidden (message : String)
  deriving DecidableEq

/-! ### The grant collection -/

/-- The natural key of a grant. -/
structure GrantKey where
  dataLakeId : String
  principalType : PrincipalType
  principalId : String
  deriving DecidableEq

structure GrantTerms where
  role : AccessRole
  grantedByUserId : String
  expiresAt : Option Time := none
  deriving DecidableEq

abbrev GrantTable := OrderedMap GrantKey GrantTerms

def grantRow (entry : GrantKey × GrantTerms) : AccessGrant where
  principalType := entry.1.principalType
  principalId := entry.1.principalId
  role := entry.2.role
  dataLakeId := entry.1.dataLakeId
  grantedByUserId := entry.2.grantedByUserId
  expiresAt := entry.2.expiresAt

def grantRows (table : GrantTable) : List AccessGrant := table.entries.map grantRow

def AccessGrant.key (g : AccessGrant) : GrantKey := ⟨g.dataLakeId, g.principalType, g.principalId⟩

def findGrant (table : GrantTable) (key : GrantKey) : Option GrantTerms := table.get? key

/-- Without an expiry the one on the row stays; `some none` clears it. -/
def upsertGrant (table : GrantTable) (key : GrantKey) (role : AccessRole) (grantedByUserId : String)
    (expiresAt : Option (Option Time)) : GrantTable :=
  table.set key { role, grantedByUserId, expiresAt := expiresAt.getD ((findGrant table key).bind (·.expiresAt)) }

def removeGrant (table : GrantTable) (key : GrantKey) : GrantTable := table.erase key

/-! ### Organizations -/

structure Organization where
  id : OrganizationId
  userId : String
  adminUserIds : List String
  users : List String
  deriving DecidableEq

def listOrgOwnershipCandidateIds (org : Organization) : List String :=
  distinct ((org.userId :: org.adminUserIds ++ org.users).filter (· ≠ ""))

def isOrgOwnershipCandidate (org : Organization) (userId : String) : Bool :=
  userId != "" && (listOrgOwnershipCandidateIds org).contains userId

/-- The rights `findIdsWithAdminRights` looks organizations up by. -/
def isOrgAdminOf (org : Organization) (userId : String) : Bool :=
  if userId = "" then false else org.userId == userId || org.adminUserIds.contains userId

def removeMember (org : Organization) (userId : String) : Organization :=
  { org with users := org.users.filter (· ≠ userId), adminUserIds := org.adminUserIds.filter (· ≠ userId) }

/-! ### Creation -/

def seedOwnerGrant (table : GrantTable) (dataLakeId userId : String) : GrantTable :=
  upsertGrant table ⟨dataLakeId, .user, userId⟩ .owner userId none

/-! ### The sharing door -/

structure Account where
  id : String
  email : Option String
  deriving DecidableEq

structure GrantLakeAccessInput where
  principalType : PrincipalType
  principalId : Option String := none
  principalEmail : Option String := none
  role : AccessRole
  expiresAt : Option (Option Time) := none

structure GrantLakeAccessResult where
  principalType : PrincipalType
  principalId : String
  role : AccessRole
  previousRole : Option AccessRole
  deriving DecidableEq

def refuseGrantWrite (lake : DataLake) (principalType : PrincipalType) (principalId : String) (role : AccessRole)
    (expiresAt : Option (Option Time)) (now : Time) : Option String :=
  if principalId = "" then some "A grant must name a principal"
  else if role = .owner then some "Ownership cannot be granted here; use transfer ownership instead"
  else if expiresAt.join.any (· ≤ now) then some "A grant cannot expire in the past"
  else if principalType = .organization then
    if (normalizeId lake.organizationId).isNone then some "This data lake belongs to no organization, so it cannot be shared with one"
    else if normalizeId lake.organizationId ≠ some principalId then
      some "A data lake can only be shared with the organization that owns it"
    else if role = .curator then
      some "An organization can only be granted reader access; its admins already manage this data lake"
    else none
  else none

def refuseOwnerGrantChange (existing : Option GrantTerms) : Option String :=
  if existing.any (·.role = .owner) then some "This is an ownership grant; use transfer ownership to change it" else none

/-- The accounts of a whole address, under the collation of the collection. -/
def findAllByEmails (sameAddress : String → String → Bool) (accounts : List Account) (email : String) : List Account :=
  accounts.filter fun account => account.email.any (sameAddress email)

def resolvePrincipalId (sameAddress : String → String → Bool) (accounts : List Account) (input : GrantLakeAccessInput) :
    Except LakeRefusal String :=
  if input.principalType ≠ .user then
    if blank input.principalId then .error (.badRequest "A grant must name a principal") else .ok (input.principalId.getD "")
  else if blank input.principalEmail then .error (.badRequest "A grant must name the person to share with by email address")
  else
    match findAllByEmails sameAddress accounts (input.principalEmail.getD "") with
    | [] => .error (.badRequest "No account was found for that email address")
    | [account] => .ok account.id
    | _ :: _ :: _ => .error (.badRequest
        "More than one account uses that email address, so it does not identify who to share with; ask an administrator to resolve the duplicate")

/-- The gate's grants without the actor's own curator grant. -/
def withoutOwnCuratorGrant (actor : ManageActor) (grants : List LakeGrant) : List LakeGrant :=
  grants.filter fun g => !(g.principalType == .user && g.principalId == actor.userId && g.role == .curator)

def assertManageableLake (lake : DataLake) (actor : ManageActor) (grants : List LakeGrant) : Except LakeRefusal Unit :=
  if canManageLake lake actor grants then .ok ()
  else .error (.forbidden "You do not have permission to manage access to this data lake")

def refused (refusal : Option String) : Except LakeRefusal Unit :=
  refusal.elim (.ok ()) fun message => .error (.badRequest message)

def grantLakeAccess (sameAddress : String → String → Bool) (accounts : List Account) (actor : ManageActor) (lake : DataLake)
    (grants : List LakeGrant) (input : GrantLakeAccessInput) (now : Time) (table : GrantTable) :
    Except LakeRefusal (GrantTable × GrantLakeAccessResult) := do
  assertManageableLake lake actor grants
  let principalId ← resolvePrincipalId sameAddress accounts input
  refused (refuseGrantWrite lake input.principalType principalId input.role input.expiresAt now)
  let key : GrantKey := ⟨lake.id.val, input.principalType, principalId⟩
  let existing := findGrant table key
  refused (refuseOwnerGrantChange existing)
  refused (if input.role = .curator ∧ canManageLake lake actor (withoutOwnCuratorGrant actor grants) = false then
      some "Curators cannot grant curator access; ask an owner or an organization admin"
    else none)
  let lapsed := (existing.bind (·.expiresAt)).any (· ≤ now)
  let previousRole := if lapsed then none else existing.map (·.role)
  let expiresAt := if input.expiresAt.isSome then input.expiresAt else if lapsed then some none else none
  pure (upsertGrant table key input.role actor.userId expiresAt,
    { principalType := input.principalType, principalId, role := input.role, previousRole })

def revokeLakeAccess (actor : ManageActor) (lake : DataLake) (grants : List LakeGrant) (principalType : PrincipalType)
    (principalId : String) (table : GrantTable) : Except LakeRefusal (GrantTable × Bool) := do
  assertManageableLake lake actor grants
  let key : GrantKey := ⟨lake.id.val, principalType, principalId⟩
  if findGrant table key = none then
    pure (table, false)
  else
    refused (refuseOwnerGrantChange (findGrant table key))
    pure (removeGrant table key, true)

/-! ### Transfers -/

structure LakeTransferActor extends ManageActor where
  organizationIds : List OrganizationId := []

structure LakeTransferAuthority where
  allowed : Bool
  isOwner : Bool
  viaOrgAdminOnly : Bool
  deriving DecidableEq

def resolveLakeTransferAuthority (lake : DataLake) (actor : LakeTransferActor) (grants : List LakeGrant) : LakeTransferAuthority :=
  let isOwner := isEffectiveOwner lake.createdByUserId actor.userId grants
  let lakeOrg := normalizeId lake.organizationId
  let isOrgAdminOfLake := lakeOrg.any (administers actor.administeredOrgIds)
  let inLakeOrg := lakeOrg.any fun org => isOrgAdminOfLake || administers actor.organizationIds org
  { allowed := actor.isAdmin || inLakeOrg && (isOwner || isOrgAdminOfLake)
    isOwner
    viaOrgAdminOnly := !actor.isAdmin && !isOwner && isOrgAdminOfLake }

inductive OwnershipOfferRung where
  | grantOwner | creator | platformAdmin | orgAdmin
  deriving DecidableEq

structure LakeTransferAuthorization where
  newOwnerUserId : String
  manageRung : OwnershipOfferRung
  deriving DecidableEq

def authorizeLakeTransfer (accounts : List Account) (findOrganization : String → Option Organization) (actor : LakeTransferActor)
    (lake : DataLake) (grants : List LakeGrant) (newOwnerUserId : String) : Except LakeRefusal LakeTransferAuthorization :=
  let lakeOrg := normalizeId lake.organizationId
  let authority := resolveLakeTransferAuthority lake actor grants
  if !authority.allowed then
    .error (.badRequest (if lakeOrg.isNone && !actor.isAdmin then
        "A personal data lake cannot be transferred. Move it into an organization first, then transfer it to a member."
      else "You do not have permission to transfer ownership of this data lake"))
  else if authority.viaOrgAdminOnly && newOwnerUserId == actor.userId then
    .error (.badRequest "An organization admin cannot transfer a data lake to themselves; name another member.")
  else if !accounts.any (·.id == newOwnerUserId) then .error (.badRequest "The chosen new owner could not be found")
  else if lakeOrg.any fun id => !(findOrganization id).any (isOrgOwnershipCandidate · newOwnerUserId) then
    .error (.badRequest "The new owner must belong to the organization that owns this data lake")
  else
    let manageRung :=
      if authority.isOwner then
        if grants.any fun g => g.principalType == .user && g.principalId == actor.userId && g.role == .owner then
          .grantOwner
        else .creator
      else if actor.isAdmin then .platformAdmin else .orgAdmin
    .ok { newOwnerUserId, manageRung }

structure TransferLakeOwnershipResult where
  newOwnerUserId : String
  demotedUserIds : List String
  deriving DecidableEq

/-- A prior owner stays on as curator. -/
def demote (dataLakeId grantedByUserId : String) (table : GrantTable) (priorOwnerUserId : String) : GrantTable :=
  upsertGrant table ⟨dataLakeId, .user, priorOwnerUserId⟩ .curator grantedByUserId (some none)

def applyLakeOwnershipTransfer (actor : ManageActor) (lake : DataLake) (grants : List LakeGrant) (newOwnerUserId : String)
    (table : GrantTable) : GrantTable × TransferLakeOwnershipResult :=
  let priorOwners := resolveEffectiveOwnerIds lake.createdByUserId grants
  let demotedUserIds := priorOwners.filter (· ≠ newOwnerUserId)
  let granted := upsertGrant table ⟨lake.id.val, .user, newOwnerUserId⟩ .owner actor.userId (some none)
  (demotedUserIds.foldl (demote lake.id.val actor.userId) granted, { newOwnerUserId, demotedUserIds })

/-! ### Departures -/

structure LapseResult where
  lapsedLakeIds : List String
  succeededLakeIds : List String
  deriving DecidableEq

def expireGrant (now : Time) (table : GrantTable) (grant : AccessGrant) : GrantTable :=
  upsertGrant table grant.key grant.role grant.grantedByUserId (some (some now))

def lapseOwnGrants (departedUserId : String) (orgLakes : List DataLake) (now : Time) (table : GrantTable) : GrantTable × List String :=
  let held := listByPrincipal (grantRows table) .user departedUserId now
  let lapsing := held.filter fun grant => orgLakes.any (·.id.val == grant.dataLakeId)
  (lapsing.foldl (expireGrant now) table, lapsing.map (·.dataLakeId))

/-- Somebody other than the member who leaves owns the lake. -/
def hasOtherOwner (departedUserId : String) (grantsByLake : OrderedMap String (List LakeGrant)) (lake : DataLake) : Bool :=
  (resolveEffectiveOwnerIds lake.createdByUserId ((grantsByLake.get? lake.id.val).getD [])).any (· ≠ departedUserId)

def succeed (successorUserId triggeredBy : String) (table : GrantTable) (lake : DataLake) : GrantTable :=
  upsertGrant table ⟨lake.id.val, .user, successorUserId⟩ .owner triggeredBy (some none)

def passOnCreatedLakes (departedUserId : String) (organization : Organization) (orgLakes : List DataLake) (triggeredBy : String)
    (now : Time) (table : GrantTable) : GrantTable × List String :=
  let successorUserId := organization.userId
  if successorUserId = "" ∨ successorUserId = departedUserId then (table, [])
  else
    let createdByDeparted := orgLakes.filter (·.createdByUserId == departedUserId)
    let activeGrants := listActiveByLakes (grantRows table) (createdByDeparted.map (·.id.val)) now
    let grantsByLake := activeGrants.foldl addLakeGrant ∅
    let passed := createdByDeparted.filter (!hasOtherOwner departedUserId grantsByLake ·)
    (passed.foldl (succeed successorUserId triggeredBy) table, passed.map (·.id.val))

def findByOrganizationId (lakes : List DataLake) (organizationId : String) : List DataLake :=
  lakes.filter (·.organizationId == some organizationId)

def lapseDepartedMemberLakeAccess (departedUserId : String) (organization : Organization) (triggeredBy : String)
    (lakes : List DataLake) (now : Time) (table : GrantTable) : GrantTable × LapseResult :=
  let orgLakes := findByOrganizationId lakes organization.id.val
  if orgLakes = [] then (table, { lapsedLakeIds := [], succeededLakeIds := [] })
  else
    let (lapsed, lapsedLakeIds) := lapseOwnGrants departedUserId orgLakes now table
    let (passed, succeededLakeIds) := passOnCreatedLakes departedUserId organization orgLakes triggeredBy now lapsed
    (passed, { lapsedLakeIds, succeededLakeIds })

end Bike4Mind.DataLakes
