import Bike4Mind.DataLakes.ReadAccess

/-! The queries that list the lakes a caller reaches, and the ids they are handed. -/

namespace Bike4Mind.DataLakes
open Collections

/-! ### Reach by grant -/

structure LakeGrantReach where
  grantedLakeIds : List String := []
  orgGrantedLakes : OrderedMap OrganizationId (List String) := ∅

/-- The roles a user grant lists a lake for; readers count once their grants are enforced. -/
def AccessRole.lists (includeReaders : Bool) (role : AccessRole) : Bool :=
  role == .owner || role == .curator || includeReaders && role == .reader

def addOrgLake (ids : List String) (orgId : OrganizationId) (byOrg : OrderedMap OrganizationId (List String)) (row : AccessGrant) :
    OrderedMap OrganizationId (List String) :=
  if row.dataLakeId ∈ ids then byOrg
  else byOrg.set orgId (insertNew ((byOrg.get? orgId).getD []) row.dataLakeId)

def grantedLakeReachFor (grants : List AccessGrant) (activeAsOf : Time) (userId : String) (organizationIds : List OrganizationId)
    (includeReaders : Bool) : LakeGrantReach :=
  let userRows := listByPrincipal grants .user userId activeAsOf
  let ids := distinct ((userRows.filter (·.role.lists includeReaders)).map (·.dataLakeId))
  let byOrg := if includeReaders then
      organizationIds.foldl (fun byOrg orgId =>
        (listByPrincipal grants .organization orgId.val activeAsOf).foldl (addOrgLake ids orgId) byOrg) ∅
    else ∅
  { grantedLakeIds := ids, orgGrantedLakes := byOrg }

def findIdsCreatedBy (lakes : List DataLake) (userId : String) : List String :=
  if userId = "" then [] else (lakes.filter (·.createdByUserId == userId)).map (·.id.val)

def supersededOwnLakeIdsFor (lakes : List DataLake) (grants : List AccessGrant) (activeAsOf : Time) (actor : ManageActor) :
    List String :=
  if actor.isAdmin || actor.userId == "" then []
  else
    let createdLakeIds := findIdsCreatedBy lakes actor.userId
    if createdLakeIds = [] then []
    else
      let grantsByLakeId := (listActiveByLakes grants createdLakeIds activeAsOf).foldl addLakeGrant ∅
      createdLakeIds.filter fun lakeId =>
        !(resolveEffectiveOwnerIds actor.userId ((grantsByLakeId.get? lakeId).getD [])).contains actor.userId

/-! ### Query arms -/

abbrev Filter := DataLake → Bool

/-- `{ field: { $in: values } }` -/
def isIn (values : List String) (field : Option String) : Bool := field.any values.contains

def matchesAny (arms : List Filter) : Filter := fun lake => arms.any (· lake)

def GATELESS : Filter := fun lake => blank lake.requiredUserTag && blank lake.requiredEntitlement

/-- The caller's tags in both casings. -/
def allTags (casing : Casing) (userTags : List String) : List String := distinct (userTags ++ userTags.map casing.toLowerCase)

def requirementConstraint (casing : Casing) (userTags entitlementKeys : List String) : Filter :=
  let keys := entitlementKeys.map (normalizeEntitlementKey casing)
  let arms : List Filter := [GATELESS, fun lake => isIn (allTags casing userTags) lake.requiredUserTag]
  matchesAny (arms ++ if keys.length > 0 then [fun lake => isIn keys lake.requiredEntitlement] else [])

def usableObjectIds (ids : List String) : List String := ids.filter isObjectIdOrHexString

def orgGrantArms (orgGrantedLakes : OrderedMap OrganizationId (List String)) : List Filter :=
  orgGrantedLakes.entries.flatMap fun (orgId, lakeIds) =>
    let usable := usableObjectIds lakeIds
    if usable.length > 0 then [fun lake => lake.organizationId == some orgId.val && usable.contains lake.id.val] else []

structure ReachArmsOpts where
  grantedLakeIds : List String
  orgGrantedLakes : OrderedMap OrganizationId (List String)
  supersededOwnLakeIds : List String

inductive FindAccessibleArm where
  | owner | publicLake | orgGate | orgAdmin | grant | orgGrant
  deriving DecidableEq

structure AccessibleQuery where
  filter : Filter
  arms : List FindAccessibleArm

def memberOrgs (organizationIds : List OrganizationId) : Filter := fun lake => isIn (organizationIds.map (·.val)) lake.organizationId

def orgConstraint (organizationIds : List OrganizationId) : Filter := fun lake =>
  if organizationIds.length > 0 then blank lake.organizationId || memberOrgs organizationIds lake else blank lake.organizationId

def ownerArm (userId : String) (supersededOwnLakeIds : List String) : Filter := fun lake =>
  let superseded := usableObjectIds supersededOwnLakeIds
  if superseded.length > 0 then lake.createdByUserId == userId && !superseded.contains lake.id.val
  else lake.createdByUserId == userId

def notPrivate : Filter := fun lake =>
  !(blank lake.organizationId && blank lake.requiredUserTag && blank lake.requiredEntitlement)

def buildAccessibleQuery (casing : Casing) (ctx : AccessContext) (opts : ReachArmsOpts)
    (statuses : List DataLakeStatus) (includePublic : Bool) : AccessibleQuery :=
  if ctx.isAdmin then { filter := fun lake => statuses.contains lake.status, arms := [] }
  else
    let requirement := requirementConstraint casing ctx.userTags ctx.entitlementKeys
    let publicArm : FindAccessibleArm × Filter := (.publicLake, fun lake => lake.isPublic && requirement lake)
    let orgGate : FindAccessibleArm × Filter :=
      (.orgGate, fun lake => orgConstraint ctx.organizationIds lake && requirement lake && notPrivate lake)
    let orgAdmin : List (FindAccessibleArm × Filter) :=
      if ctx.administeredOrgIds.length > 0 then [(.orgAdmin, memberOrgs ctx.administeredOrgIds)] else []
    let grantedLakeIds := usableObjectIds opts.grantedLakeIds
    let grant : List (FindAccessibleArm × Filter) :=
      if grantedLakeIds.length > 0 then [(.grant, fun lake => grantedLakeIds.contains lake.id.val)] else []
    let orgGrant : List (FindAccessibleArm × Filter) :=
      if includePublic then (orgGrantArms opts.orgGrantedLakes).map fun arm => (.orgGrant, arm) else []
    let labelled := [(.owner, ownerArm ctx.userId opts.supersededOwnLakeIds)] ++ (if includePublic then [publicArm] else []) ++
      [orgGate] ++ orgAdmin ++ grant ++ orgGrant
    { filter := fun lake => statuses.contains lake.status && matchesAny (labelled.map Prod.snd) lake
      arms := labelled.map Prod.fst }

/-- The arms retrieval reaches lakes by, which ask for no administered organization. -/
def buildReachArms (casing : Casing) (userTags entitlementKeys : List String) (organizationIds : List OrganizationId)
    (userId : String) (opts : ReachArmsOpts) : List Filter :=
  let keys := entitlementKeys.map (normalizeEntitlementKey casing)
  let nonOwnerArms : List Filter := [fun lake => isIn (allTags casing userTags) lake.requiredUserTag] ++
    (if organizationIds.length > 0 then [fun lake => GATELESS lake && memberOrgs organizationIds lake] else []) ++
    (if keys.length > 0 then [fun lake => isIn keys lake.requiredEntitlement] else [])
  let grantedLakeIds := usableObjectIds opts.grantedLakeIds
  (if userId = "" then [] else [ownerArm userId opts.supersededOwnLakeIds]) ++
    [fun lake => orgConstraint organizationIds lake && matchesAny nonOwnerArms lake,
      fun lake => lake.isPublic && requirementConstraint casing userTags entitlementKeys lake] ++
    (if grantedLakeIds.length > 0 then [fun lake => grantedLakeIds.contains lake.id.val] else []) ++
    orgGrantArms opts.orgGrantedLakes

def findActiveByUserTagsAndEntitlements (casing : Casing) (lakes : List DataLake) (userTags entitlementKeys : List String)
    (organizationIds : List OrganizationId) (userId : String) (opts : ReachArmsOpts) (includeDraftLakes : Bool) : List DataLake :=
  let accessArms := buildReachArms casing userTags entitlementKeys organizationIds userId opts
  lakes.filter fun lake =>
    (if includeDraftLakes then LAKE_ATTACHABLE_STATUSES.contains lake.status else lake.status == .active) && matchesAny accessArms lake

/-- What the callers of both queries hand them, all read at one time. -/
def reachOptsFor (lakes : List DataLake) (grants : List AccessGrant) (now : Time) (ctx : AccessContext) (enforceReadGrants : Bool) :
    ReachArmsOpts :=
  let reach := grantedLakeReachFor grants now ctx.userId ctx.organizationIds enforceReadGrants
  { grantedLakeIds := reach.grantedLakeIds
    orgGrantedLakes := reach.orgGrantedLakes
    supersededOwnLakeIds := supersededOwnLakeIdsFor lakes grants now ctx.actor }

end Bike4Mind.DataLakes
