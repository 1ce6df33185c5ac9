import Bike4Mind.DataLakes.Lake

/-! The read gate of a single lake. -/

namespace Bike4Mind.DataLakes
open Collections

/-- The string operations of the runtime that gate values go through. -/
structure Casing where
  toLowerCase : String → String
  trim : String → String

def normalizeEntitlementKey (casing : Casing) (key : String) : String := casing.toLowerCase (casing.trim key)

structure AccessContext where
  userId : String
  isAdmin : Bool := false
  userTags : List String := []
  entitlementKeys : List String := []
  organizationIds : List OrganizationId := []
  administeredOrgIds : List OrganizationId := []

def AccessContext.actor (ctx : AccessContext) : ManageActor where
  userId := ctx.userId
  isAdmin := ctx.isAdmin
  administeredOrgIds := ctx.administeredOrgIds

def AccessContext.isMember (ctx : AccessContext) (organizationId : String) : Bool :=
  ctx.organizationIds.any (·.val == organizationId)

/-- A gate field satisfied: not blank, and its normalized value among the caller's. -/
def gateFieldMet (normalize : String → String) (held : List String) (field : Option String) : Bool :=
  !blank field && field.any fun value => held.contains (normalize value)

def lakeMatchesAccess (casing : Casing) (lake : DataLake) (normalizedUserTags normalizedKeys : List String) : Bool :=
  let hasRequirement := !blank lake.requiredUserTag || !blank lake.requiredEntitlement
  if !hasRequirement then true
  else
    let tagMatch := gateFieldMet casing.toLowerCase normalizedUserTags lake.requiredUserTag
    let entMatch := gateFieldMet (normalizeEntitlementKey casing) normalizedKeys lake.requiredEntitlement
    tagMatch || entMatch

inductive LakeAccessArm where
  | ownerAdmin | publicLake | privateDeny | orgPrereq | requirement
  deriving DecidableEq

structure LakeAccessClassification where
  allowed : Bool
  arm : LakeAccessArm
  deriving DecidableEq

def AccessContext.normalizedTags (casing : Casing) (ctx : AccessContext) : List String := ctx.userTags.map casing.toLowerCase

def AccessContext.normalizedKeys (casing : Casing) (ctx : AccessContext) : List String :=
  ctx.entitlementKeys.map (normalizeEntitlementKey casing)

/-- The gate fields and organization of a lake that admits nobody but its managers. -/
def privateByDefault (lake : DataLake) : Bool :=
  (normalizeId lake.organizationId).isNone && blank lake.requiredUserTag && blank lake.requiredEntitlement

def classifyLakeAccess (casing : Casing) (lake : DataLake) (ctx : AccessContext) (grants : List LakeGrant) :
    LakeAccessClassification :=
  if canManageLake lake ctx.actor grants then { allowed := true, arm := .ownerAdmin }
  else
    let allowed := lakeMatchesAccess casing lake (ctx.normalizedTags casing) (ctx.normalizedKeys casing)
    if lake.isPublic then { allowed, arm := .publicLake }
    else if privateByDefault lake then { allowed := false, arm := .privateDeny }
    else if (normalizeId lake.organizationId).any (!ctx.isMember ·) then { allowed := false, arm := .orgPrereq }
    else { allowed, arm := .requirement }

def resolveReadGrant (ctx : AccessContext) (grants : List LakeGrant) : Bool :=
  grants.any fun g =>
    if g.principalType = .user then ctx.userId != "" && g.principalId == ctx.userId
    else g.principalType == .organization && ctx.isMember g.principalId

/-- An organization's grant counts on lakes of that organization alone. -/
def containedGrants (lake : DataLake) (grants : List LakeGrant) : List LakeGrant :=
  let lakeOrgId := (normalizeId lake.organizationId).getD ""
  grants.filter fun g => g.principalType != .organization || g.principalId == lakeOrgId

structure LakeReadAccessDecision where
  allowed : Bool
  legacyAllowed : Bool
  legacyArm : LakeAccessArm
  readGrantAllows : Bool
  resolvedAllowed : Bool
  diverges : Bool
  enforced : Bool
  deriving DecidableEq

def resolveLakeReadAccess (casing : Casing) (lake : DataLake) (ctx : AccessContext) (grants : List LakeGrant)
    (enforceReadGrants : Bool) : LakeReadAccessDecision :=
  let legacy := classifyLakeAccess casing lake ctx grants
  let readGrantAllows := resolveReadGrant ctx (containedGrants lake grants)
  let resolvedAllowed := legacy.allowed || readGrantAllows
  { allowed := if enforceReadGrants then resolvedAllowed else legacy.allowed
    legacyAllowed := legacy.allowed
    legacyArm := legacy.arm
    readGrantAllows
    resolvedAllowed
    diverges := resolvedAllowed != legacy.allowed
    enforced := enforceReadGrants }

/-! ### What the gate opens -/

section Gate
variable {casing : Casing} {lake : DataLake} {ctx : AccessContext} {grants : List LakeGrant}

theorem isMember_iff {organizationId : String} : ctx.isMember organizationId = true ↔ ∃ org ∈ ctx.organizationIds, org.val = organizationId := by
  simp [AccessContext.isMember]

/-- The organization of a lake is no obstacle: it has none, or the caller belongs to it. -/
def openToOrganization (lake : DataLake) (ctx : AccessContext) : Prop :=
  ∀ org, normalizeId lake.organizationId = some org → ctx.isMember org = true

/-- What a lake admits a caller by who manages nothing on it: being public, or its gate. -/
def admits (casing : Casing) (lake : DataLake) (ctx : AccessContext) : Prop :=
  lakeMatchesAccess casing lake (ctx.normalizedTags casing) (ctx.normalizedKeys casing) = true ∧
    (lake.isPublic = true ∨ openToOrganization lake ctx ∧ privateByDefault lake = false)

theorem openToOrganization_iff : openToOrganization lake ctx ↔ (normalizeId lake.organizationId).any (!ctx.isMember ·) = false := by
  unfold openToOrganization
  rcases normalizeId lake.organizationId with - | org
  · simp
  · simp

theorem classifyLakeAccess_allowed : (classifyLakeAccess casing lake ctx grants).allowed = true ↔
    canManageLake lake ctx.actor grants = true ∨ admits casing lake ctx := by
  unfold classifyLakeAccess admits
  rw [openToOrganization_iff]
  by_cases manages : canManageLake lake ctx.actor grants = true
  · simp [manages]
  · rw [if_neg manages]
    dsimp only
    by_cases world : lake.isPublic = true
    · simp [manages, world]
    · rw [if_neg world]
      by_cases hidden : privateByDefault lake = true
      · simp [manages, world, hidden]
      · rw [if_neg hidden]
        by_cases outside : (normalizeId lake.organizationId).any (!ctx.isMember ·) = true
        · simp only [outside, if_true]
          simp [manages, world]
        · simp only [outside]
          simp [manages, world, hidden]

/-- A grant that admits a caller to read: the caller's own, or one by the lake's organization to its members. -/
def readGranted (lake : DataLake) (ctx : AccessContext) (grants : List LakeGrant) : Prop :=
  (∃ g ∈ grants, g.principalType = .user ∧ g.principalId = ctx.userId) ∨
  ∃ g ∈ grants, g.principalType = .organization ∧ ctx.isMember g.principalId = true ∧ normalizeId lake.organizationId = some g.principalId

theorem resolveReadGrant_contained (named : ctx.userId ≠ "") :
    resolveReadGrant ctx (containedGrants lake grants) = true ↔ readGranted lake ctx grants := by
  have contained : ∀ g : LakeGrant, ctx.isMember g.principalId = true →
      (g.principalId = (normalizeId lake.organizationId).getD "" ↔ normalizeId lake.organizationId = some g.principalId) := by
    intro g belongs
    obtain ⟨org, -, same⟩ := isMember_iff.mp belongs
    rcases normalizeId lake.organizationId with - | lakeOrg
    · simp [← same, org.property]
    · simp [eq_comm]
  unfold resolveReadGrant containedGrants readGranted
  simp only [List.any_eq_true, List.mem_filter, Bool.or_eq_true, bne_iff_ne, beq_iff_eq]
  constructor
  · rintro ⟨g, ⟨member, kept⟩, hit⟩
    split at hit
    · rename_i isUser
      simp only [Bool.and_eq_true, beq_iff_eq] at hit
      exact Or.inl ⟨g, member, isUser, hit.2⟩
    · simp only [Bool.and_eq_true, beq_iff_eq] at hit
      exact Or.inr ⟨g, member, hit.1, hit.2, (contained g hit.2).mp (kept.resolve_left fun other => other hit.1)⟩
  · rintro (⟨g, member, isUser, own⟩ | ⟨g, member, isOrg, belongs, here⟩)
    · refine ⟨g, ⟨member, Or.inl (by simp [isUser])⟩, ?_⟩
      simp [isUser, own, named]
    · refine ⟨g, ⟨member, Or.inr ((contained g belongs).mpr here)⟩, ?_⟩
      simp [isOrg, belongs]

theorem resolveLakeReadAccess_allowed {enforceReadGrants : Bool} (named : ctx.userId ≠ "") :
    (resolveLakeReadAccess casing lake ctx grants enforceReadGrants).allowed = true ↔
      canManageLake lake ctx.actor grants = true ∨ admits casing lake ctx ∨
        enforceReadGrants = true ∧ readGranted lake ctx grants := by
  unfold resolveLakeReadAccess
  dsimp only
  cases enforceReadGrants with
  | false => simp [classifyLakeAccess_allowed]
  | true => simp [classifyLakeAccess_allowed, resolveReadGrant_contained named, or_assoc]

end Gate
end Bike4Mind.DataLakes
