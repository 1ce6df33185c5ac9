import Bike4Mind.Collections.OrderedMap
import Bike4Mind.Collections.OrderedSet
import Bike4Mind.Runtime

/-! Data lakes, the grants on them, and who manages a lake. -/

namespace Bike4Mind.DataLakes
open Collections

inductive DataLakeStatus where
  | draft | active | archiving | archived | unarchiving | restoring | deleting | deleted | purging
  deriving DecidableEq

def LAKE_ATTACHABLE_STATUSES : List DataLakeStatus := [.draft, .active]

def isObjectIdOrHexString (id : String) : Bool :=
  id.toList.length == 24 && id.toList.all fun c => c.isDigit || ('a' ≤ c && c ≤ 'f') || ('A' ≤ c && c ≤ 'F')

/-- The `_id` of a stored document. -/
abbrev ObjectId := { id : String // isObjectIdOrHexString id = true }

/-- The id of an organization, which is never blank. -/
abbrev OrganizationId := { id : String // id ≠ "" }

structure DataLake where
  id : ObjectId
  createdByUserId : String
  organizationId : Option String := none
  requiredUserTag : Option String := none
  requiredEntitlement : Option String := none
  isPublic : Bool := false
  status : DataLakeStatus := .draft
  deriving DecidableEq

/-- What `!value` says of an optional string. -/
def blank (value : Option String) : Bool := value == none || value == some ""

@[simp] theorem blank_none : blank none = true := rfl

theorem blank_some {s : String} : blank (some s) = true ↔ s = "" := by simp [blank]

theorem blank_iff {value : Option String} : blank value = true ↔ value = none ∨ value = some "" := by simp [blank]

def normalizeId (value : Option String) : Option String := if blank value then none else value

theorem normalizeId_eq_some {value : Option String} {id : String} : normalizeId value = some id ↔ value = some id ∧ id ≠ "" := by
  unfold normalizeId
  split
  · rename_i none_or_blank
    rcases blank_iff.mp none_or_blank with rfl | rfl
    · simp
    · simp [eq_comm]
  · rename_i given
    constructor
    · rintro rfl
      exact ⟨rfl, fun empty => given (blank_some.mpr empty)⟩
    · exact fun h => h.1

theorem normalizeId_none {value : Option String} : normalizeId value = none ↔ blank value = true := by
  unfold normalizeId
  split
  · rename_i h
    simp [h]
  · rename_i h
    constructor
    · rintro rfl
      rfl
    · exact fun h' => (h h').elim

/-! ### Grants -/

inductive PrincipalType where
  | user | organization
  deriving DecidableEq

inductive AccessRole where
  | owner | curator | reader
  deriving DecidableEq

structure LakeGrant where
  principalType : PrincipalType
  principalId : String
  role : AccessRole
  deriving DecidableEq

structure AccessGrant extends LakeGrant where
  dataLakeId : String
  grantedByUserId : String
  expiresAt : Option Time := none
  deriving DecidableEq

/-- `buildActiveGrantFilter` -/
def AccessGrant.activeAsOf (asOf : Time) (grant : AccessGrant) : Bool := grant.expiresAt.all (asOf < ·)

def listByLake (grants : List AccessGrant) (dataLakeId : String) (asOf : Time) : List AccessGrant :=
  grants.filter fun g => g.dataLakeId == dataLakeId && g.activeAsOf asOf

def listActiveByLakes (grants : List AccessGrant) (dataLakeIds : List String) (asOf : Time) : List AccessGrant :=
  grants.filter fun g => dataLakeIds.contains g.dataLakeId && g.activeAsOf asOf

def listByPrincipal (grants : List AccessGrant) (principalType : PrincipalType) (principalId : String) (asOf : Time) :
    List AccessGrant :=
  grants.filter fun g => g.principalType == principalType && g.principalId == principalId && g.activeAsOf asOf

/-- The active grants of one lake, as the gates are handed them. -/
def lakeGrants (grants : List AccessGrant) (dataLakeId : String) (asOf : Time) : List LakeGrant :=
  (listByLake grants dataLakeId asOf).map (·.toLakeGrant)

theorem mem_lakeGrants {grants : List AccessGrant} {dataLakeId : String} {asOf : Time} {grant : LakeGrant} :
    grant ∈ lakeGrants grants dataLakeId asOf ↔
      ∃ row ∈ grants, row.dataLakeId = dataLakeId ∧ row.activeAsOf asOf = true ∧ row.toLakeGrant = grant := by
  simp only [lakeGrants, listByLake, List.mem_map, List.mem_filter, Bool.and_eq_true, beq_iff_eq]
  constructor
  · rintro ⟨row, ⟨member, here, live⟩, same⟩
    exact ⟨row, member, here, live, same⟩
  · rintro ⟨row, member, here, live, same⟩
    exact ⟨row, ⟨member, here, live⟩, same⟩

theorem mem_listByPrincipal {grants : List AccessGrant} {principalType : PrincipalType} {principalId : String} {asOf : Time}
    {row : AccessGrant} : row ∈ listByPrincipal grants principalType principalId asOf ↔
      row ∈ grants ∧ row.principalType = principalType ∧ row.principalId = principalId ∧ row.activeAsOf asOf = true := by
  simp [listByPrincipal, and_assoc]

/-- Rows gathered by the lake they are on. -/
def addLakeGrant (grantsByLakeId : OrderedMap String (List LakeGrant)) (row : AccessGrant) : OrderedMap String (List LakeGrant) :=
  grantsByLakeId.set row.dataLakeId ((grantsByLakeId.get? row.dataLakeId).getD [] ++ [row.toLakeGrant])

theorem get?_foldl_addLakeGrant {rows : List AccessGrant} {grantsByLakeId : OrderedMap String (List LakeGrant)} {lakeId : String} :
    ((rows.foldl addLakeGrant grantsByLakeId).get? lakeId).getD [] =
      (grantsByLakeId.get? lakeId).getD [] ++ (rows.filter (·.dataLakeId == lakeId)).map (·.toLakeGrant) := by
  induction rows generalizing grantsByLakeId with
  | nil => simp
  | cons row rest ih =>
    rw [List.foldl_cons, ih, addLakeGrant, OrderedMap.get?_set]
    by_cases here : lakeId = row.dataLakeId
    · subst here
      simp
    · have elsewhere : (row.dataLakeId == lakeId) = false := beq_eq_false_iff_ne.mpr (Ne.symm here)
      rw [if_neg here, List.filter_cons_of_neg (by simp [elsewhere])]

theorem gathered_lakeGrants {grants : List AccessGrant} {ids : List String} {lakeId : String} {asOf : Time} (listed : lakeId ∈ ids) :
    (((listActiveByLakes grants ids asOf).foldl addLakeGrant ∅).get? lakeId).getD [] = lakeGrants grants lakeId asOf := by
  rw [get?_foldl_addLakeGrant]
  unfold lakeGrants listByLake listActiveByLakes
  rw [List.filter_filter, OrderedMap.get?_empty, Option.getD_none, List.nil_append]
  congr 1
  apply List.filter_congr
  intro row _
  by_cases here : row.dataLakeId = lakeId
  · simp [here, listed]
  · have elsewhere : (row.dataLakeId == lakeId) = false := beq_eq_false_iff_ne.mpr here
    simp [elsewhere]

/-! ### Ownership -/

structure ManageActor where
  userId : String
  isAdmin : Bool := false
  administeredOrgIds : List OrganizationId := []

def LakeGrant.ownsAsUser (g : LakeGrant) : Bool := g.principalType == .user && g.role == .owner && g.principalId != ""

/-- The holders of owner grants, and the creator of a lake without any. -/
def resolveEffectiveOwnerIds (createdByUserId : String) (grants : List LakeGrant) : List String :=
  let ownerUserIds := (grants.filter (·.ownsAsUser)).map (·.principalId)
  if ownerUserIds ≠ [] then distinct ownerUserIds
  else if createdByUserId ≠ "" then [createdByUserId] else []

def isEffectiveOwner (createdByUserId : String) (userId : String) (grants : List LakeGrant) : Bool :=
  userId != "" && (resolveEffectiveOwnerIds createdByUserId grants).contains userId

def isGrantOrgContained (g : LakeGrant) (lakeOrg : Option String) : Bool :=
  lakeOrg.all fun org => normalizeId (some g.principalId) == some org

def administers (administeredOrgIds : List OrganizationId) (organizationId : String) : Bool :=
  administeredOrgIds.any (·.val == organizationId)

def canManageLake (lake : DataLake) (actor : ManageActor) (grants : List LakeGrant) : Bool :=
  if actor.isAdmin then true
  else if actor.userId = "" then false
  else if isEffectiveOwner lake.createdByUserId actor.userId grants then true
  else if grants.any fun g => g.principalType == .user && g.principalId == actor.userId && g.role == .curator then true
  else
    let lakeOrg := normalizeId lake.organizationId
    if lakeOrg.any (administers actor.administeredOrgIds) then true
    else
      grants.any fun g => g.principalType == .organization && (g.role == .owner || g.role == .curator) &&
        administers actor.administeredOrgIds g.principalId && isGrantOrgContained g lakeOrg

section Ownership
variable {createdByUserId userId : String} {grants : List LakeGrant}

theorem mem_resolveEffectiveOwnerIds (named : userId ≠ "") :
    userId ∈ resolveEffectiveOwnerIds createdByUserId grants ↔
      (∃ g ∈ grants, g.principalType = .user ∧ g.role = .owner ∧ g.principalId = userId) ∨
      createdByUserId = userId ∧ ∀ g ∈ grants, g.ownsAsUser = false := by
  unfold resolveEffectiveOwnerIds
  dsimp only
  by_cases granted : (grants.filter (·.ownsAsUser)).map (·.principalId) = []
  · have unowned : ∀ g ∈ grants, g.ownsAsUser = false := by simpa using granted
    have no_grant : ¬∃ g ∈ grants, g.principalType = .user ∧ g.role = .owner ∧ g.principalId = userId := by
      rintro ⟨g, member, isUser, isOwner, own⟩
      have owned := unowned g member
      simp [LakeGrant.ownsAsUser, isUser, isOwner, own, named] at owned
    rw [if_neg (not_not.mpr granted)]
    split
    · rw [List.mem_singleton]
      constructor
      · rintro rfl
        exact Or.inr ⟨rfl, unowned⟩
      · rintro (g | ⟨created, -⟩)
        · exact (no_grant g).elim
        · exact created.symm
    · rename_i nameless
      constructor
      · intro member
        cases member
      · rintro (g | ⟨rfl, -⟩)
        · exact (no_grant g).elim
        · exact (nameless named).elim
  · rw [if_pos granted, mem_distinct, List.mem_map]
    constructor
    · rintro ⟨g, member, own⟩
      rw [List.mem_filter] at member
      obtain ⟨⟨isUser, isOwner⟩, -⟩ := by simpa [LakeGrant.ownsAsUser] using member.2
      exact Or.inl ⟨g, member.1, isUser, isOwner, own⟩
    · rintro (⟨g, member, isUser, isOwner, own⟩ | ⟨-, unowned⟩)
      · refine ⟨g, List.mem_filter.mpr ⟨member, ?_⟩, own⟩
        simp [LakeGrant.ownsAsUser, isUser, isOwner, own, named]
      · have empty : (grants.filter (·.ownsAsUser)).map (·.principalId) = [] := by simpa using unowned
        exact (granted empty).elim

theorem isEffectiveOwner_iff (named : userId ≠ "") :
    isEffectiveOwner createdByUserId userId grants = true ↔ userId ∈ resolveEffectiveOwnerIds createdByUserId grants := by
  simp [isEffectiveOwner, named]

end Ownership

/-- An org grant manages only where the caller administers the lake's organization already, or the lake has none. -/
theorem canManageLake_iff {lake : DataLake} {actor : ManageActor} {grants : List LakeGrant} (member : actor.isAdmin = false)
    (named : actor.userId ≠ "") : canManageLake lake actor grants = true ↔
      actor.userId ∈ resolveEffectiveOwnerIds lake.createdByUserId grants ∨
      (∃ g ∈ grants, g.principalType = .user ∧ g.principalId = actor.userId ∧ g.role = .curator) ∨
      (∃ org, normalizeId lake.organizationId = some org ∧ administers actor.administeredOrgIds org = true) ∨
      normalizeId lake.organizationId = none ∧ ∃ g ∈ grants, g.principalType = .organization ∧
        (g.role = .owner ∨ g.role = .curator) ∧ administers actor.administeredOrgIds g.principalId = true := by
  unfold canManageLake
  rw [member, if_neg Bool.false_ne_true, if_neg named]
  by_cases owner : isEffectiveOwner lake.createdByUserId actor.userId grants = true
  · simp [owner, (isEffectiveOwner_iff named).mp owner]
  have not_owner : actor.userId ∉ resolveEffectiveOwnerIds lake.createdByUserId grants :=
    fun h => owner ((isEffectiveOwner_iff named).mpr h)
  by_cases curates : ∃ g ∈ grants, g.principalType = .user ∧ g.principalId = actor.userId ∧ g.role = .curator
  · have rung : grants.any (fun g => g.principalType == .user && g.principalId == actor.userId && g.role == .curator) = true := by
      simpa [and_assoc] using curates
    simp [rung, curates]
  have no_rung : grants.any (fun g => g.principalType == .user && g.principalId == actor.userId && g.role == .curator) = false := by
    simpa [and_assoc] using curates
  rw [if_neg owner, if_neg (by simp [no_rung])]
  simp only [not_owner, curates, false_or]
  rcases org : normalizeId lake.organizationId with - | org
  · simp [isGrantOrgContained, and_assoc]
  · simp only [Option.any_some, reduceCtorEq, Option.some.injEq, exists_eq_left', false_and, or_false]
    split
    · rename_i admin
      simp [admin]
    · rename_i admin
      refine iff_of_false (fun any => ?_) admin
      obtain ⟨g, -, rung⟩ := List.any_eq_true.mp any
      simp only [Bool.and_eq_true, isGrantOrgContained, Option.all_some, beq_iff_eq, normalizeId_eq_some, Option.some.injEq] at rung
      exact admin (rung.2.1 ▸ rung.1.2)

end Bike4Mind.DataLakes
