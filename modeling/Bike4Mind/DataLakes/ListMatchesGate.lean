import Bike4Mind.DataLakes.ReachQueries

/-! The lakes a caller is listed against the lakes the gate opens to the caller. -/

namespace Bike4Mind.DataLakes
open Collections

section Reach
variable {grants : List AccessGrant} {now : Time} {ctx : AccessContext} {lake : DataLake} {lakes : List DataLake} {enforce : Bool}

/-- The rows one organization's grants add to its bucket, and to no other. -/
theorem foldl_addOrgLake {ids : List String} {orgId : OrganizationId} {rows : List AccessGrant}
    {byOrg : OrderedMap OrganizationId (List String)} {org : OrganizationId} {lakeId : String} :
    lakeId ∈ ((rows.foldl (addOrgLake ids orgId) byOrg).get? org).getD [] ↔
      lakeId ∈ (byOrg.get? org).getD [] ∨ org = orgId ∧ lakeId ∉ ids ∧ ∃ row ∈ rows, row.dataLakeId = lakeId := by
  induction rows generalizing byOrg with
  | nil => simp
  | cons row rest ih =>
    rw [List.foldl_cons, ih]
    have step : lakeId ∈ ((addOrgLake ids orgId byOrg row).get? org).getD [] ↔
        lakeId ∈ (byOrg.get? org).getD [] ∨ org = orgId ∧ lakeId ∉ ids ∧ row.dataLakeId = lakeId := by
      unfold addOrgLake
      split
      · rename_i known
        constructor
        · exact Or.inl
        · rintro (old | ⟨-, unknown, rfl⟩)
          · exact old
          · exact (unknown known).elim
      · rename_i unknown
        rw [OrderedMap.get?_set]
        split
        · rename_i same
          subst same
          rw [Option.getD_some, mem_insertNew]
          constructor
          · rintro (rfl | old)
            · exact Or.inr ⟨rfl, unknown, rfl⟩
            · exact Or.inl old
          · rintro (old | ⟨-, -, rfl⟩)
            · exact Or.inr old
            · exact Or.inl rfl
        · rename_i other
          simp [other]
    rw [step, or_assoc]
    simp only [List.mem_cons, exists_eq_or_imp, ← and_or_left]

theorem mem_orgGrantedLakes {org : OrganizationId} {lakeId : String} :
    lakeId ∈ ((grantedLakeReachFor grants now ctx.userId ctx.organizationIds enforce).orgGrantedLakes.get? org).getD [] ↔
      enforce = true ∧ org ∈ ctx.organizationIds ∧
      lakeId ∉ (grantedLakeReachFor grants now ctx.userId ctx.organizationIds enforce).grantedLakeIds ∧
      ∃ row ∈ listByPrincipal grants .organization org.val now, row.dataLakeId = lakeId := by
  unfold grantedLakeReachFor
  dsimp only
  generalize distinct (((listByPrincipal grants .user ctx.userId now).filter (·.role.lists enforce)).map (·.dataLakeId)) = ids
  cases enforce with
  | false => simp
  | true =>
    have folded : ∀ (orgs : List OrganizationId) (byOrg : OrderedMap OrganizationId (List String)),
        lakeId ∈ ((orgs.foldl (fun byOrg orgId => (listByPrincipal grants .organization orgId.val now).foldl (addOrgLake ids orgId) byOrg)
          byOrg).get? org).getD [] ↔ lakeId ∈ (byOrg.get? org).getD [] ∨
          org ∈ orgs ∧ lakeId ∉ ids ∧ ∃ row ∈ listByPrincipal grants .organization org.val now, row.dataLakeId = lakeId := by
      intro orgs
      induction orgs with
      | nil => simp
      | cons orgId rest ih =>
        intro byOrg
        rw [List.foldl_cons, ih, foldl_addOrgLake, or_assoc, List.mem_cons, or_and_right]
        refine or_congr_right (or_congr_left ⟨?_, ?_⟩)
        · rintro ⟨rfl, facts⟩
          exact ⟨rfl, facts⟩
        · rintro ⟨rfl, facts⟩
          exact ⟨rfl, facts⟩
    rw [if_pos rfl, folded]
    simp

theorem mem_grantedLakeIds {lakeId : String} :
    lakeId ∈ (grantedLakeReachFor grants now ctx.userId ctx.organizationIds enforce).grantedLakeIds ↔
      ∃ g ∈ lakeGrants grants lakeId now, g.principalType = .user ∧ g.principalId = ctx.userId ∧ g.role.lists enforce = true := by
  unfold grantedLakeReachFor
  dsimp only
  rw [mem_distinct, List.mem_map]
  simp only [List.mem_filter, mem_listByPrincipal, mem_lakeGrants]
  constructor
  · rintro ⟨row, ⟨⟨member, isUser, own, live⟩, listed⟩, here⟩
    exact ⟨row.toLakeGrant, ⟨row, member, here, live, rfl⟩, isUser, own, listed⟩
  · rintro ⟨-, ⟨row, member, here, live, rfl⟩, isUser, own, listed⟩
    exact ⟨row, ⟨⟨member, isUser, own, live⟩, listed⟩, here⟩

theorem usable {ids : List String} : lake.id.val ∈ usableObjectIds ids ↔ lake.id.val ∈ ids := by
  simp [usableObjectIds, lake.id.property]

/-- The arms of the organizations' grants, one organization at a time. -/
theorem orgGrantArms_match {orgGrantedLakes : OrderedMap OrganizationId (List String)} :
    matchesAny (orgGrantArms orgGrantedLakes) lake = true ↔
      ∃ org : OrganizationId, lake.organizationId = some org.val ∧ lake.id.val ∈ (orgGrantedLakes.get? org).getD [] := by
  unfold matchesAny orgGrantArms
  simp only [List.any_flatMap, List.any_eq_true]
  constructor
  · rintro ⟨⟨org, lakeIds⟩, entry, arms⟩
    obtain ⟨arm, member, hit⟩ := arms
    dsimp only at member
    split at member
    · cases List.mem_singleton.mp member
      simp only [Bool.and_eq_true, beq_iff_eq, List.contains_iff_mem, usable] at hit
      refine ⟨org, hit.1, ?_⟩
      rw [OrderedMap.get?_of_mem entry]
      exact hit.2
    · cases member
  · rintro ⟨org, here, member⟩
    rcases found : orgGrantedLakes.get? org with - | lakeIds
    · rw [found] at member
      cases member
    · rw [found, Option.getD_some, ← usable] at member
      refine ⟨(org, lakeIds), OrderedMap.mem_of_get? found, ?_⟩
      dsimp only
      rw [if_pos (List.length_pos_of_mem member)]
      refine ⟨_, List.mem_singleton_self _, ?_⟩
      simpa [here] using member

/-! ### The owner arm -/

/-- A creator is superseded exactly by owner grants that leave the creator out. -/
theorem mem_supersededOwnLakeIdsFor (stored : lake ∈ lakes) (named : ctx.userId ≠ "") (member : ctx.isAdmin = false)
    (created : lake.createdByUserId = ctx.userId) : lake.id.val ∈ supersededOwnLakeIdsFor lakes grants now ctx.actor ↔
      ctx.userId ∉ resolveEffectiveOwnerIds lake.createdByUserId (lakeGrants grants lake.id.val now) := by
  have listed : lake.id.val ∈ findIdsCreatedBy lakes ctx.userId := by
    rw [findIdsCreatedBy, if_neg named]
    exact List.mem_map.mpr ⟨lake, List.mem_filter.mpr ⟨stored, by simpa using created⟩, rfl⟩
  have nonempty : findIdsCreatedBy lakes ctx.userId ≠ [] := List.ne_nil_of_mem listed
  have actor_id : ctx.actor.userId = ctx.userId := rfl
  have not_admin : (ctx.actor.isAdmin || ctx.actor.userId == "") = false := by
    simpa [AccessContext.actor, member] using named
  unfold supersededOwnLakeIdsFor
  rw [not_admin, if_neg Bool.false_ne_true, actor_id]
  dsimp only
  rw [if_neg nonempty, List.mem_filter, gathered_lakeGrants listed, created]
  simp [listed]

theorem ownerArm_match (stored : lake ∈ lakes) (named : ctx.userId ≠ "") (member : ctx.isAdmin = false) :
    ownerArm ctx.userId (supersededOwnLakeIdsFor lakes grants now ctx.actor) lake = true ↔
      lake.createdByUserId = ctx.userId ∧
      ctx.userId ∈ resolveEffectiveOwnerIds lake.createdByUserId (lakeGrants grants lake.id.val now) := by
  have excluded : ownerArm ctx.userId (supersededOwnLakeIdsFor lakes grants now ctx.actor) lake = true ↔
      lake.createdByUserId = ctx.userId ∧ lake.id.val ∉ supersededOwnLakeIdsFor lakes grants now ctx.actor := by
    rw [← usable]
    unfold ownerArm
    dsimp only
    split
    · simp
    · rename_i none_left
      have empty := List.length_eq_zero_iff.mp (Nat.eq_zero_of_not_pos none_left)
      simp [empty]
  rw [excluded]
  constructor
  · rintro ⟨created, kept⟩
    exact ⟨created, not_not.mp fun lost => kept ((mem_supersededOwnLakeIdsFor stored named member created).mpr lost)⟩
  · rintro ⟨created, owns⟩
    exact ⟨created, fun superseded => (mem_supersededOwnLakeIdsFor stored named member created).mp superseded owns⟩

/-! ### Reach without the lake's gate -/

/-- Opened by managing the lake, or by a grant while grants are enforced. -/
def opened (lake : DataLake) (ctx : AccessContext) (grants : List LakeGrant) (enforce : Bool) : Prop :=
  canManageLake lake ctx.actor grants = true ∨ enforce = true ∧ readGranted lake ctx grants

/-- Grants by which an organization would manage a lake that has no organization. -/
def orgManagesOrgless (lake : DataLake) (grants : List LakeGrant) : Prop :=
  normalizeId lake.organizationId = none ∧ ∃ g ∈ grants, g.principalType = .organization ∧ (g.role = .owner ∨ g.role = .curator)

theorem isIn_iff {values : List String} {field : Option String} : isIn values field = true ↔ ∃ v, field = some v ∧ v ∈ values := by
  rcases field with - | v
  · simp [isIn]
  · simp [isIn]

theorem isIn_nonempty {values : List String} {field : Option String} (hit : isIn values field = true) : values.length > 0 := by
  obtain ⟨v, -, member⟩ := isIn_iff.mp hit
  exact List.length_pos_of_mem member

theorem matchesAny_append {arms arms' : List Filter} : matchesAny (arms ++ arms') lake = (matchesAny arms lake || matchesAny arms' lake) :=
  List.any_append

theorem matchesAny_cons {arm : Filter} {arms : List Filter} : matchesAny (arm :: arms) lake = (arm lake || matchesAny arms lake) :=
  List.any_cons

theorem matchesAny_nil : matchesAny [] lake = false := rfl

theorem matchesAny_guarded {c : Prop} [Decidable c] {arm : Filter} (needed : arm lake = true → c) :
    matchesAny (if c then [arm] else []) lake = arm lake := by
  split
  · simp [matchesAny]
  · rename_i omitted
    simpa [matchesAny] using fun hit => omitted (needed hit)

theorem matchesAny_granted {ids : List String} :
    matchesAny (if ids.length > 0 then [fun lake => ids.contains lake.id.val] else []) lake = ids.contains lake.id.val :=
  matchesAny_guarded fun hit => List.length_pos_of_mem (List.contains_iff_mem.mp hit)

theorem memberOrgs_nonempty {orgs : List OrganizationId} (hit : memberOrgs orgs lake = true) : orgs.length > 0 := by
  simpa using isIn_nonempty hit

theorem memberOrgs_match {orgs : List OrganizationId} :
    memberOrgs orgs lake = true ↔ ∃ org, normalizeId lake.organizationId = some org ∧ administers orgs org = true := by
  unfold memberOrgs administers
  rw [isIn_iff]
  constructor
  · rintro ⟨org, here, listed⟩
    obtain ⟨id, member, rfl⟩ := List.mem_map.mp listed
    exact ⟨id.val, normalizeId_eq_some.mpr ⟨here, id.property⟩, List.any_eq_true.mpr ⟨id, member, by simp⟩⟩
  · rintro ⟨org, here, rung⟩
    obtain ⟨id, member, same⟩ := List.any_eq_true.mp rung
    have same : id.val = org := by simpa using same
    exact ⟨org, (normalizeId_eq_some.mp here).1, List.mem_map.mpr ⟨id, member, same⟩⟩

theorem lists_enforced {role : AccessRole} : role.lists true = true := by cases role <;> rfl

theorem lists_managing {role : AccessRole} (manages : role = .owner ∨ role = .curator) : role.lists enforce = true := by
  rcases manages with rfl | rfl
  · rfl
  · rfl

theorem mem_orgGrants {org : OrganizationId} : (∃ row ∈ listByPrincipal grants .organization org.val now, row.dataLakeId = lake.id.val) ↔
    ∃ g ∈ lakeGrants grants lake.id.val now, g.principalType = .organization ∧ g.principalId = org.val := by
  simp only [mem_listByPrincipal, mem_lakeGrants]
  constructor
  · rintro ⟨row, ⟨member, isOrg, same, live⟩, here⟩
    exact ⟨row.toLakeGrant, ⟨row, member, here, live, rfl⟩, isOrg, same⟩
  · rintro ⟨-, ⟨row, member, here, live, rfl⟩, isOrg, same⟩
    exact ⟨row, ⟨member, isOrg, same, live⟩, here⟩

theorem orgGrants_read (orgs : matchesAny (orgGrantArms (grantedLakeReachFor grants now ctx.userId ctx.organizationIds enforce).orgGrantedLakes)
    lake = true) : enforce = true ∧ readGranted lake ctx (lakeGrants grants lake.id.val now) := by
  obtain ⟨org, here, member⟩ := orgGrantArms_match.mp orgs
  obtain ⟨on, belongs, -, row⟩ := mem_orgGrantedLakes.mp member
  obtain ⟨g, held, isOrg, same⟩ := mem_orgGrants.mp row
  refine ⟨on, Or.inr ⟨g, held, isOrg, isMember_iff.mpr ⟨org, belongs, same.symm⟩, ?_⟩⟩
  exact normalizeId_eq_some.mpr ⟨same.symm ▸ here, same.symm ▸ org.property⟩

/-- The arms that skip the lake's gate list what managing or a grant opens. -/
theorem reach_opens (stored : lake ∈ lakes) (named : ctx.userId ≠ "") (member : ctx.isAdmin = false)
    (contained : ¬orgManagesOrgless lake (lakeGrants grants lake.id.val now)) :
    (ownerArm ctx.userId (supersededOwnLakeIdsFor lakes grants now ctx.actor) lake = true ∨
      lake.id.val ∈ (grantedLakeReachFor grants now ctx.userId ctx.organizationIds enforce).grantedLakeIds ∨
      matchesAny (orgGrantArms (grantedLakeReachFor grants now ctx.userId ctx.organizationIds enforce).orgGrantedLakes) lake = true ∨
      memberOrgs ctx.administeredOrgIds lake = true) ↔ opened lake ctx (lakeGrants grants lake.id.val now) enforce := by
  unfold opened
  rw [canManageLake_iff member named, ownerArm_match stored named member, mem_grantedLakeIds, memberOrgs_match]
  constructor
  · rintro (⟨-, owns⟩ | ⟨g, held, isUser, own, listed⟩ | orgs | administered)
    · exact Or.inl (Or.inl owns)
    · rcases role : g.role with - | - | -
      · exact Or.inl (Or.inl ((mem_resolveEffectiveOwnerIds named).mpr (Or.inl ⟨g, held, isUser, role, own⟩)))
      · exact Or.inl (Or.inr (Or.inl ⟨g, held, isUser, own, role⟩))
      · have on : enforce = true := by simpa [AccessRole.lists, role] using listed
        exact Or.inr ⟨on, Or.inl ⟨g, held, isUser, own⟩⟩
    · exact Or.inr (orgGrants_read orgs)
    · exact Or.inl (Or.inr (Or.inr (Or.inl administered)))
  · rintro ((owns | ⟨g, held, isUser, own, role⟩ | administered | ⟨orgless, g, held, isOrg, role, -⟩) | ⟨rfl, read⟩)
    · rcases (mem_resolveEffectiveOwnerIds named).mp owns with ⟨g, held, isUser, role, own⟩ | ⟨created, -⟩
      · exact Or.inr (Or.inl ⟨g, held, isUser, own, lists_managing (Or.inl role)⟩)
      · exact Or.inl ⟨created, owns⟩
    · exact Or.inr (Or.inl ⟨g, held, isUser, own, lists_managing (Or.inr role)⟩)
    · exact Or.inr (Or.inr (Or.inr administered))
    · exact (contained ⟨orgless, g, held, isOrg, role⟩).elim
    · rcases read with ⟨g, held, isUser, own⟩ | ⟨g, held, isOrg, belongs, here⟩
      · exact Or.inr (Or.inl ⟨g, held, isUser, own, lists_enforced⟩)
      · by_cases known : lake.id.val ∈ (grantedLakeReachFor grants now ctx.userId ctx.organizationIds true).grantedLakeIds
        · exact Or.inr (Or.inl (mem_grantedLakeIds.mp known))
        · obtain ⟨org, belongs, same⟩ := isMember_iff.mp belongs
          refine Or.inr (Or.inr (Or.inl (orgGrantArms_match.mpr ⟨org, same ▸ (normalizeId_eq_some.mp here).1, ?_⟩)))
          exact mem_orgGrantedLakes.mpr ⟨rfl, belongs, known, mem_orgGrants.mpr ⟨g, held, isOrg, same.symm⟩⟩

/-! ### The gate fields -/

/-- A lake as the write paths store it: its tag in lower case, its entitlement normalized. -/
structure GateStored (casing : Casing) (lake : DataLake) : Prop where
  tag : ∀ value, lake.requiredUserTag = some value → casing.toLowerCase value = value
  entitlement : ∀ value, lake.requiredEntitlement = some value → normalizeEntitlementKey casing value = value

/-- A blank tag or key of the caller's meets a gate field that was cleared by storing a blank. -/
def blankGateHeld (casing : Casing) (lake : DataLake) (ctx : AccessContext) : Prop :=
  lake.requiredUserTag = some "" ∧ ("" ∈ ctx.userTags ∨ "" ∈ ctx.normalizedTags casing) ∨
  lake.requiredEntitlement = some "" ∧ "" ∈ ctx.normalizedKeys casing

theorem gateFieldMet_iff {normalize : String → String} {held : List String} {field : Option String}
    (canonical : ∀ v, field = some v → normalize v = v) :
    gateFieldMet normalize held field = true ↔ ∃ v, field = some v ∧ v ≠ "" ∧ v ∈ held := by
  rcases field with - | v
  · simp [gateFieldMet]
  · simp [gateFieldMet, blank, canonical v rfl]

variable {casing : Casing}

theorem tag_held (stored : GateStored casing lake) : isIn (allTags casing ctx.userTags) lake.requiredUserTag = true ↔
    gateFieldMet casing.toLowerCase (ctx.normalizedTags casing) lake.requiredUserTag = true ∨
    lake.requiredUserTag = some "" ∧ ("" ∈ ctx.userTags ∨ "" ∈ ctx.normalizedTags casing) := by
  rw [isIn_iff, gateFieldMet_iff stored.tag]
  have lowered : ∀ v, lake.requiredUserTag = some v → v ∈ allTags casing ctx.userTags → v ≠ "" → v ∈ ctx.normalizedTags casing := by
    intro v tag held _
    rw [allTags, mem_distinct, List.mem_append] at held
    rcases held with raw | lower
    · exact List.mem_map.mpr ⟨v, raw, stored.tag v tag⟩
    · exact lower
  constructor
  · rintro ⟨v, tag, held⟩
    by_cases empty : v = ""
    · subst empty
      rw [allTags, mem_distinct, List.mem_append] at held
      exact Or.inr ⟨tag, held⟩
    · exact Or.inl ⟨v, tag, empty, lowered v tag held empty⟩
  · rintro (⟨v, tag, -, held⟩ | ⟨tag, held⟩)
    · exact ⟨v, tag, by rw [allTags, mem_distinct]; exact List.mem_append_right _ held⟩
    · exact ⟨"", tag, by rw [allTags, mem_distinct]; exact List.mem_append.mpr held⟩

theorem key_held (stored : GateStored casing lake) : isIn (ctx.normalizedKeys casing) lake.requiredEntitlement = true ↔
    gateFieldMet (normalizeEntitlementKey casing) (ctx.normalizedKeys casing) lake.requiredEntitlement = true ∨
    lake.requiredEntitlement = some "" ∧ "" ∈ ctx.normalizedKeys casing := by
  rw [isIn_iff, gateFieldMet_iff stored.entitlement]
  constructor
  · rintro ⟨v, key, held⟩
    by_cases empty : v = ""
    · subst empty
      exact Or.inr ⟨key, held⟩
    · exact Or.inl ⟨v, key, empty, held⟩
  · rintro (⟨v, key, -, held⟩ | ⟨key, held⟩)
    · exact ⟨v, key, held⟩
    · exact ⟨"", key, held⟩

theorem lakeMatchesAccess_iff {tags keys : List String} : lakeMatchesAccess casing lake tags keys = true ↔
    GATELESS lake = true ∨ gateFieldMet casing.toLowerCase tags lake.requiredUserTag = true ∨
      gateFieldMet (normalizeEntitlementKey casing) keys lake.requiredEntitlement = true := by
  unfold lakeMatchesAccess GATELESS
  dsimp only
  cases blank lake.requiredUserTag with
  | false => simp
  | true => simp

/-- The query's requirement is the gate's, but for blanks. -/
theorem requirement_match (stored : GateStored casing lake) :
    requirementConstraint casing ctx.userTags ctx.entitlementKeys lake = true ↔
      lakeMatchesAccess casing lake (ctx.normalizedTags casing) (ctx.normalizedKeys casing) = true ∨ blankGateHeld casing lake ctx := by
  have arms : requirementConstraint casing ctx.userTags ctx.entitlementKeys lake = true ↔
      GATELESS lake = true ∨ isIn (allTags casing ctx.userTags) lake.requiredUserTag = true ∨
      isIn (ctx.normalizedKeys casing) lake.requiredEntitlement = true := by
    unfold requirementConstraint
    rw [matchesAny_append, matchesAny_guarded fun hit => isIn_nonempty hit]
    simp [matchesAny, AccessContext.normalizedKeys, or_assoc]
  rw [arms, tag_held stored, key_held stored, lakeMatchesAccess_iff]
  unfold blankGateHeld
  constructor
  · rintro (gateless | (tag | tag) | key | key)
    · exact Or.inl (Or.inl gateless)
    · exact Or.inl (Or.inr (Or.inl tag))
    · exact Or.inr (Or.inl tag)
    · exact Or.inl (Or.inr (Or.inr key))
    · exact Or.inr (Or.inr key)
  · rintro ((gateless | tag | key) | tag | key)
    · exact Or.inl gateless
    · exact Or.inr (Or.inl (Or.inl tag))
    · exact Or.inr (Or.inr (Or.inl key))
    · exact Or.inr (Or.inl (Or.inr tag))
    · exact Or.inr (Or.inr (Or.inr key))

/-! ### The organization of a lake -/

theorem orgConstraint_match : orgConstraint ctx.organizationIds lake = true ↔ openToOrganization lake ctx := by
  have prerequisite : orgConstraint ctx.organizationIds lake = true ↔
      normalizeId lake.organizationId = none ∨ memberOrgs ctx.organizationIds lake = true := by
    rw [normalizeId_none]
    unfold orgConstraint
    split
    · simp
    · rename_i none_joined
      constructor
      · exact Or.inl
      · exact fun h => h.resolve_right fun hit => none_joined (memberOrgs_nonempty hit)
  rw [prerequisite, memberOrgs_match]
  unfold openToOrganization
  rcases normalizeId lake.organizationId with - | org
  · simp
  · simp [administers, AccessContext.isMember]

theorem notPrivate_match : notPrivate lake = true ↔ privateByDefault lake = false := by
  have orgless : (normalizeId lake.organizationId).isNone = blank lake.organizationId := by
    rw [Bool.eq_iff_iff, Option.isNone_iff_eq_none, normalizeId_none]
  rw [notPrivate, privateByDefault, orgless, Bool.not_eq_true']

/-! ### Both queries -/

theorem list_match (stored : lake ∈ lakes) (named : ctx.userId ≠ "") (member : ctx.isAdmin = false)
    (attachable : lake.status ∈ LAKE_ATTACHABLE_STATUSES) (gate : GateStored casing lake)
    (contained : ¬orgManagesOrgless lake (lakeGrants grants lake.id.val now)) :
    (buildAccessibleQuery casing ctx (reachOptsFor lakes grants now ctx enforce) LAKE_ATTACHABLE_STATUSES true).filter lake = true ↔
      opened lake ctx (lakeGrants grants lake.id.val now) enforce ∨
      (lakeMatchesAccess casing lake (ctx.normalizedTags casing) (ctx.normalizedKeys casing) = true ∨ blankGateHeld casing lake ctx) ∧
        (lake.isPublic = true ∨ openToOrganization lake ctx ∧ privateByDefault lake = false) := by
  rw [← reach_opens stored named member contained, ← requirement_match gate, ← orgConstraint_match, ← notPrivate_match, ← usable]
  have unlabelled : ((Prod.snd : FindAccessibleArm × Filter → Filter) ∘ fun arm => (FindAccessibleArm.orgGrant, arm)) = id := rfl
  unfold buildAccessibleQuery reachOptsFor
  rw [if_neg (by simp [member])]
  simp only [List.map_append, apply_ite (List.map Prod.snd), List.map_cons, List.map_nil, List.map_map, unlabelled, List.map_id,
    if_true, matchesAny_append, matchesAny_cons, matchesAny_nil, matchesAny_guarded memberOrgs_nonempty, matchesAny_granted,
    Bool.or_false, List.contains_iff_mem.mpr attachable, Bool.true_and, Bool.or_eq_true, Bool.and_eq_true, List.contains_iff_mem]
  tauto

/-- The caller without the rights in organizations, which retrieval does not ask for. -/
def AccessContext.unadministering (ctx : AccessContext) : AccessContext := { ctx with administeredOrgIds := [] }

theorem reached_by_gate : openToOrganization lake ctx ∧ (GATELESS lake = true ∧ memberOrgs ctx.organizationIds lake = true) ↔
    openToOrganization lake ctx ∧ GATELESS lake = true ∧ privateByDefault lake = false := by
  refine and_congr_right fun member => and_congr_right fun gateless => ?_
  rw [memberOrgs_match]
  simp only [GATELESS, Bool.and_eq_true] at gateless
  unfold privateByDefault
  rcases found : normalizeId lake.organizationId with - | org
  · simp [gateless]
  · simpa [administers, AccessContext.isMember] using member org found

theorem met_not_private {normalize : String → String} {held : List String} {field : Option String}
    (met : gateFieldMet normalize held field = true) : blank field = false := by
  simp only [gateFieldMet, Bool.and_eq_true, Bool.not_eq_true'] at met
  exact met.1

/-- What retrieval reaches by the gate and the organization of a lake. -/
def nonOwnerReach (casing : Casing) (ctx : AccessContext) : Filter := fun lake =>
  isIn (allTags casing ctx.userTags) lake.requiredUserTag || (GATELESS lake && memberOrgs ctx.organizationIds lake) ||
    isIn (ctx.normalizedKeys casing) lake.requiredEntitlement

theorem nonOwnerReach_match (gate : GateStored casing lake) :
    openToOrganization lake ctx ∧ nonOwnerReach casing ctx lake = true ↔ openToOrganization lake ctx ∧ (blankGateHeld casing lake ctx ∨
      lakeMatchesAccess casing lake (ctx.normalizedTags casing) (ctx.normalizedKeys casing) = true ∧ privateByDefault lake = false) := by
  have gated : ∀ {field : Bool}, field = false → (field = blank lake.requiredUserTag ∨ field = blank lake.requiredEntitlement) →
      privateByDefault lake = false := by
    rintro field cleared (rfl | rfl)
    · simp [privateByDefault, cleared]
    · simp [privateByDefault, cleared]
  have gateless : openToOrganization lake ctx ∧ (GATELESS lake = true ∧ memberOrgs ctx.organizationIds lake = true) ↔
      openToOrganization lake ctx ∧ GATELESS lake = true ∧ privateByDefault lake = false := reached_by_gate
  simp only [nonOwnerReach, Bool.or_eq_true, Bool.and_eq_true, tag_held gate, key_held gate, lakeMatchesAccess_iff, blankGateHeld]
  constructor
  · rintro ⟨inside, ((tag | tag) | members) | key | key⟩
    · exact ⟨inside, Or.inr ⟨Or.inr (Or.inl tag), gated (met_not_private tag) (Or.inl rfl)⟩⟩
    · exact ⟨inside, Or.inl (Or.inl tag)⟩
    · obtain ⟨-, none_asked, shared⟩ := gateless.mp ⟨inside, members⟩
      exact ⟨inside, Or.inr ⟨Or.inl none_asked, shared⟩⟩
    · exact ⟨inside, Or.inr ⟨Or.inr (Or.inr key), gated (met_not_private key) (Or.inr rfl)⟩⟩
    · exact ⟨inside, Or.inl (Or.inr key)⟩
  · rintro ⟨inside, (tag | key) | ⟨none_asked | tag | key, shared⟩⟩
    · exact ⟨inside, Or.inl (Or.inl (Or.inr tag))⟩
    · exact ⟨inside, Or.inr (Or.inr key)⟩
    · exact ⟨inside, Or.inl (Or.inr (gateless.mpr ⟨inside, none_asked, shared⟩).2)⟩
    · exact ⟨inside, Or.inl (Or.inl (Or.inl tag))⟩
    · exact ⟨inside, Or.inr (Or.inl key)⟩

-- The arms as the query lists them, and as the gate asks for them.
theorem arms_arranged {own member asked met open' granted grantedOrg : Prop} :
    ((own ∨ member ∧ asked ∨ open' ∧ met) ∨ granted) ∨ grantedOrg ↔ (own ∨ granted ∨ grantedOrg) ∨ met ∧ open' ∨ member ∧ asked := by
  tauto

theorem reach_match (stored : lake ∈ lakes) (named : ctx.userId ≠ "") (member : ctx.isAdmin = false) (gate : GateStored casing lake)
    (contained : ¬orgManagesOrgless lake (lakeGrants grants lake.id.val now)) :
    matchesAny (buildReachArms casing ctx.userTags ctx.entitlementKeys ctx.organizationIds ctx.userId
      (reachOptsFor lakes grants now ctx enforce)) lake = true ↔
      opened lake ctx.unadministering (lakeGrants grants lake.id.val now) enforce ∨
      (lakeMatchesAccess casing lake (ctx.normalizedTags casing) (ctx.normalizedKeys casing) = true ∨ blankGateHeld casing lake ctx) ∧
        lake.isPublic = true ∨
      openToOrganization lake ctx ∧ (blankGateHeld casing lake ctx ∨
        lakeMatchesAccess casing lake (ctx.normalizedTags casing) (ctx.normalizedKeys casing) = true ∧ privateByDefault lake = false) := by
  have opens := @reach_opens grants now ctx.unadministering lake lakes enforce stored named member contained
  have none_administered : memberOrgs ctx.unadministering.administeredOrgIds lake = false := by
    rcases org : lake.organizationId with - | id
    · simp [memberOrgs, isIn, org]
    · simp [memberOrgs, isIn, org, AccessContext.unadministering]
  have members_only : ∀ lake : DataLake, matchesAny (if ctx.organizationIds.length > 0 then
      [fun lake => GATELESS lake && memberOrgs ctx.organizationIds lake] else []) lake =
      (GATELESS lake && memberOrgs ctx.organizationIds lake) := fun lake =>
    matchesAny_guarded fun hit => memberOrgs_nonempty (Bool.and_eq_true_iff.mp hit).2
  have gate_arm : ∀ lake : DataLake, matchesAny (([fun lake => isIn (allTags casing ctx.userTags) lake.requiredUserTag] ++
      (if ctx.organizationIds.length > 0 then [fun lake => GATELESS lake && memberOrgs ctx.organizationIds lake] else []) ++
      (if (ctx.normalizedKeys casing).length > 0 then [fun lake => isIn (ctx.normalizedKeys casing) lake.requiredEntitlement] else []))) lake =
      nonOwnerReach casing ctx lake := by
    intro lake
    rw [matchesAny_append, matchesAny_append, members_only, matchesAny_guarded fun hit => isIn_nonempty hit, matchesAny_cons,
      matchesAny_nil, Bool.or_false]
    rfl
  rw [← opens, ← nonOwnerReach_match gate, ← requirement_match gate, ← orgConstraint_match, ← usable, none_administered]
  unfold buildReachArms reachOptsFor
  unfold AccessContext.normalizedKeys at gate_arm
  rw [if_neg named]
  simp only [matchesAny_append, matchesAny_cons, matchesAny_nil, matchesAny_granted, gate_arm, Bool.or_false, Bool.or_eq_true,
    Bool.and_eq_true, List.contains_iff_mem, Bool.false_eq_true, or_false]
  exact arms_arranged

/-! ### The list against the gate -/

/-- A caller met by a blank gate field of a lake whose organization does not keep the caller out. -/
def blankGateOpens (casing : Casing) (lake : DataLake) (ctx : AccessContext) : Prop :=
  blankGateHeld casing lake ctx ∧ (lake.isPublic = true ∨ openToOrganization lake ctx)

/-- What keeps the lake shut to a caller: its gate fields, or having neither gate nor organization. -/
def gateUnmet (casing : Casing) (lake : DataLake) (ctx : AccessContext) : Prop :=
  lakeMatchesAccess casing lake (ctx.normalizedTags casing) (ctx.normalizedKeys casing) = false

theorem private_met {tags keys : List String} (hidden : privateByDefault lake = true) : lakeMatchesAccess casing lake tags keys = true := by
  simp only [privateByDefault, Bool.and_eq_true] at hidden
  exact lakeMatchesAccess_iff.mpr (Or.inl (by simp [GATELESS, hidden]))

theorem gateUnmet_iff : gateUnmet casing lake ctx ↔
    ¬lakeMatchesAccess casing lake (ctx.normalizedTags casing) (ctx.normalizedKeys casing) = true := by
  rw [gateUnmet, Bool.not_eq_true]

theorem gate_match (named : ctx.userId ≠ "") {rows : List LakeGrant} :
    (resolveLakeReadAccess casing lake ctx rows enforce).allowed = true ↔ opened lake ctx rows enforce ∨ admits casing lake ctx := by
  rw [resolveLakeReadAccess_allowed named, opened, or_assoc, or_comm (a := admits casing lake ctx)]

theorem list_agrees_iff (stored : lake ∈ lakes) (named : ctx.userId ≠ "") (member : ctx.isAdmin = false)
    (attachable : lake.status ∈ LAKE_ATTACHABLE_STATUSES) (gate : GateStored casing lake)
    (contained : ¬orgManagesOrgless lake (lakeGrants grants lake.id.val now)) :
    ((buildAccessibleQuery casing ctx (reachOptsFor lakes grants now ctx enforce) LAKE_ATTACHABLE_STATUSES true).filter lake = true ↔
      (resolveLakeReadAccess casing lake ctx (lakeGrants grants lake.id.val now) enforce).allowed = true) ↔
    ¬(blankGateOpens casing lake ctx ∧ gateUnmet casing lake ctx ∧ ¬opened lake ctx (lakeGrants grants lake.id.val now) enforce) := by
  rw [list_match stored named member attachable gate contained, gate_match named, gateUnmet_iff]
  constructor
  · rintro agree ⟨⟨held, inside⟩, unmet, shut⟩
    have shared : privateByDefault lake = false := Bool.eq_false_iff.mpr fun hidden => unmet (private_met hidden)
    exact unmet ((agree.mp (Or.inr ⟨Or.inr held, inside.imp_right fun c => ⟨c, shared⟩⟩)).resolve_left shut).1
  · intro safe
    refine or_congr_right' fun shut => and_congr_left fun inside => ?_
    refine ⟨fun h => h.elim id fun held => ?_, Or.inl⟩
    by_contra unmet
    exact safe ⟨⟨held, inside.imp_right And.left⟩, unmet, shut⟩

theorem reach_agrees_iff (stored : lake ∈ lakes) (named : ctx.userId ≠ "") (member : ctx.isAdmin = false) (gate : GateStored casing lake)
    (contained : ¬orgManagesOrgless lake (lakeGrants grants lake.id.val now)) :
    (matchesAny (buildReachArms casing ctx.userTags ctx.entitlementKeys ctx.organizationIds ctx.userId
        (reachOptsFor lakes grants now ctx enforce)) lake = true ↔
      (resolveLakeReadAccess casing lake ctx.unadministering (lakeGrants grants lake.id.val now) enforce).allowed = true) ↔
    ¬(blankGateOpens casing lake ctx ∧ (gateUnmet casing lake ctx ∨ privateByDefault lake = true ∧ lake.isPublic = false) ∧
      ¬opened lake ctx.unadministering (lakeGrants grants lake.id.val now) enforce) := by
  have same_gate : admits casing lake ctx.unadministering ↔ admits casing lake ctx := Iff.rfl
  rw [reach_match stored named member gate contained, @gate_match ctx.unadministering lake enforce casing named, same_gate, gateUnmet_iff]
  constructor
  · rintro agree ⟨⟨held, inside⟩, closed, shut⟩
    obtain ⟨met, admitted⟩ := (agree.mp (Or.inr (inside.imp (⟨Or.inr held, ·⟩) (⟨·, Or.inl held⟩)))).resolve_left shut
    rcases closed with unmet | ⟨hidden, kept⟩
    · exact unmet met
    · rcases admitted with world | ⟨-, shared⟩
      · rw [kept] at world
        cases world
      · rw [hidden] at shared
        cases shared
  · intro safe
    refine or_congr_right' fun shut => ?_
    unfold admits
    constructor
    · rintro (⟨met | held, world⟩ | ⟨inside, held | ⟨met, shared⟩⟩)
      · exact ⟨met, Or.inl world⟩
      · refine ⟨?_, Or.inl world⟩
        by_contra unmet
        exact safe ⟨⟨held, Or.inl world⟩, Or.inl unmet, shut⟩
      · by_contra denied
        refine safe ⟨⟨held, Or.inr inside⟩, ?_, shut⟩
        by_contra open_gate
        rw [not_or, not_not, not_and] at open_gate
        obtain ⟨met, visible⟩ := open_gate
        refine denied ⟨met, ?_⟩
        by_cases hidden : privateByDefault lake = true
        · exact Or.inl (Bool.not_eq_false _ ▸ visible hidden)
        · exact Or.inr ⟨inside, Bool.eq_false_iff.mpr hidden⟩
      · exact ⟨met, Or.inr ⟨inside, shared⟩⟩
    · rintro ⟨met, world | ⟨inside, shared⟩⟩
      · exact Or.inl ⟨Or.inl met, world⟩
      · exact Or.inr ⟨inside, Or.inr ⟨met, shared⟩⟩

/-- Lists and gate agree unless a blank gate field opens to a blank tag or key a lake that nothing else opens:
a listed lake whose other gate field is unmet, or a retrieved one that is private by default. -/
theorem lists_match_gate_iff (casing : Casing) (lakes : List DataLake) (lake : DataLake) (ctx : AccessContext)
    (grants : List AccessGrant) (now : Time) (enforce : Bool) (stored : lake ∈ lakes) (named : ctx.userId ≠ "")
    (member : ctx.isAdmin = false) (attachable : lake.status ∈ LAKE_ATTACHABLE_STATUSES) (gate : GateStored casing lake)
    (contained : ¬orgManagesOrgless lake (lakeGrants grants lake.id.val now)) :
    ((((buildAccessibleQuery casing ctx (reachOptsFor lakes grants now ctx enforce) LAKE_ATTACHABLE_STATUSES true).filter lake = true ↔
        (resolveLakeReadAccess casing lake ctx (lakeGrants grants lake.id.val now) enforce).allowed = true)) ∧
      (lake.status = .active →
        (matchesAny (buildReachArms casing ctx.userTags ctx.entitlementKeys ctx.organizationIds ctx.userId
            (reachOptsFor lakes grants now ctx enforce)) lake = true ↔
          (resolveLakeReadAccess casing lake ctx.unadministering (lakeGrants grants lake.id.val now) enforce).allowed = true))) ↔
    ¬(blankGateOpens casing lake ctx ∧
      (gateUnmet casing lake ctx ∧ ¬opened lake ctx (lakeGrants grants lake.id.val now) enforce ∨
        lake.status = .active ∧ (gateUnmet casing lake ctx ∨ privateByDefault lake = true ∧ lake.isPublic = false) ∧
          ¬opened lake ctx.unadministering (lakeGrants grants lake.id.val now) enforce)) := by
  rw [list_agrees_iff stored named member attachable gate contained, reach_agrees_iff stored named member gate contained]
  constructor
  · rintro ⟨listed, reached⟩ ⟨met, unmet | ⟨live, shut⟩⟩
    · exact listed ⟨met, unmet⟩
    · exact reached live ⟨met, shut⟩
  · intro safe
    exact ⟨fun h => safe ⟨h.1, Or.inl h.2⟩, fun live h => safe ⟨h.1, Or.inr ⟨live, h.2⟩⟩⟩

end Reach

/-! ### A cleared tag gate -/

/-- Lower-casing and trimming on ASCII. -/
def asciiCasing : Casing where
  toLowerCase s := String.ofList (s.toList.map Char.toLower)
  trim s := String.ofList ((s.toList.dropWhile Char.isWhitespace).reverse.dropWhile Char.isWhitespace).reverse

/-- The tag gate was cleared by storing a blank; the entitlement still gates. -/
def clearedTagLake : DataLake where
  id := ⟨"0123456789abcdef01234568", rfl⟩
  createdByUserId := "creator"
  requiredUserTag := some ""
  requiredEntitlement := some "product:pro"
  status := .active

def blankTagCaller : AccessContext where
  userId := "stranger"
  userTags := [""]

theorem clearedTagLake_stored : GateStored asciiCasing clearedTagLake where
  tag value same := by
    cases same
    decide
  entitlement value same := by
    cases same
    decide

theorem cleared_tag_listed_unopened :
    GateStored asciiCasing clearedTagLake ∧ clearedTagLake.status ∈ LAKE_ATTACHABLE_STATUSES ∧
    (buildAccessibleQuery asciiCasing blankTagCaller (reachOptsFor [clearedTagLake] [] 0 blankTagCaller true)
      LAKE_ATTACHABLE_STATUSES true).filter clearedTagLake = true ∧
    (resolveLakeReadAccess asciiCasing clearedTagLake blankTagCaller (lakeGrants [] clearedTagLake.id.val 0) true).allowed = false :=
  ⟨clearedTagLake_stored, by decide, by decide, by decide⟩

/-- The same lake, to a caller who holds the entitlement. -/
def entitledCaller : AccessContext where
  userId := "stranger"
  entitlementKeys := [" Product:Pro "]

theorem entitled_caller_listed :
    (¬(blankGateOpens asciiCasing clearedTagLake entitledCaller ∧
      (gateUnmet asciiCasing clearedTagLake entitledCaller ∧
          ¬opened clearedTagLake entitledCaller (lakeGrants [] clearedTagLake.id.val 0) true ∨
        clearedTagLake.status = .active ∧ (gateUnmet asciiCasing clearedTagLake entitledCaller ∨
            privateByDefault clearedTagLake = true ∧ clearedTagLake.isPublic = false) ∧
          ¬opened clearedTagLake entitledCaller.unadministering (lakeGrants [] clearedTagLake.id.val 0) true))) ∧
    ((buildAccessibleQuery asciiCasing entitledCaller (reachOptsFor [clearedTagLake] [] 0 entitledCaller true)
      LAKE_ATTACHABLE_STATUSES true).filter clearedTagLake = true) := by
  have agreement := lists_match_gate_iff asciiCasing [clearedTagLake] clearedTagLake entitledCaller [] 0 true
    (List.mem_singleton_self _) (by decide) rfl (by decide) clearedTagLake_stored (fun h => by simp [lakeGrants, listByLake, orgManagesOrgless] at h)
  have listed : (buildAccessibleQuery asciiCasing entitledCaller (reachOptsFor [clearedTagLake] [] 0 entitledCaller true)
      LAKE_ATTACHABLE_STATUSES true).filter clearedTagLake = true := by decide
  have opened : (resolveLakeReadAccess asciiCasing clearedTagLake entitledCaller (lakeGrants [] clearedTagLake.id.val 0) true).allowed = true := by
    decide
  have reached : matchesAny (buildReachArms asciiCasing entitledCaller.userTags entitledCaller.entitlementKeys entitledCaller.organizationIds
      entitledCaller.userId (reachOptsFor [clearedTagLake] [] 0 entitledCaller true)) clearedTagLake = true := by decide
  have unadministered : (resolveLakeReadAccess asciiCasing clearedTagLake entitledCaller.unadministering
      (lakeGrants [] clearedTagLake.id.val 0) true).allowed = true := by decide
  exact ⟨agreement.mp ⟨iff_of_true listed opened, fun _ => iff_of_true reached unadministered⟩, listed⟩

end Bike4Mind.DataLakes
