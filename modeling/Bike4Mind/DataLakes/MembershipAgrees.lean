import Bike4Mind.DataLakes.Membership

/-! Every reading of lake membership is one predicate: the meta-tag, or an admitted name under the prefix arm. -/

namespace Bike4Mind.DataLakes
open Collections

/-! ### Usable prefixes -/

theorem dropWhile_trimmed (p : Char → Bool) (l : List Char) :
    ((l.dropWhile p).reverse.dropWhile p).reverse.dropWhile p = ((l.dropWhile p).reverse.dropWhile p).reverse := by
  have cut : ((l.dropWhile p).reverse.dropWhile p).reverse <+: l.dropWhile p := by
    have suffix := List.dropWhile_suffix (l := (l.dropWhile p).reverse) p
    rw [← List.reverse_prefix, List.reverse_reverse] at suffix
    exact suffix
  obtain ⟨rest, shape⟩ := cut
  cases kept : ((l.dropWhile p).reverse.dropWhile p).reverse with
  | nil => rfl
  | cons c left =>
    have first := List.head?_dropWhile_not p l
    rw [← shape, kept, List.cons_append, List.head?_cons] at first
    exact List.dropWhile_cons_of_neg (by simp [first])

theorem trim_trim (text : String) : ApplyPatch.trim (ApplyPatch.trim text) = ApplyPatch.trim text := by
  unfold ApplyPatch.trim ApplyPatch.trimEnd ApplyPatch.trimStart
  simp only [String.toList_ofList]
  rw [dropWhile_trimmed _ text.toList, List.reverse_reverse, List.dropWhile_idempotent]

/-- The runtime's `trim`; membership looks at no case. -/
def runtimeCasing (toLowerCase : String → String) : Casing where
  toLowerCase := toLowerCase
  trim := ApplyPatch.trim

/-- What `normalizeTagPrefix` lets through. -/
structure UsablePrefix (tagPrefix : String) : Prop where
  trimmed : ApplyPatch.trim tagPrefix = tagPrefix
  colon : tagPrefix.toList.getLast? = some ':'

theorem normalizeTagPrefix_usable {toLowerCase : String → String} {raw : Option String} {tagPrefix : String}
    (usable : normalizeTagPrefix (runtimeCasing toLowerCase) raw = some tagPrefix) : UsablePrefix tagPrefix := by
  unfold normalizeTagPrefix at usable
  dsimp only at usable
  split at usable
  · rename_i shape
    cases usable
    refine ⟨?_, shape.2⟩
    cases raw with
    | none => exact absurd rfl shape.1
    | some text => exact trim_trim text
  · cases usable

theorem startsWith_iff {text start : String} : startsWith text start = true ↔ start.toList <+: text.toList :=
  List.isPrefixOf_iff_prefix

/-- A name under a usable prefix outside the reserved namespace is outside it too. -/
theorem content_name {toLowerCase : String → String} {tagPrefix name : String} (usable : UsablePrefix tagPrefix)
    (open_ : isReservedTagPrefix (runtimeCasing toLowerCase) tagPrefix = false) (under : startsWith name tagPrefix = true) :
    startsWith name DATALAKE_TAG_PREFIX = false := by
  unfold isReservedTagPrefix at open_
  rw [show (runtimeCasing toLowerCase).trim tagPrefix = tagPrefix from usable.trimmed] at open_
  rw [Bool.eq_false_iff] at open_ ⊢
  intro reserved
  rw [startsWith_iff] at under reserved
  rcases List.prefix_or_prefix_of_prefix under reserved with shorter | longer
  · have namespace_ : DATALAKE_TAG_PREFIX.toList = "datalake".toList ++ [':'] := by decide
    rw [namespace_, List.prefix_concat_iff] at shorter
    rcases shorter with whole | proper
    · exact open_ (startsWith_iff.mpr ((namespace_.trans whole.symm) ▸ List.prefix_refl _))
    · have last := List.mem_of_getLast? usable.colon
      exact absurd (proper.subset last) (by decide)
  · exact open_ (startsWith_iff.mpr longer)

/-! ### The one predicate -/

/-- Whose file the prefix arm takes. -/
def DataLakeMembershipScope.admits (userId : Option String) : DataLakeMembershipScope → Bool
  | owned _ _ creatorUserId => userId == creatorUserId
  | registry _ _ => true

def underPrefix (casing : Casing) (scope : DataLakeMembershipScope) (file : SignalSourceFile) : Bool :=
  (scope.effectiveTagPrefixArm casing).any fun tagPrefix => file.tagNames.any (startsWith · tagPrefix) && scope.admits file.userId

def carriesMetaTag (scope : DataLakeMembershipScope) (file : SignalSourceFile) : Bool := file.tagNames.contains scope.datalakeTag

def member (casing : Casing) (scope : DataLakeMembershipScope) (file : SignalSourceFile) : Bool :=
  carriesMetaTag scope file || underPrefix casing scope file

variable {casing : Casing} {scope : DataLakeMembershipScope} {file : SignalSourceFile} {tagPrefix : String}

/-! ### The filters -/

theorem prefixArm_selects : (prefixArm tagPrefix).selects file = file.tagNames.any (startsWith · tagPrefix) := by
  have tested : (fun name : String => Pattern.test ("^" ++ escapeRegex tagPrefix).toList name.toList) = (startsWith · tagPrefix) := by
    funext name
    unfold escapeRegex
    simp only [String.toList_append, String.toList_ofList]
    exact Pattern.test_anchored
  rw [prefixArm, FileFilter.selects, TagCondition.met, tested]

theorem metaArm_selects : (metaArm scope).selects file = carriesMetaTag scope file := rfl

theorem anchored {datalakeTag : String} {fileTagPrefix creatorUserId : Option String}
    (arm : (DataLakeMembershipScope.owned datalakeTag fileTagPrefix creatorUserId).effectiveTagPrefixArm casing = some tagPrefix) :
    ∃ creator, creatorUserId = some creator ∧ creator ≠ "" := by
  unfold DataLakeMembershipScope.effectiveTagPrefixArm at arm
  split at arm
  · cases arm
  split at arm
  · cases arm
  · rename_i kept
    cases creatorUserId with
    | none => exact absurd (by simp [DataLakeMembershipScope.unanchored]) kept
    | some creator =>
      refine ⟨creator, rfl, ?_⟩
      rintro rfl
      exact kept (by simp [DataLakeMembershipScope.unanchored, blank])

theorem membershipFilter_selects : (buildDataLakeMembershipFilter casing scope).selects file = member casing scope file := by
  unfold buildDataLakeMembershipFilter member underPrefix
  cases arm : scope.effectiveTagPrefixArm casing with
  | none =>
    rw [Option.any_none, Bool.or_false]
    rfl
  | some tagPrefix =>
    cases scope with
    | registry datalakeTag fileTagPrefix =>
      simp only [FileFilter.selects, FileFilter.anySelects, metaArm_selects, prefixArm_selects, Option.any_some, Bool.or_false,
        DataLakeMembershipScope.admits, Bool.and_true]
    | owned datalakeTag fileTagPrefix creatorUserId =>
      obtain ⟨creator, rfl, _⟩ := anchored arm
      simp only [FileFilter.selects, FileFilter.anySelects, FileFilter.allSelect, metaArm_selects, prefixArm_selects, Option.any_some,
        Bool.or_false, Bool.and_true, DataLakeMembershipScope.admits, Option.getD_some]

/-- The scope and the file as the lifecycle calls hold them. -/
def MembershipScope.owned (scope : MembershipScope) : DataLakeMembershipScope :=
  .owned scope.datalakeTag scope.fileTagPrefix scope.creatorUserId

def FabFile.loaded (file : FabFile) : SignalSourceFile where
  userId := some file.userId
  tags := some (file.tags.map fun tag => { name := some tag })

theorem prefixOnlyFilter_selects : (buildDataLakePrefixOnlyMembershipFilter casing scope).any (·.selects file) =
    (underPrefix casing scope file && !carriesMetaTag scope file) := by
  unfold buildDataLakePrefixOnlyMembershipFilter underPrefix
  cases arm : scope.effectiveTagPrefixArm casing with
  | none => rfl
  | some tagPrefix =>
    cases scope with
    | registry datalakeTag fileTagPrefix =>
      simp only [FileFilter.selects, FileFilter.allSelect, prefixArm_selects, Option.any_some, DataLakeMembershipScope.admits,
        Bool.and_true]
      rfl
    | owned datalakeTag fileTagPrefix creatorUserId =>
      obtain ⟨creator, rfl, named⟩ := anchored arm
      have present : blank (some creator) = false := by simp [blank, named]
      simp only [present, Bool.false_eq_true, if_false, FileFilter.selects, FileFilter.allSelect, prefixArm_selects, Option.any_some,
        DataLakeMembershipScope.admits, Option.getD_some, Bool.and_true, Bool.and_assoc]
      rfl

/-! ### The predicates -/

theorem prefixArmTagNames_some {raw : Option String} {names : List String} (usable : normalizeTagPrefix casing raw = some tagPrefix)
    (open_ : isReservedTagPrefix casing tagPrefix = false) : prefixArmTagNames casing names raw = names.filter (startsWith · tagPrefix) := by
  unfold prefixArmTagNames
  rw [usable]
  dsimp only
  rw [open_]
  rfl

theorem filter_nonempty (names : List String) (p : String → Bool) : (!(names.filter p).isEmpty) = names.any p := by
  rw [Bool.eq_iff_iff]
  simp

/-- What decides that the prefix arm runs, apart from the anchor. -/
theorem arm_some (arm : scope.effectiveTagPrefixArm casing = some tagPrefix) :
    normalizeTagPrefix casing scope.fileTagPrefix = some tagPrefix ∧ isReservedTagPrefix casing tagPrefix = false ∧
      scope.unanchored = false := by
  unfold DataLakeMembershipScope.effectiveTagPrefixArm at arm
  split at arm
  · cases arm
  rename_i usable
  split at arm
  · cases arm
  · rename_i kept
    cases arm
    rw [Bool.not_eq_true, Bool.or_eq_false_iff] at kept
    exact ⟨usable, kept.1, kept.2⟩

theorem arm_none (arm : scope.effectiveTagPrefixArm casing = none) (names : List String) :
    prefixArmTagNames casing names scope.fileTagPrefix = [] ∨ scope.unanchored = true := by
  unfold DataLakeMembershipScope.effectiveTagPrefixArm at arm
  unfold prefixArmTagNames
  cases usable : normalizeTagPrefix casing scope.fileTagPrefix with
  | none => exact Or.inl rfl
  | some tagPrefix =>
    rw [usable] at arm
    dsimp only at arm ⊢
    split at arm
    · rename_i dropped
      rw [Bool.or_eq_true] at dropped
      rcases dropped with reserved | loose
      · exact Or.inl (if_pos reserved)
      · exact Or.inr loose
    · cases arm

/-- The prefix arm over a loaded file: its names under the lake's prefix, where the scope admits its owner. -/
theorem underPrefix_eq : underPrefix casing scope file =
    (!scope.unanchored && scope.admits file.userId && !(prefixArmTagNames casing file.tagNames scope.fileTagPrefix).isEmpty) := by
  unfold underPrefix
  cases arm : scope.effectiveTagPrefixArm casing with
  | none =>
    rcases arm_none arm file.tagNames with nothing | loose
    · rw [nothing, List.isEmpty_nil, Bool.not_true, Bool.and_false]
      rfl
    · rw [loose]
      rfl
  | some tagPrefix =>
    obtain ⟨usable, open_, held⟩ := arm_some arm
    rw [prefixArmTagNames_some usable open_, filter_nonempty, held, Option.any_some, Bool.not_false, Bool.true_and, Bool.and_comm]

theorem satisfies_eq : satisfiesMembershipScope casing scope (some file) = member casing scope file := by
  unfold satisfiesMembershipScope member carriesMetaTag
  dsimp only
  congr 1
  rw [underPrefix_eq]
  cases scope with
  | registry datalakeTag fileTagPrefix => simp [DataLakeMembershipScope.unanchored, DataLakeMembershipScope.admits,
      DataLakeMembershipScope.fileTagPrefix]
  | owned datalakeTag fileTagPrefix creatorUserId =>
    dsimp only [DataLakeMembershipScope.unanchored, DataLakeMembershipScope.admits, DataLakeMembershipScope.fileTagPrefix]
    cases blank creatorUserId with
    | true => rfl
    | false =>
      by_cases own : file.userId = creatorUserId
      · simp [own]
      · simp [own]

variable {lake : MembershipLake}

theorem owner_anchored : (!blank file.userId && file.userId == lake.createdByUserId) =
    (!lake.scope.unanchored && lake.scope.admits file.userId) := by
  show (!blank file.userId && file.userId == lake.createdByUserId) =
    (!blank lake.createdByUserId && file.userId == lake.createdByUserId)
  by_cases own : file.userId = lake.createdByUserId
  · rw [own]
  · rw [beq_false_of_ne own, Bool.and_false, Bool.and_false]

theorem signals_inLake : (lakeMembershipSignals casing lake (some file)).inLake = member casing lake.scope file := by
  show (true && (file.tagNames.contains lake.datalakeTag ||
    !(if (!blank file.userId && file.userId == lake.createdByUserId) = true then
      prefixArmTagNames casing file.tagNames lake.fileTagPrefix else []).isEmpty)) = _
  rw [Bool.true_and, owner_anchored]
  unfold member carriesMetaTag
  rw [underPrefix_eq]
  congr 1
  cases (!lake.scope.unanchored && lake.scope.admits file.userId) with
  | true =>
    rw [if_pos rfl, Bool.true_and]
    rfl
  | false => rfl

/-! ### Pulling the signals -/

theorem mem_tagNames_pull {names : List String} {name : String} :
    name ∈ (file.pull names).tagNames ↔ name ∈ file.tagNames ∧ name ∉ names := by
  unfold SignalSourceFile.pull SignalSourceFile.tagNames
  cases file.tags with
  | none => simp
  | some tags =>
    simp only [Option.map_some, Option.getD_some, List.mem_filterMap, List.mem_filter]
    constructor
    · rintro ⟨tag, ⟨stored, kept⟩, named⟩
      rw [named] at kept
      refine ⟨⟨tag, stored, named⟩, ?_⟩
      simpa using kept
    · rintro ⟨⟨tag, stored, named⟩, other⟩
      refine ⟨tag, ⟨stored, ?_⟩, named⟩
      rw [named]
      simpa using other

theorem pulled_of_under {toLowerCase : String → String} {name : String}
    (arm : lake.scope.effectiveTagPrefixArm (runtimeCasing toLowerCase) = some tagPrefix)
    (own : lake.scope.admits file.userId = true) (stored : name ∈ file.tagNames) (under : startsWith name tagPrefix = true) :
    name ∈ (lakeMembershipSignals (runtimeCasing toLowerCase) lake (some file)).tagsToPull := by
  obtain ⟨usable, open_, held⟩ := arm_some arm
  have owns : (!blank file.userId && file.userId == lake.createdByUserId) = true := by
    rw [owner_anchored, held, own]
    rfl
  have listed : name ∈ prefixArmTagNames (runtimeCasing toLowerCase) file.tagNames lake.fileTagPrefix := by
    show name ∈ prefixArmTagNames (runtimeCasing toLowerCase) file.tagNames lake.scope.fileTagPrefix
    rw [prefixArmTagNames_some usable open_]
    exact List.mem_filter.mpr ⟨stored, under⟩
  have content := content_name (normalizeTagPrefix_usable usable) open_ under
  show name ∈ lake.datalakeTag :: ((if (!blank file.userId && file.userId == lake.createdByUserId) = true then
    prefixArmTagNames (runtimeCasing toLowerCase) file.tagNames lake.fileTagPrefix else []).filter
      fun name => !startsWith name DATALAKE_TAG_PREFIX)
  rw [if_pos owns]
  exact List.mem_cons_of_mem _ (List.mem_filter.mpr ⟨listed, by rw [content]; rfl⟩)

theorem pulled_leaves {toLowerCase : String → String} : member (runtimeCasing toLowerCase) lake.scope
    (file.pull (lakeMembershipSignals (runtimeCasing toLowerCase) lake (some file)).tagsToPull) = false := by
  rw [Bool.eq_false_iff]
  intro still
  rcases Bool.or_eq_true_iff.mp still with tagged | under
  · have carried := List.contains_iff_mem.mp tagged
    exact (mem_tagNames_pull.mp carried).2 List.mem_cons_self
  · unfold underPrefix at under
    cases arm : lake.scope.effectiveTagPrefixArm (runtimeCasing toLowerCase) with
    | none =>
      rw [arm] at under
      cases under
    | some tagPrefix =>
      rw [arm, Option.any_some, Bool.and_eq_true, List.any_eq_true] at under
      obtain ⟨⟨name, left, start⟩, own⟩ := under
      obtain ⟨stored, kept⟩ := mem_tagNames_pull.mp left
      exact kept (pulled_of_under arm own stored start)

/-! ### Attribution -/

def MembershipLake.attributable (lake : MembershipLake) : AttributableLake where
  id := lake.id
  datalakeTag := lake.datalakeTag
  fileTagPrefix := lake.fileTagPrefix
  membership := some lake.scope

theorem lakeIdByTag_get? {lakes : List AttributableLake} {ids : OrderedMap String String} {tag : String}
    (apart : (lakes.map (·.datalakeTag)).Nodup) {id : String} :
    (lakes.foldl (fun ids lake => ids.set lake.datalakeTag lake.id) ids).get? tag = some id ↔
      (∃ lake ∈ lakes, lake.datalakeTag = tag ∧ lake.id = id) ∨ ids.get? tag = some id ∧ ∀ lake ∈ lakes, lake.datalakeTag ≠ tag := by
  induction lakes generalizing ids with
  | nil => simp
  | cons lake rest ih =>
    rw [List.map_cons, List.nodup_cons] at apart
    rw [List.foldl_cons, ih apart.2, OrderedMap.get?_set]
    by_cases own : tag = lake.datalakeTag
    · subst own
      have rest_other : ∀ other ∈ rest, other.datalakeTag ≠ lake.datalakeTag := fun other member same =>
        apart.1 (List.mem_map.mpr ⟨other, member, same⟩)
      rw [if_pos rfl]
      constructor
      · rintro (⟨other, member, same, _⟩ | ⟨found, _⟩)
        · exact absurd same (rest_other other member)
        · exact Or.inl ⟨lake, List.mem_cons_self, rfl, Option.some.inj found⟩
      · rintro (⟨other, member, same, named⟩ | ⟨_, none_tagged⟩)
        · rcases List.mem_cons.mp member with rfl | later
          · exact Or.inr ⟨congrArg some named, rest_other⟩
          · exact absurd same (rest_other other later)
        · exact absurd rfl (none_tagged lake List.mem_cons_self)
    · rw [if_neg own]
      simp only [List.exists_mem_cons_iff, List.forall_mem_cons]
      constructor
      · rintro (found | ⟨found, others⟩)
        · exact Or.inl (Or.inr found)
        · exact Or.inr ⟨found, fun same => own same.symm, others⟩
      · rintro ((⟨same, _⟩ | found) | ⟨found, _, others⟩)
        · exact absurd same.symm own
        · exact Or.inl found
        · exact Or.inr ⟨found, others⟩

/-- Lakes with documents as `createDataLake` mints them: distinct, in the reserved namespace, with ids of their own. -/
structure Minted (configured : List DataLakeConfig) (lakes : List MembershipLake) : Prop where
  ids : (lakes.map (·.id)).Nodup
  tags : (lakes.map (·.datalakeTag)).Nodup
  scopes : (lakes.map MembershipLake.scope).Nodup
  reserved : ∀ lake ∈ lakes, startsWith lake.datalakeTag DATALAKE_TAG_PREFIX = true
  named : ∀ lake ∈ lakes, lake.id ≠ ""
  unlisted : ∀ lake ∈ lakes, lake.id ∉ STATIC_LAKE_IDS configured

/-- The tags as their readers pass them on, nameless entries included. -/
def SignalSourceFile.listedNames (file : SignalSourceFile) : List (Option String) := (file.tags.getD []).map (·.name)

theorem listedNames_filterMap : file.listedNames.filterMap id = file.tagNames := by
  unfold SignalSourceFile.listedNames SignalSourceFile.tagNames
  rw [List.filterMap_map]
  rfl

variable {configured : List DataLakeConfig} {lakes : List MembershipLake}

theorem tagged_iff (tags : (lakes.map (·.datalakeTag)).Nodup)
    (reserved : ∀ lake ∈ lakes, startsWith lake.datalakeTag DATALAKE_TAG_PREFIX = true) {id : String} :
    (∃ tag ∈ datalakeTagsFrom file.tagNames, (lakeIdByTag (lakes.map MembershipLake.attributable)).get? tag = some id) ↔
      ∃ lake ∈ lakes, lake.id = id ∧ carriesMetaTag lake.scope file = true := by
  have apart : ((lakes.map MembershipLake.attributable).map (·.datalakeTag)).Nodup := by
    rw [List.map_map]
    exact tags
  have found : ∀ tag : String, (lakeIdByTag (lakes.map MembershipLake.attributable)).get? tag = some id ↔
      ∃ lake ∈ lakes, lake.datalakeTag = tag ∧ lake.id = id := by
    intro tag
    unfold lakeIdByTag
    rw [lakeIdByTag_get? apart]
    simp [MembershipLake.attributable]
  unfold datalakeTagsFrom
  simp only [found, mem_distinct, List.mem_filter]
  constructor
  · rintro ⟨tag, ⟨stored, _⟩, lake, member, rfl, named⟩
    exact ⟨lake, member, named, List.contains_iff_mem.mpr stored⟩
  · rintro ⟨lake, member, named, carried⟩
    exact ⟨lake.datalakeTag, ⟨List.contains_iff_mem.mp carried, reserved lake member⟩, lake, member, rfl, named⟩

theorem openLakeTagPrefix_none (unlisted : lake.id ∉ STATIC_LAKE_IDS configured) :
    openLakeTagPrefix casing configured lake.attributable = none := if_neg unlisted

theorem ownedArmHolds_iff (owned : blank file.userId = false) :
    ownedArmHolds casing file.tagNames file.userId lake.attributable = underPrefix casing lake.scope file := by
  rw [underPrefix_eq, ← owner_anchored, owned]
  show (!(blank lake.createdByUserId || lake.createdByUserId != file.userId) && _) = _
  by_cases own : file.userId = lake.createdByUserId
  · rw [← own, owned]
    simp
    rfl
  · have other : (lake.createdByUserId != file.userId) = true := bne_iff_ne.mpr (Ne.symm own)
    rw [beq_false_of_ne own, other, Bool.or_true]
    rfl

theorem unowned_nothing (loose : blank file.userId = true) : underPrefix casing lake.scope file = false := by
  rw [underPrefix_eq, ← owner_anchored, loose]
  rfl

theorem mem_attributed (minted : Minted configured lakes) {id : String} :
    id ∈ attributeFileToLakeIds casing configured file.listedNames (lakes.map MembershipLake.attributable) file.userId ↔
      ∃ lake ∈ lakes, lake.id = id ∧ member casing lake.scope file = true := by
  unfold attributeFileToLakeIds
  dsimp only
  rw [listedNames_filterMap, mem_distinct, List.mem_append, List.mem_append]
  have tagged : id ∈ ((datalakeTagsFrom file.tagNames).filterMap (lakeIdByTag (lakes.map MembershipLake.attributable)).get?).filter (· != "") ↔
      ∃ lake ∈ lakes, lake.id = id ∧ carriesMetaTag lake.scope file = true := by
    rw [List.mem_filter, List.mem_filterMap, tagged_iff minted.tags minted.reserved]
    constructor
    · exact fun listed => listed.1
    · rintro ⟨lake, member, rfl, carried⟩
      exact ⟨⟨lake, member, rfl, carried⟩, by simpa using minted.named lake member⟩
  have opened : id ∉ ((lakes.map MembershipLake.attributable).filter fun lake =>
      (openLakeTagPrefix casing configured lake).any fun tagPrefix => file.tagNames.any (startsWith · tagPrefix)).map (·.id) := by
    intro listed
    obtain ⟨attributable, kept, _⟩ := List.mem_map.mp listed
    obtain ⟨stored, holds⟩ := List.mem_filter.mp kept
    obtain ⟨lake, member, rfl⟩ := List.mem_map.mp stored
    rw [openLakeTagPrefix_none (minted.unlisted lake member)] at holds
    cases holds
  have owned : id ∈ (if blank file.userId = true then [] else
      (lakes.map MembershipLake.attributable).filter (ownedArmHolds casing file.tagNames file.userId)).map (·.id) ↔
      ∃ lake ∈ lakes, lake.id = id ∧ underPrefix casing lake.scope file = true := by
    cases anchor : blank file.userId with
    | true => simp [unowned_nothing anchor]
    | false =>
      rw [if_neg (by simp), List.filter_map, List.map_map]
      have same : ownedArmHolds casing file.tagNames file.userId ∘ MembershipLake.attributable =
          fun lake => underPrefix casing lake.scope file := funext fun lake => ownedArmHolds_iff anchor
      rw [same]
      constructor
      · intro listed
        obtain ⟨lake, kept, named⟩ := List.mem_map.mp listed
        exact ⟨lake, (List.mem_filter.mp kept).1, named, (List.mem_filter.mp kept).2⟩
      · rintro ⟨lake, member, named, under⟩
        exact List.mem_map.mpr ⟨lake, List.mem_filter.mpr ⟨member, under⟩, named⟩
  rw [tagged, owned]
  unfold member
  constructor
  · rintro ((⟨lake, stored, named, carried⟩ | listed) | ⟨lake, stored, named, under⟩)
    · exact ⟨lake, stored, named, by rw [carried, Bool.true_or]⟩
    · exact absurd listed opened
    · exact ⟨lake, stored, named, by rw [under, Bool.or_true]⟩
  · rintro ⟨lake, stored, named, is_⟩
    rcases Bool.or_eq_true_iff.mp is_ with carried | under
    · exact Or.inl (Or.inl ⟨lake, stored, named, carried⟩)
    · exact Or.inr ⟨lake, stored, named, under⟩

/-- The attribution of a file with its owner names the lakes whose filter selects it. -/
def AttributesMembers (casing : Casing) (configured : List DataLakeConfig) (lakes : List MembershipLake) (file : SignalSourceFile) : Prop :=
  ∀ id, id ∈ attributeFileToLakeIds casing configured file.listedNames (lakes.map MembershipLake.attributable) file.userId ↔
    ∃ lake ∈ lakes, lake.id = id ∧ (buildDataLakeMembershipFilter casing lake.scope).selects file = true

theorem membership_agrees (toLowerCase : String → String) (configured : List DataLakeConfig) :
    (∀ scope file, (buildDataLakeMembershipFilter (runtimeCasing toLowerCase) scope).selects file =
      satisfiesMembershipScope (runtimeCasing toLowerCase) scope (some file)) ∧
    (∀ lake file, (buildDataLakeMembershipFilter (runtimeCasing toLowerCase) lake.scope).selects file =
        (lakeMembershipSignals (runtimeCasing toLowerCase) lake (some file)).inLake ∧
      (buildDataLakeMembershipFilter (runtimeCasing toLowerCase) lake.scope).selects
        (file.pull (lakeMembershipSignals (runtimeCasing toLowerCase) lake (some file)).tagsToPull) = false) ∧
    (∀ scope file, (buildDataLakeMembershipFilter (runtimeCasing toLowerCase) scope).selects file =
        ((metaArm scope).selects file ||
          (buildDataLakePrefixOnlyMembershipFilter (runtimeCasing toLowerCase) scope).any (·.selects file)) ∧
      ((metaArm scope).selects file &&
        (buildDataLakePrefixOnlyMembershipFilter (runtimeCasing toLowerCase) scope).any (·.selects file)) = false) ∧
    ∀ lakes, Minted configured lakes → ∀ file, AttributesMembers (runtimeCasing toLowerCase) configured lakes file := by
  refine ⟨?_, ?_, ?_, ?_⟩
  · intro scope file
    rw [membershipFilter_selects, satisfies_eq]
  · intro lake file
    rw [membershipFilter_selects, membershipFilter_selects, signals_inLake]
    exact ⟨rfl, pulled_leaves⟩
  · intro scope file
    rw [membershipFilter_selects, prefixOnlyFilter_selects, metaArm_selects]
    unfold member
    cases carriesMetaTag scope file <;> simp
  · intro lakes minted file id
    simp only [membershipFilter_selects]
    exact mem_attributed minted

/-! ### Samples -/

def acmeLake : MembershipLake where
  id := "65f0c0ffee0000000000a001"
  datalakeTag := "datalake:acme"
  fileTagPrefix := some " a.c(me): "
  createdByUserId := some "owner"

def legalLake : MembershipLake where
  id := "65f0c0ffee0000000000a002"
  datalakeTag := "datalake:org:legal"
  fileTagPrefix := some "datalake:legal:"
  createdByUserId := some "owner"

def plan : SignalSourceFile where
  userId := some "owner"
  tags := some [{}, { name := some "a.c(me):" }, { name := some "A.C(ME):plan" }]

theorem acme_attributes_plan : AttributesMembers (runtimeCasing id) [] [acmeLake, legalLake] plan :=
  (membership_agrees id []).2.2.2 [acmeLake, legalLake]
    { ids := by decide
      tags := by decide
      scopes := by decide
      reserved := by decide
      named := by decide
      unlisted := by decide } plan

/-- A tag outside the reserved namespace is no attribution signal. -/
def untaggedLake : MembershipLake where
  id := "65f0c0ffee0000000000a003"
  datalakeTag := "handbook"

/-- An id of the registry opens the lake's prefix to files of any owner. -/
def shadowingLake : MembershipLake where
  id := "opti-knowledge"
  datalakeTag := "datalake:shadow"
  fileTagPrefix := some "acme:"
  createdByUserId := some "owner"

/-- An empty id is dropped from the meta-tag arm. -/
def namelessLake : MembershipLake where
  id := ""
  datalakeTag := "datalake:nameless"

theorem unminted_lakes_differ :
    ¬ AttributesMembers (runtimeCasing id) [] [untaggedLake] { tags := some [{ name := some "handbook" }] } ∧
    ¬ AttributesMembers (runtimeCasing id) [] [shadowingLake] { userId := some "stranger", tags := some [{ name := some "acme:plan" }] } ∧
    ¬ AttributesMembers (runtimeCasing id) [] [namelessLake] { tags := some [{ name := some "datalake:nameless" }] } := by
  refine ⟨?_, ?_, ?_⟩
  · intro attributes
    have listed := (attributes untaggedLake.id).mpr ⟨untaggedLake, by decide, rfl, by decide⟩
    exact absurd listed (by decide)
  · intro attributes
    have listed := (attributes shadowingLake.id).mp (by decide)
    exact absurd listed (by decide)
  · intro attributes
    have listed := (attributes namelessLake.id).mpr ⟨namelessLake, by decide, rfl, by decide⟩
    exact absurd listed (by decide)

end Bike4Mind.DataLakes
