import Bike4Mind.DataLakes.SetTagsRuns

/-! Setting a file's tags under one lake replaces what it may and nothing else. -/

namespace Bike4Mind.DataLakes
open Collections Concurrency

/-! ### The diff of a checked request -/

section Diff
variable {casing : Casing} {lake : TagLake} {file : LakeFile} {tagPrefix name : String} {desired : List String}

theorem tagDiff_toRemove : (tagDiff casing lake file tagPrefix desired).toRemove = removedNames casing lake file tagPrefix desired := rfl

theorem tagDiff_retained : (tagDiff casing lake file tagPrefix desired).retained =
    (currentUnderPrefix casing file tagPrefix).filter fun name =>
      !desired.contains name && !(removedNames casing lake file tagPrefix desired).contains name := by
  unfold tagDiff
  rfl

/-- What a validated request asks for. -/
structure Requested (casing : Casing) (tagPrefix : String) (desired : List String) : Prop where
  under : ∀ name ∈ desired, startsWith name tagPrefix = true
  longer : ∀ name ∈ desired, name ≠ tagPrefix
  outside : ∀ name ∈ desired, startsWith (casing.toLowerCase name) DATALAKE_TAG_PREFIX = false

theorem validateName_ok (valid : validateName casing tagPrefix name = .ok ()) :
    startsWith (casing.toLowerCase name) DATALAKE_TAG_PREFIX = false ∧ startsWith name tagPrefix = true ∧ name ≠ tagPrefix := by
  unfold validateName at valid
  split at valid
  · cases valid
  · rename_i outside
    split at valid
    · cases valid
    · rename_i under
      split at valid
      · cases valid
      · rename_i longer
        exact ⟨Bool.eq_false_iff.mpr outside, by simpa using under, longer⟩

theorem requested_of_valid {requestedTags : List String} (valid : ∀ name ∈ requestedTags, validateName casing tagPrefix name = .ok ()) :
    Requested casing tagPrefix (distinct requestedTags) where
  under name member := (validateName_ok (valid name (mem_distinct.mp member))).2.1
  longer name member := (validateName_ok (valid name (mem_distinct.mp member))).2.2
  outside name member := (validateName_ok (valid name (mem_distinct.mp member))).1

section Usable
variable {table : Texts.CaseTable} (stampable : StampPrefix (tableCasing table))

theorem stampable_open : isReservedTagPrefix (tableCasing table) stampable.text = false := by
  have outside := @FallbackTags.lowered_outside table stampable stampable.text (startsWith_iff.mpr (List.prefix_refl _))
  unfold isReservedTagPrefix
  rw [show (tableCasing table).trim stampable.text = stampable.text from stampable.usable.trimmed]
  rw [Bool.eq_false_iff] at outside ⊢
  intro reserved
  apply outside
  rw [startsWith_iff] at reserved ⊢
  rw [Texts.toLowerCase_toList]
  have small : DATALAKE_TAG_PREFIX.toList.all (fun c => decide (c.toNat < 128 ∧ c.toLower = c ∧ c ≠ 'Σ')) = true := by decide
  exact Texts.starts_lowered table (by decide) (fun c among => of_decide_eq_true (List.all_eq_true.mp small c among)) reserved

theorem usable_normalized : normalizeTagPrefix (tableCasing table) (some stampable.text) = some stampable.text := by
  have trimmed : (tableCasing table).trim stampable.text = stampable.text := stampable.usable.trimmed
  have full : stampable.text ≠ "" := by
    intro empty
    have colon := stampable.usable.colon
    rw [empty] at colon
    cases colon
  unfold normalizeTagPrefix
  rw [Option.map_some, Option.getD_some, trimmed]
  exact if_pos ⟨full, stampable.usable.colon⟩

theorem mem_currentUnderPrefix : name ∈ currentUnderPrefix (tableCasing table) file stampable.text ↔
    name ∈ file.tagNames ∧ startsWith name stampable.text = true := by
  unfold currentUnderPrefix
  rw [prefixArmTagNames_some (usable_normalized stampable) (stampable_open stampable), List.mem_filter, List.mem_filter]
  constructor
  · rintro ⟨both, _⟩
    exact both
  · intro both
    refine ⟨both, ?_⟩
    rw [content_name stampable.usable (stampable_open stampable) both.2]
    rfl

theorem mem_removable (listed : name ∈ removable casing lake file) : file.userId = some lake.createdByUserId := by
  unfold removable lakeMembershipSignals at listed
  dsimp only at listed
  cases owns : (!blank file.userId && file.userId == some lake.createdByUserId) with
  | true => exact eq_of_beq ((Bool.and_eq_true _ _).mp owns).2
  | false =>
    rw [show (!blank ((some file.toSignalSourceFile).bind (·.userId)) &&
      (some file.toSignalSourceFile).bind (·.userId) == lake.membership.createdByUserId) = false from owns] at listed
    exact absurd listed List.not_mem_nil

theorem mem_removedNames (member : name ∈ removedNames (tableCasing table) lake file stampable.text desired) :
    name ∈ file.tagNames ∧ startsWith name stampable.text = true ∧ name ∉ desired ∧
      (name ∈ removable (tableCasing table) lake file ∨ name = placeholder stampable.text ∧ desired ≠ []) := by
  have inside : name ∈ distinct (((currentUnderPrefix (tableCasing table) file stampable.text).filter fun name =>
      !desired.contains name && (removable (tableCasing table) lake file).contains name) ++
        sweptPlaceholder file stampable.text desired) := by
    unfold removedNames at member
    dsimp only at member
    split at member
    · exact (List.mem_filter.mp member).1
    · exact member
  rw [mem_distinct, List.mem_append] at inside
  rcases inside with current | swept
  · obtain ⟨current, both⟩ := List.mem_filter.mp current
    obtain ⟨here, under⟩ := (mem_currentUnderPrefix stampable).mp current
    rw [Bool.and_eq_true, Bool.not_eq_true', List.contains_iff_mem] at both
    exact ⟨here, under, by simpa using both.1, Or.inl both.2⟩
  · unfold sweptPlaceholder at swept
    split at swept
    · rename_i sweeps
      rw [Bool.and_eq_true, Bool.and_eq_true, List.contains_iff_mem, decide_eq_true_iff] at sweeps
      obtain rfl := List.mem_singleton.mp swept
      refine ⟨sweeps.1.1, FallbackTags.placeholder_under _, by simpa using sweeps.2, Or.inr ⟨rfl, ?_⟩⟩
      exact List.ne_nil_of_length_pos sweeps.1.2
    · cases swept

variable {requestedTags : List String}

/-- The diff that the checks accept. -/
abbrev diffOf (table : Texts.CaseTable) (lake : TagLake) (file : LakeFile) (tagPrefix : String) (desired : List String) : TagDiff :=
  tagDiff (tableCasing table) lake file tagPrefix desired

theorem mem_toAdd (requested : Requested (tableCasing table) stampable.text desired) :
    name ∈ (diffOf table lake file stampable.text desired).toAdd ↔ name ∈ desired ∧ name ∉ file.tagNames := by
  show name ∈ desired.filter _ ↔ _
  rw [List.mem_filter, Bool.not_eq_true', List.contains_eq_mem, decide_eq_false_iff_not, mem_currentUnderPrefix]
  refine and_congr_right fun member => not_congr ?_
  exact ⟨And.left, fun here => ⟨here, requested.under name member⟩⟩

theorem mem_retained : name ∈ (diffOf table lake file stampable.text desired).retained ↔
    (name ∈ file.tagNames ∧ startsWith name stampable.text = true) ∧ name ∉ desired ∧
      name ∉ (diffOf table lake file stampable.text desired).toRemove := by
  rw [tagDiff_toRemove, tagDiff_retained, List.mem_filter, mem_currentUnderPrefix, Bool.and_eq_true, Bool.not_eq_true', Bool.not_eq_true',
    List.contains_eq_mem, List.contains_eq_mem, decide_eq_false_iff_not, decide_eq_false_iff_not]

theorem removed_current (member : name ∈ (diffOf table lake file stampable.text desired).toRemove) :
    name ∈ file.tagNames ∧ startsWith name stampable.text = true ∧ name ∉ desired :=
  ⟨(mem_removedNames stampable member).1, (mem_removedNames stampable member).2.1, (mem_removedNames stampable member).2.2.1⟩

end Usable

/-! ### The tags once the diff is written -/

section Settled
variable {diff : TagDiff}

def namesOf (tags : List FileTag) : List String := tags.filterMap (·.name)

theorem namesOf_append (a b : List FileTag) : namesOf (a ++ b) = namesOf a ++ namesOf b := List.filterMap_append

theorem namesOf_pushed (strength : ℚ) (names : List String) : namesOf (names.map (pushed strength)) = names := by
  unfold namesOf
  rw [List.filterMap_map]
  exact List.filterMap_some

theorem mem_namesOf_filter {tags : List FileTag} {names : List String} :
    name ∈ namesOf (tags.filter fun tag => !tag.name.any (names.contains ·)) ↔ name ∈ namesOf tags ∧ name ∉ names := by
  unfold namesOf
  rw [List.mem_filterMap, List.mem_filterMap]
  constructor
  · rintro ⟨tag, member, named⟩
    obtain ⟨here, kept⟩ := List.mem_filter.mp member
    rw [named, Option.any_some, Bool.not_eq_true', List.contains_eq_mem, decide_eq_false_iff_not] at kept
    exact ⟨⟨tag, here, named⟩, kept⟩
  · rintro ⟨⟨tag, here, named⟩, kept⟩
    refine ⟨tag, List.mem_filter.mpr ⟨here, ?_⟩, named⟩
    rw [named, Option.any_some, Bool.not_eq_true', List.contains_eq_mem, decide_eq_false_iff_not]
    exact kept

theorem mem_settled : name ∈ namesOf (settledTags file diff) ↔ (name ∈ file.tagNames ∨ name ∈ diff.toAdd) ∧ name ∉ diff.toRemove := by
  unfold settledTags
  rw [mem_namesOf_filter, namesOf_append, namesOf_pushed, List.mem_append, List.mem_filter, mem_distinct, Bool.not_eq_true',
    List.contains_eq_mem, decide_eq_false_iff_not]
  refine and_congr_left fun _ => ?_
  show name ∈ file.tagNames ∨ _ ↔ _
  by_cases here : name ∈ file.tagNames
  · simp [here]
  · simp [here]

theorem mem_resultingTagNames : name ∈ resultingTagNames file diff ↔ name ∈ file.tagNames ∧ name ∉ diff.toRemove ∨ name ∈ diff.toAdd := by
  unfold resultingTagNames
  rw [List.mem_append, List.mem_filter, Bool.not_eq_true', List.contains_eq_mem, decide_eq_false_iff_not]

theorem mem_resultingTags : name ∈ namesOf (resultingTags file diff) ↔ name ∈ file.tagNames ∧ name ∉ diff.toRemove ∨ name ∈ diff.toAdd := by
  have additions : namesOf (diff.toAdd.map (pushed LAKE_CONTENT_TAG_STRENGTH)) = diff.toAdd := namesOf_pushed _ _
  unfold resultingTags
  rw [namesOf_append, List.mem_append]
  show name ∈ namesOf _ ∨ name ∈ namesOf (diff.toAdd.map (pushed LAKE_CONTENT_TAG_STRENGTH)) ↔ _
  rw [additions]
  refine or_congr_left ?_
  unfold namesOf
  rw [tagNames_eq, List.mem_filterMap, List.mem_filterMap]
  constructor
  · rintro ⟨tag, member, named⟩
    obtain ⟨here, kept⟩ := List.mem_filter.mp member
    rw [named, Option.any_some, Bool.not_eq_true', List.contains_eq_mem, decide_eq_false_iff_not] at kept
    exact ⟨⟨tag, here, named⟩, kept⟩
  · rintro ⟨⟨tag, here, named⟩, kept⟩
    refine ⟨tag, List.mem_filter.mpr ⟨here, ?_⟩, named⟩
    rw [named, Option.any_some, Bool.not_eq_true', List.contains_eq_mem, decide_eq_false_iff_not]
    exact kept

end Settled

section Usable
variable {table : Texts.CaseTable} (stampable : StampPrefix (tableCasing table))

theorem settled_under (requested : Requested (tableCasing table) stampable.text desired) (under : startsWith name stampable.text = true) :
    name ∈ namesOf (settledTags file (diffOf table lake file stampable.text desired)) ↔
      name ∈ desired ∨ name ∈ (diffOf table lake file stampable.text desired).retained := by
  rw [mem_settled, mem_toAdd stampable requested, mem_retained stampable]
  constructor
  · rintro ⟨here | added, kept⟩
    · by_cases wanted : name ∈ desired
      · exact Or.inl wanted
      · exact Or.inr ⟨⟨here, under⟩, wanted, kept⟩
    · exact Or.inl added.1
  · rintro (wanted | ⟨⟨here, _⟩, _, kept⟩)
    · refine ⟨?_, fun gone => (removed_current stampable gone).2.2 wanted⟩
      by_cases here : name ∈ file.tagNames
      · exact Or.inl here
      · exact Or.inr ⟨wanted, here⟩
    · exact ⟨Or.inl here, kept⟩

/-- What is asked for, and what is retained beyond the bare prefix, is a category under the prefix. -/
theorem settled_content (requested : Requested (tableCasing table) stampable.text desired)
    (member : name ∈ desired ∨ name ∈ (diffOf table lake file stampable.text desired).retained) (longer : name ≠ stampable.text) :
    isContentName (tableCasing table) stampable.text name = true := by
  have under : startsWith name stampable.text = true := by
    rcases member with wanted | kept
    · exact requested.under name wanted
    · exact ((mem_retained stampable).mp kept).1.2
  have length : name.length > stampable.text.length := by
    have within := startsWith_iff.mp under
    rcases Nat.lt_or_eq_of_le within.length_le with less | same
    · rwa [String.length_toList, String.length_toList] at less
    · exact absurd (String.ext (within.eq_of_length same).symm) longer
  have outside := FallbackTags.lowered_outside stampable under
  unfold isContentName
  rw [under, decide_eq_true length, show (tableCasing table).toLowerCase = table.toLowerCase from rfl, outside]
  rfl

end Usable
end Diff

/-! ### What the tagger mints -/

section Minted
variable {adapters : SetTagsAdapters} {lakes : List TagLake} {tags : List FileTag} {name : String}

theorem kept_all {resolve : String → Option (StampPrefix adapters.casing)} : FallbackTags.keptTags resolve tags [] = tags := by
  unfold FallbackTags.keptTags
  refine List.filter_eq_self.mpr fun tag _ => ?_
  rw [Bool.not_eq_true', Bool.eq_false_iff]
  intro retracted
  obtain ⟨name, _, gone⟩ := (Option.any_eq_true _ _).mp retracted
  obtain ⟨_, left, _⟩ := FallbackTags.mem_retractions.mp (of_decide_eq_true gone)
  obtain ⟨tag, none, _⟩ := FallbackTags.mem_metaTags.mp (FallbackTags.mem_departed.mp left).1
  exact absurd none List.not_mem_nil

/-- A lake whose meta-tag a file carries, in any case, and the prefix it mints under. -/
def Claims (adapters : SetTagsAdapters) (lakes : List TagLake) (tags : List FileTag) (lake : TagLake) (tagPrefix : String) : Prop :=
  lake ∈ lakes ∧ normalizeTagPrefix adapters.casing lake.fileTagPrefix = some tagPrefix ∧
    ∃ carried ∈ namesOf tags, adapters.casing.toLowerCase carried = lake.datalakeTag

theorem mem_mintedNames (minted : name ∈ mintedNames adapters lakes tags) : ∃ (lake : TagLake) (tagPrefix : String),
    Claims adapters lakes tags lake tagPrefix ∧ name = placeholder tagPrefix ∧
      ∀ other ∈ namesOf tags, isContentName adapters.casing tagPrefix other = false := by
  obtain ⟨tag, member, named⟩ := List.mem_filterMap.mp minted
  obtain ⟨reconciled, fresh⟩ := List.mem_filter.mp member
  rw [FallbackTags.reconcile_eq, kept_all] at reconciled
  rcases List.mem_append.mp reconciled with old | added
  · rw [Bool.not_eq_true', List.contains_eq_mem, decide_eq_false_iff_not] at fresh
    exact absurd (List.mem_map.mpr ⟨tag, old, rfl⟩) fresh
  · unfold FallbackTags.addedTags at added
    rw [kept_all] at added
    rcases FallbackTags.added_unsatisfied _ _ added with none | ⟨tagPrefix, listed, rfl, unsatisfied⟩
    · exact absurd none List.not_mem_nil
    · obtain ⟨metaTag, carries, stampable, resolved, rfl⟩ := FallbackTags.mem_currentPrefixes.mp (Texts.mem_sorted.mp listed)
      obtain ⟨lake, found, decided⟩ := Option.bind_eq_some_iff.mp resolved
      obtain ⟨carrier, stored, carried, is, lowered, _⟩ := FallbackTags.mem_metaTags.mp carries
      have tagged : lake.datalakeTag = metaTag := by
        have test := List.find?_some found
        exact eq_of_beq test
      have minted : decideStampPrefix adapters.table adapters.configured lakes lake = .ok stampable := by
        cases decision : decideStampPrefix adapters.table adapters.configured lakes lake with
        | error refusal =>
          rw [decision] at decided
          cases decided
        | ok other =>
          rw [decision] at decided
          cases decided
          rfl
      refine ⟨lake, stampable.text, ⟨List.mem_of_find?_eq_some found, (decideStampPrefix_ok minted).1,
        carried, List.mem_filterMap.mpr ⟨carrier, stored, is⟩, lowered.trans tagged.symm⟩, (Option.some.inj named).symm, ?_⟩
      intro other present
      obtain ⟨holder, held, is⟩ := List.mem_filterMap.mp present
      rw [Bool.eq_false_iff]
      intro content
      have satisfied : satisfiesTagPrefix adapters.casing (FallbackTags.names tags) stampable.text = true :=
        FallbackTags.satisfies_iff.mpr ⟨holder, held, by rw [is]; exact content⟩
      exact absurd (satisfied.symm.trans unsatisfied) (by decide)

end Minted

/-! ### Membership before and after -/

section Arms
variable {casing : Casing} {names more : List String} {raw : Option String} {name : String}

theorem mem_prefixArm : name ∈ prefixArmTagNames casing names raw ↔ ∃ tagPrefix : String,
    normalizeTagPrefix casing raw = some tagPrefix ∧ isReservedTagPrefix casing tagPrefix = false ∧
      name ∈ names ∧ startsWith name tagPrefix = true := by
  unfold prefixArmTagNames
  cases normalizeTagPrefix casing raw with
  | none => simp
  | some tagPrefix =>
    cases isReservedTagPrefix casing tagPrefix with
    | true => simp
    | false => simp

theorem prefixArm_mono (subset : ∀ name ∈ names, name ∈ more) (some : prefixArmTagNames casing names raw ≠ []) :
    prefixArmTagNames casing more raw ≠ [] := by
  obtain ⟨name, member⟩ := List.exists_mem_of_ne_nil _ some
  obtain ⟨tagPrefix, usable, open_, listed, under⟩ := mem_prefixArm.mp member
  exact List.ne_nil_of_mem (mem_prefixArm.mpr ⟨tagPrefix, usable, open_, subset name listed, under⟩)

theorem member_mono {lake : MembershipLake} {before after : SignalSourceFile} (owner : after.userId = before.userId)
    (subset : ∀ name ∈ before.tagNames, name ∈ after.tagNames)
    (stays : satisfiesMembershipScope casing lake.scope (some before) = true) :
    satisfiesMembershipScope casing lake.scope (some after) = true := by
  unfold satisfiesMembershipScope MembershipLake.scope at stays ⊢
  dsimp only at stays ⊢
  rw [Bool.or_eq_true, List.contains_iff_mem] at stays ⊢
  rcases stays with tagged | arm
  · exact Or.inl (subset _ tagged)
  · right
    rw [owner]
    split at arm
    · cases arm
    · rename_i owned
      rw [if_neg owned]
      rw [Bool.not_eq_true', List.isEmpty_eq_false_iff] at arm ⊢
      exact prefixArm_mono subset arm

theorem overlap_of_both {left right : Option String} {p q : String} (usable : normalizeTagPrefix casing left = some p)
    (other : normalizeTagPrefix casing right = some q) (under : startsWith name p = true) (both : startsWith name q = true) :
    tagPrefixesOverlap casing left right = true := by
  unfold tagPrefixesOverlap
  rw [usable, other]
  rw [startsWith_iff] at under both
  dsimp only
  rcases List.prefix_or_prefix_of_prefix under both with shorter | longer
  · rw [startsWith_iff.mpr shorter, Bool.or_true]
  · rw [startsWith_iff.mpr longer, Bool.or_true, Bool.true_or]

/-- Past its own prefix a placeholder has no colon for another prefix to end on. -/
theorem placeholder_prefix {p q : String} (colon : q.toList.getLast? = some ':') (under : startsWith (placeholder p) q = true) :
    startsWith p q = true := by
  rw [startsWith_iff] at under ⊢
  rw [placeholder, String.toList_append] at under
  rcases List.prefix_or_prefix_of_prefix under (List.prefix_append p.toList UNCATEGORIZED_TAG_SUFFIX.toList) with shorter | longer
  · exact shorter
  · obtain ⟨rest, shape⟩ := longer
    rw [← shape] at under colon ⊢
    rw [List.prefix_append_right_inj] at under
    cases last : rest.getLast? with
    | none =>
      rw [List.getLast?_eq_none_iff.mp last, List.append_nil]
    | some c =>
      rw [List.getLast?_append, last, Option.some_or, Option.some_inj] at colon
      exact absurd (under.subset (colon ▸ List.mem_of_getLast? last)) (by decide)

end Arms

/-! ### Other lakes -/

section Others
variable {table : Texts.CaseTable} (stampable : StampPrefix (tableCasing table)) {store : TagStore} {lake other : TagLake} {file : LakeFile}
  {desired : List String}

theorem arm_survives (usable : normalizeTagPrefix (tableCasing table) lake.fileTagPrefix = some stampable.text)
    (alone : findCollidingPrefixLakes (tableCasing table) store.lakes lake = []) (requested : Requested (tableCasing table) stampable.text desired)
    (listed : other ∈ store.lakes) (differs : other.id ≠ lake.id) (owned : some other.createdByUserId = file.userId)
    (before : prefixArmTagNames (tableCasing table) file.tagNames other.fileTagPrefix ≠ []) :
    prefixArmTagNames (tableCasing table) (resultingTagNames file (diffOf table lake file stampable.text desired)) other.fileTagPrefix ≠ [] := by
  obtain ⟨name, member⟩ := List.exists_mem_of_ne_nil _ before
  obtain ⟨q, normal, open_, present, under⟩ := mem_prefixArm.mp member
  by_cases gone : name ∈ (diffOf table lake file stampable.text desired).toRemove
  · obtain ⟨_, mine, _, reach⟩ := mem_removedNames stampable gone
    rcases reach with reach | ⟨rfl, asked⟩
    · -- the creator's own file: the overlap check has seen the other lake
      have creator : other.createdByUserId = lake.createdByUserId := Option.some.inj (owned.trans (mem_removable reach))
      have clash : other ∈ findCollidingPrefixLakes (tableCasing table) store.lakes lake := by
        unfold findCollidingPrefixLakes
        rw [usable, if_neg (by simp)]
        refine List.mem_filter.mpr ⟨List.mem_filter.mpr ⟨listed, ?_⟩, ?_⟩
        · rw [creator, beq_self_eq_true, Bool.true_or]
        · rw [overlap_of_both usable normal mine under, Bool.and_true, bne_iff_ne]
          exact differs
      rw [alone] at clash
      exact absurd clash List.not_mem_nil
    · -- a stranger's file: only the placeholder goes, and what is asked for lies under the other prefix too
      have nested := placeholder_prefix (normalizeTagPrefix_usable normal).colon under
      obtain ⟨wanted, asked⟩ := List.exists_mem_of_ne_nil _ asked
      have deeper : startsWith wanted q = true :=
        startsWith_iff.mpr ((startsWith_iff.mp nested).trans (startsWith_iff.mp (requested.under wanted asked)))
      refine List.ne_nil_of_mem (mem_prefixArm.mpr ⟨q, normal, open_, mem_resultingTagNames.mpr ?_, deeper⟩)
      by_cases already : wanted ∈ file.tagNames
      · exact Or.inl ⟨already, fun removed => (removed_current stampable removed).2.2 asked⟩
      · exact Or.inr ((mem_toAdd stampable requested).mpr ⟨asked, already⟩)
  · exact List.ne_nil_of_mem (mem_prefixArm.mpr ⟨q, normal, open_, mem_resultingTagNames.mpr (Or.inl ⟨present, gone⟩), under⟩)

theorem leaves_empty (here : lake ∈ store.lakes) (usable : normalizeTagPrefix (tableCasing table) lake.fileTagPrefix = some stampable.text)
    (alone : findCollidingPrefixLakes (tableCasing table) store.lakes lake = []) (requested : Requested (tableCasing table) stampable.text desired)
    (stays : satisfiesMembershipScope (tableCasing table) lake.membership.scope
      (some { userId := file.userId, tags := some (resultingTags file (diffOf table lake file stampable.text desired)) }) = true) :
    (findPrefixArmChanges (tableCasing table) store.lakes
      ⟨file.userId, file.tagNames, resultingTagNames file (diffOf table lake file stampable.text desired)⟩).leaves = [] := by
  unfold findPrefixArmChanges
  dsimp only
  rw [List.map_eq_nil_iff, List.filter_eq_nil_iff]
  intro other candidate leaves
  obtain ⟨resolved, apart⟩ := List.mem_filter.mp candidate
  have listed : other ∈ store.lakes := by
    unfold resolveCandidates loadPrefixArmCandidateLakes at resolved
    dsimp only at resolved
    split at resolved
    · split at resolved
      · exact absurd resolved List.not_mem_nil
      · exact (List.mem_filter.mp resolved).1
    · exact absurd resolved List.not_mem_nil
  rw [Bool.and_eq_true, Bool.not_eq_true', List.isEmpty_eq_false_iff, List.isEmpty_iff] at leaves
  unfold armAlone at apart
  rw [Bool.and_eq_true, Bool.not_eq_true', Bool.or_eq_false_iff] at apart
  obtain ⟨owned, _, untagged⟩ := apart
  by_cases same : other.id = lake.id
  · have is : other = lake := List.inj_on_of_nodup_map store.distinct listed here same
    subst is
    unfold satisfiesMembershipScope MembershipLake.scope at stays
    dsimp only at stays
    rw [Bool.or_eq_true, List.contains_iff_mem] at stays
    rcases stays with tagged | arm
    · have carried : other.datalakeTag ∈ resultingTagNames file (diffOf table other file stampable.text desired) :=
        mem_resultingTagNames.mpr (mem_resultingTags.mp tagged)
      rw [List.contains_eq_mem, decide_eq_false_iff_not] at untagged
      exact untagged carried
    · split at arm
      · cases arm
      · rw [Bool.not_eq_true', List.isEmpty_eq_false_iff] at arm
        refine prefixArm_mono (fun name member => ?_) arm leaves.2
        exact mem_resultingTagNames.mpr (mem_resultingTags.mp member)
  · exact arm_survives stampable usable alone requested listed same (eq_of_beq owned) leaves.1 leaves.2

end Others
/-! ### The call -/

/-- A tag that is not under the prefix. -/
def outsidePrefix (tagPrefix : String) (tag : FileTag) : Bool := !tag.name.any (startsWith · tagPrefix)

/-- What an accepted call leaves behind. -/
structure TagsReplaced (adapters : SetTagsAdapters) (requestedTags : List String) (store : TagStore) (lake : TagLake) (tagPrefix : String)
    (file file' : LakeFile) (result : SetTagsResult) : Prop where
  member : satisfiesMembershipScope adapters.casing lake.membership.scope (some file'.toSignalSourceFile) = true
  -- The names under the prefix are those asked for, those retained and those minted; outside it only minted tags are new.
  replaced : ∃ minted : List String,
    (∀ name ∈ minted, ∃ (other : TagLake) (otherPrefix : String), Claims adapters store.lakes file'.storedTags other otherPrefix ∧
      name = placeholder otherPrefix ∧ (otherPrefix = tagPrefix → requestedTags = [] ∧ ∀ kept ∈ result.retained, kept = tagPrefix)) ∧
    (∀ name : String, startsWith name tagPrefix = true →
      (name ∈ file'.tagNames ↔ name ∈ requestedTags ∨ name ∈ result.retained ∨ name ∈ minted)) ∧
    ∃ fresh : List FileTag, file'.storedTags.filter (outsidePrefix tagPrefix) = file.storedTags.filter (outsidePrefix tagPrefix) ++ fresh ∧
      ∀ tag ∈ fresh, ∃ name ∈ minted, tag.name = some name
  added : ∀ name : String, name ∈ result.added ↔ name ∈ requestedTags ∧ name ∉ file.tagNames
  removed : ∀ name : String, name ∈ result.removed ↔
    name ∈ file.tagNames ∧ startsWith name tagPrefix = true ∧ name ∉ requestedTags ∧ name ∉ result.retained
  retained : ∀ name ∈ result.retained, name ∈ file.tagNames ∧ startsWith name tagPrefix = true ∧ name ∉ requestedTags
  disjoint : result.added.Disjoint result.removed ∧ result.added.Disjoint result.retained ∧ result.removed.Disjoint result.retained
  othersKeep : ∀ other ∈ store.lakes, other.id ≠ lake.id → some other.createdByUserId = file.userId →
    prefixArmTagNames adapters.casing file.tagNames other.fileTagPrefix ≠ [] →
    prefixArmTagNames adapters.casing file'.tagNames other.fileTagPrefix ≠ []
  leaves : (findPrefixArmChanges adapters.casing store.lakes ⟨file.userId, file.tagNames, resultingTagNames file
    (tagDiff adapters.casing lake file tagPrefix (distinct requestedTags))⟩).leaves = []
  stranger : file.userId ≠ some lake.createdByUserId → ∀ name ∈ result.removed, name = placeholder tagPrefix

section Call
variable {adapters : SetTagsAdapters} {actor : ManageActor} {dataLakeId fabFileId : String} {requestedTags : List String} {store store' : TagStore}

theorem refused_unchanged {error : LakeError}
    (refused : setDataLakeFileTags adapters actor dataLakeId fabFileId requestedTags store = .error error store') : store' = store := by
  have stats (lake : TagLake) : Returns (recomputeLakeStats adapters lake) := by
    intro s s' e refused
    obtain ⟨_, _, run, _⟩ := @recomputeLakeStats_run adapters s lake
    exact absurd (run.symm.trans refused) (by simp)
  have all (lakes : List TagLake) : Returns (lakes.forM fun lake => do let _ ← recomputeLakeStats adapters lake : Door Unit) := by
    intro s s' e refused
    obtain ⟨_, run, _⟩ := @recomputeAll_run adapters s lakes
    exact absurd (run.symm.trans refused) (by simp)
  unfold setDataLakeFileTags at refused
  rcases run_bind_error.mp refused with early | ⟨⟨lake, tagPrefix⟩, opened, ran, later⟩
  · exact reads_openLake.error _ _ _ early
  · refine Eq.trans ?_ (reads_openLake.ok _ _ _ ran)
    refine refusal_writes_nothing reads_planTags (fun planned => ?_) later
    exact (returns_writeTags _).bind fun _ => (stats _).bind fun _ => (all _).bind fun _ => returns_pure _

theorem returned {result : SetTagsResult}
    (run : setDataLakeFileTags adapters actor dataLakeId fabFileId requestedTags store = .ok result store') :
    ∃ (lake : TagLake) (stampable : StampPrefix adapters.casing) (planned : Planned) (file' : LakeFile) (strength : ℚ),
      lake ∈ store.lakes ∧ decideStampPrefix adapters.table adapters.configured store.lakes lake = .ok stampable ∧
      PlanChecked adapters requestedTags store fabFileId lake stampable.text planned ∧
      store'.files.find? (·.id == fabFileId) = some file' ∧ file'.userId = planned.file.userId ∧
      file'.storedTags = settledTags planned.file planned.diff ++
        ((distinct (mintedNames adapters store.lakes (settledTags planned.file planned.diff))).filter
          (! ((settledTags planned.file planned.diff).filterMap (·.name)).contains ·)).map (pushed strength) ∧
      result.added = planned.diff.toAdd ∧ result.removed = planned.diff.toRemove ∧ result.retained = planned.diff.retained := by
  unfold setDataLakeFileTags at run
  obtain ⟨⟨lake, tagPrefix⟩, s1, opened, run1⟩ := run_bind_ok.mp run
  obtain rfl := reads_openLake.ok _ _ _ opened
  obtain ⟨here, stampable, decided, rfl⟩ := openLake_ok opened
  obtain ⟨planned, s2, plan, run2⟩ := run_bind_ok.mp run1
  obtain rfl := reads_planTags.ok _ _ _ plan
  have checked := planTags_ok plan
  obtain ⟨reconciled, s3, wrote, run3⟩ := run_bind_ok.mp run2
  obtain ⟨s3', file', strength, writes, _, found, owner, tags⟩ := @writeTags_run planned.file adapters s2 fabFileId checked.found planned.diff
  cases writes.symm.trans wrote
  obtain ⟨stats, s4, counted, run4⟩ := run_bind_ok.mp run3
  obtain ⟨stats', s4', counts, _, files4⟩ := @recomputeLakeStats_run adapters s3 lake
  cases counts.symm.trans counted
  obtain ⟨_, s5, recounted, run5⟩ := run_bind_ok.mp run4
  obtain ⟨s5', recounts, _, files5⟩ := @recomputeAll_run adapters s4 (otherLakes planned.changes)
  cases recounts.symm.trans recounted
  obtain ⟨rfl, rfl⟩ := run_pure_ok.mp run5
  refine ⟨lake, stampable, planned, file', strength, here, decided, checked, ?_, owner, tags, rfl, rfl, rfl⟩
  rw [files5, files4]
  exact found

theorem outside_settled {file : LakeFile} {diff : TagDiff} {tagPrefix : String}
    (adds : ∀ name ∈ diff.toAdd, startsWith name tagPrefix = true) (removes : ∀ name ∈ diff.toRemove, startsWith name tagPrefix = true) :
    (settledTags file diff).filter (outsidePrefix tagPrefix) = file.storedTags.filter (outsidePrefix tagPrefix) := by
  have additions : (((distinct diff.toAdd).filter (! file.tagNames.contains ·)).map (pushed LAKE_CONTENT_TAG_STRENGTH)).filter
      (outsidePrefix tagPrefix) = [] := by
    refine List.filter_eq_nil_iff.mpr fun tag member => ?_
    obtain ⟨name, listed, rfl⟩ := List.mem_map.mp member
    have under := adds name (mem_distinct.mp (List.mem_filter.mp listed).1)
    show ¬ (!(some name).any (startsWith · tagPrefix)) = true
    rw [Option.any_some, under]
    decide
  have same : ∀ tag : FileTag, outsidePrefix tagPrefix tag = true → (!tag.name.any (diff.toRemove.contains ·)) = true := by
    intro tag outside
    unfold outsidePrefix at outside
    cases named : tag.name with
    | none => rfl
    | some name =>
      rw [named, Option.any_some, Bool.not_eq_true'] at outside
      rw [Option.any_some, Bool.not_eq_true', List.contains_eq_mem, decide_eq_false_iff_not]
      intro gone
      rw [removes name gone] at outside
      cases outside
  unfold settledTags
  rw [List.filter_filter]
  have tests : (fun tag => outsidePrefix tagPrefix tag && !tag.name.any (diff.toRemove.contains ·)) = outsidePrefix tagPrefix := by
    funext tag
    cases outside : outsidePrefix tagPrefix tag with
    | false => rfl
    | true => rw [same tag outside, Bool.and_true]
  rw [tests, List.filter_append, additions, List.append_nil]

theorem mem_final {file' : LakeFile} {tags : List FileTag} {minted : List String} {strength : ℚ} {name : String}
    (stored : file'.storedTags = tags ++ ((distinct minted).filter (! (tags.filterMap (·.name)).contains ·)).map (pushed strength)) :
    name ∈ file'.tagNames ↔ name ∈ namesOf tags ∨ name ∈ minted := by
  show name ∈ namesOf file'.storedTags ↔ _
  rw [stored, namesOf_append, namesOf_pushed, List.mem_append, List.mem_filter, mem_distinct, Bool.not_eq_true', List.contains_eq_mem,
    decide_eq_false_iff_not]
  by_cases here : name ∈ namesOf tags
  · exact ⟨fun _ => Or.inl here, fun _ => Or.inl here⟩
  · exact or_congr_right ⟨And.left, fun new => ⟨new, here⟩⟩

section Final
variable {stampable : StampPrefix adapters.casing} {lake : TagLake} {file file' : LakeFile} {desired minted : List String} {strength : ℚ}

theorem resulting_settled (requested : Requested adapters.casing stampable.text desired) {name : String}
    (member : name ∈ file.tagNames ∧ name ∉ (diffOf adapters.table lake file stampable.text desired).toRemove ∨
      name ∈ (diffOf adapters.table lake file stampable.text desired).toAdd) :
    name ∈ namesOf (settledTags file (diffOf adapters.table lake file stampable.text desired)) := by
  rw [mem_settled]
  rcases member with ⟨here, kept⟩ | new
  · exact ⟨Or.inl here, kept⟩
  · refine ⟨Or.inr new, fun gone => ?_⟩
    exact (removed_current stampable gone).2.2 ((mem_toAdd stampable requested).mp new).1

theorem minted_claims (requested : Requested adapters.casing stampable.text desired) (lakes : List TagLake) {name : String}
    (minted : name ∈ mintedNames adapters lakes (settledTags file (diffOf adapters.table lake file stampable.text desired))) :
    ∃ (other : TagLake) (otherPrefix : String),
      Claims adapters lakes (settledTags file (diffOf adapters.table lake file stampable.text desired)) other otherPrefix ∧
      name = placeholder otherPrefix ∧ (otherPrefix = stampable.text →
        desired = [] ∧ ∀ kept ∈ (diffOf adapters.table lake file stampable.text desired).retained, kept = stampable.text) := by
  obtain ⟨other, otherPrefix, claims, is, uncovered⟩ := mem_mintedNames minted
  refine ⟨other, otherPrefix, claims, is, ?_⟩
  rintro rfl
  have bare : ∀ kept, kept ∈ desired ∨ kept ∈ (diffOf adapters.table lake file stampable.text desired).retained → kept = stampable.text := by
    intro kept member
    by_contra longer
    have under : startsWith kept stampable.text = true := by
      rcases member with wanted | kept
      · exact requested.under _ wanted
      · exact ((mem_retained stampable).mp kept).1.2
    have content := settled_content stampable requested member longer
    exact absurd (content.symm.trans (uncovered kept ((settled_under stampable requested under).mpr member))) (by decide)
  refine ⟨List.eq_nil_iff_forall_not_mem.mpr fun wanted member => ?_, fun kept member => bare kept (Or.inr member)⟩
  exact requested.longer wanted member (bare wanted (Or.inl member))

end Final

end Call

/-- A registry without static lakes, and no grants. -/
def plainAdapters : SetTagsAdapters where
  table := Texts.asciiCase
  configured := []
  grants := []
  now := 0
  assertLakeAdmission := fun _ _ => none
  computeDataLakeStats := fun _ _ => ⟨0, 0, 0⟩

/-- The file of another user carries the lake's meta-tag and the bare prefix as a name. -/
def bareStore : TagStore where
  lakes := [{ id := ⟨"aaaaaaaaaaaaaaaaaaaaaaaa", by decide +kernel⟩, createdByUserId := "ann", datalakeTag := "datalake:a", fileTagPrefix := some "a:", name := "A" }]
  files := [{ id := "f1", userId := some "bob", tags := some [⟨some "datalake:a", none⟩, ⟨some "a:", none⟩] }]
  distinct := by decide

end Bike4Mind.DataLakes
