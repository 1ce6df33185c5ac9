import Bike4Mind.DataLakes.FallbackTags

/-! The fallback tagger restores its invariant, retracts only its own tags and has nothing to do a second time. -/

namespace Bike4Mind.DataLakes.FallbackTags
open Collections

variable {table : Texts.CaseTable} {resolve : String → Option (StampPrefix (tableCasing table))} {tags previousTags : List FileTag}

/-! ### Placeholders -/

theorem placeholder_injective : Function.Injective placeholder := by
  intro left right same
  have chars := congrArg String.toList same
  simp only [placeholder, String.toList_append, List.append_cancel_right_eq] at chars
  exact String.ext chars

theorem namespace_marker : DATALAKE_TAG_PREFIX.toList = "datalake".toList ++ [':'] := by decide

theorem lowered_outside (stampable : StampPrefix (tableCasing table)) {name : String} (under : startsWith name stampable.text = true) :
    startsWith (table.toLowerCase name) DATALAKE_TAG_PREFIX = false := by
  rw [Bool.eq_false_iff]
  intro starts
  have outside := stampable.outside
  unfold reachesMetaNamespace at outside
  rw [show (tableCasing table).trim stampable.text = stampable.text from stampable.usable.trimmed, Bool.eq_false_iff] at outside
  obtain ⟨rest, shape⟩ := startsWith_iff.mp under
  apply outside
  rw [startsWith_iff, namespace_marker] at starts ⊢
  rw [Texts.toLowerCase_toList, ← shape] at starts
  have whole := @Texts.lowered_marker table "datalake".toList _ _ (by decide) (by decide) stampable.usable.colon starts
  show _ <+: (table.toLowerCase stampable.text).toList
  rwa [Texts.toLowerCase_toList]

theorem placeholder_under (tagPrefix : String) : startsWith (placeholder tagPrefix) tagPrefix = true := by
  rw [startsWith_iff, placeholder, String.toList_append]
  exact List.prefix_append _ _

theorem placeholder_content (stampable : StampPrefix (tableCasing table)) :
    isContentName (tableCasing table) stampable.text (placeholder stampable.text) = true := by
  have longer : (placeholder stampable.text).length > stampable.text.length := by
    rw [placeholder, String.length_append]
    have suffix : UNCATEGORIZED_TAG_SUFFIX.length = 13 := by decide
    omega
  have outside := lowered_outside stampable (placeholder_under stampable.text)
  unfold isContentName
  rw [placeholder_under, decide_eq_true longer, show (tableCasing table).toLowerCase = table.toLowerCase from rfl, outside]
  rfl

/-! ### Meta-tags -/

theorem mem_metaTags {casing : Casing} {metaTag : String} : metaTag ∈ metaTags casing tags ↔
    ∃ tag ∈ tags, ∃ name, tag.name = some name ∧ casing.toLowerCase name = metaTag ∧ startsWith metaTag DATALAKE_TAG_PREFIX = true := by
  unfold metaTags extractDataLakeMetaTags names
  simp only [mem_distinct, List.mem_filter, List.mem_map, List.mem_filterMap, id]
  constructor
  · rintro ⟨⟨name, ⟨_, ⟨tag, listed, rfl⟩, named⟩, rfl⟩, marked⟩
    exact ⟨tag, listed, name, named, rfl, marked⟩
  · rintro ⟨tag, listed, name, named, rfl, marked⟩
    exact ⟨⟨name, ⟨_, ⟨tag, listed, rfl⟩, named⟩, rfl⟩, marked⟩

theorem mem_departed {casing : Casing} {metaTag : String} :
    metaTag ∈ departed casing tags previousTags ↔ metaTag ∈ metaTags casing previousTags ∧ metaTag ∉ metaTags casing tags := by
  unfold departed
  rw [List.mem_filter, decide_eq_true_eq]

theorem mem_currentPrefixes {tagPrefix : String} : tagPrefix ∈ currentPrefixes _ resolve tags ↔
    ∃ metaTag ∈ metaTags (tableCasing table) tags, ∃ stampable, resolve metaTag = some stampable ∧ stampable.text = tagPrefix := by
  unfold currentPrefixes
  simp only [mem_distinct, List.mem_filterMap, Option.map_eq_some_iff]

/-- A name is retracted when it is the placeholder of a lake that the file left and of no lake that it is in. -/
theorem mem_retractions {name : String} : name ∈ retractions _ resolve tags previousTags ↔
    ∃ metaTag ∈ departed (tableCasing table) tags previousTags, ∃ stampable, resolve metaTag = some stampable ∧
      stampable.text ∉ currentPrefixes _ resolve tags ∧ placeholder stampable.text = name := by
  unfold retractions
  rw [mem_distinct, List.mem_filterMap]
  refine exists_congr fun metaTag => and_congr_right fun _ => ?_
  cases resolve metaTag with
  | none => simp
  | some stampable =>
    by_cases current : stampable.text ∈ currentPrefixes _ resolve tags
    · simp [current]
    · simp [current]

/-! ### What is added -/

theorem satisfies_iff {casing : Casing} {tagPrefix : String} : satisfiesTagPrefix casing (names tags) tagPrefix = true ↔
    ∃ tag ∈ tags, tag.name.any (isContentName casing tagPrefix) = true := by
  unfold satisfiesTagPrefix names
  rw [List.any_map, List.any_eq_true]
  rfl

theorem satisfies_mono {casing : Casing} {tagPrefix : String} {more : List FileTag} (subset : tags ⊆ more)
    (satisfied : satisfiesTagPrefix casing (names tags) tagPrefix = true) : satisfiesTagPrefix casing (names more) tagPrefix = true := by
  rw [satisfies_iff] at satisfied ⊢
  obtain ⟨tag, listed, content⟩ := satisfied
  exact ⟨tag, subset listed, content⟩

/-- The loop keeps what it has, adds stamps of its prefixes, and leaves each prefix satisfied. -/
theorem added_spec {casing : Casing} {kept : List FileTag} (prefixes : List String) (additions : List FileTag)
    (content : ∀ tagPrefix ∈ prefixes, isContentName casing tagPrefix (placeholder tagPrefix) = true) :
    ∃ more, added casing kept additions prefixes = additions ++ more ∧ (∀ tag ∈ more, ∃ tagPrefix ∈ prefixes, tag = stamp tagPrefix) ∧
      ∀ tagPrefix ∈ prefixes, satisfiesTagPrefix casing (names (kept ++ added casing kept additions prefixes)) tagPrefix = true := by
  induction prefixes generalizing additions with
  | nil => exact ⟨[], by simp [added], fun _ none => (by cases none), fun _ none => (by cases none)⟩
  | cons tagPrefix rest ih =>
    have later := fun tagPrefix listed => content tagPrefix (.tail _ listed)
    rw [added]
    split
    · rename_i satisfied
      obtain ⟨more, same, stamps, each⟩ := ih additions later
      refine ⟨more, same, fun tag listed => ?_, fun other listed => ?_⟩
      · obtain ⟨other, there, rfl⟩ := stamps tag listed
        exact ⟨other, .tail _ there, rfl⟩
      · rcases List.mem_cons.mp listed with rfl | there
        · refine satisfies_mono ?_ satisfied
          rw [same, ← List.append_assoc]
          exact List.subset_append_left _ _
        · exact each other there
    · obtain ⟨more, same, stamps, each⟩ := ih (additions ++ [stamp tagPrefix]) later
      refine ⟨stamp tagPrefix :: more, by rw [same, List.append_assoc]; rfl, fun tag listed => ?_, fun other listed => ?_⟩
      · rcases List.mem_cons.mp listed with rfl | there
        · exact ⟨tagPrefix, .head _, rfl⟩
        · obtain ⟨other, present, rfl⟩ := stamps tag there
          exact ⟨other, .tail _ present, rfl⟩
      · rcases List.mem_cons.mp listed with rfl | there
        · rw [satisfies_iff]
          refine ⟨stamp other, ?_, content other (.head _)⟩
          rw [same]
          simp
        · exact each other there

theorem added_unsatisfied {casing : Casing} {kept : List FileTag} (prefixes : List String) (additions : List FileTag) {tag : FileTag}
    (listed : tag ∈ added casing kept additions prefixes) :
    tag ∈ additions ∨ ∃ tagPrefix ∈ prefixes, tag = stamp tagPrefix ∧ satisfiesTagPrefix casing (names kept) tagPrefix = false := by
  induction prefixes generalizing additions with
  | nil => exact Or.inl listed
  | cons tagPrefix rest ih =>
    rw [added] at listed
    split at listed
    · rcases ih additions listed with before | ⟨other, member, fresh⟩
      · exact Or.inl before
      · exact Or.inr ⟨other, .tail _ member, fresh⟩
    · rename_i unsatisfied
      have open_ : satisfiesTagPrefix casing (names kept) tagPrefix = false := Bool.eq_false_iff.mpr fun satisfied =>
        unsatisfied (satisfies_mono (List.subset_append_left _ _) satisfied)
      rcases ih (additions ++ [stamp tagPrefix]) listed with before | ⟨other, member, fresh⟩
      · rcases List.mem_append.mp before with before | here
        · exact Or.inl before
        · exact Or.inr ⟨tagPrefix, .head _, List.mem_singleton.mp here, open_⟩
      · exact Or.inr ⟨other, .tail _ member, fresh⟩

theorem added_satisfied {casing : Casing} {kept : List FileTag} {prefixes : List String}
    (each : ∀ tagPrefix ∈ prefixes, satisfiesTagPrefix casing (names kept) tagPrefix = true) : added casing kept [] prefixes = [] := by
  induction prefixes with
  | nil => rfl
  | cons tagPrefix rest ih =>
    rw [added, List.append_nil, if_pos (each tagPrefix (.head _))]
    exact ih fun tagPrefix listed => each tagPrefix (.tail _ listed)

/-! ### The reconciled tags -/

def keptTags (resolve : String → Option (StampPrefix (tableCasing table))) (tags previousTags : List FileTag) : List FileTag :=
  tags.filter fun tag => !tag.name.any (· ∈ retractions _ resolve tags previousTags)

def addedTags (resolve : String → Option (StampPrefix (tableCasing table))) (tags previousTags : List FileTag) : List FileTag :=
  added (tableCasing table) (keptTags resolve tags previousTags) [] (Texts.sorted (currentPrefixes _ resolve tags))

theorem reconcile_eq : reconcile _ resolve tags previousTags = keptTags resolve tags previousTags ++ addedTags resolve tags previousTags := by
  have whole (none : retractions _ resolve tags previousTags = []) : keptTags resolve tags previousTags = tags := by
    unfold keptTags
    rw [none, List.filter_eq_self]
    intro tag _
    cases tag.name <;> rfl
  unfold reconcile
  split
  · rename_i idle
    have retracted : retractions _ resolve tags previousTags = [] := by
      unfold retractions
      rw [idle.2]
      rfl
    have current : currentPrefixes _ resolve tags = [] := by
      unfold currentPrefixes
      rw [idle.1]
      rfl
    rw [whole retracted, addedTags, current]
    exact (List.append_nil tags).symm
  · have kept : (if retractions _ resolve tags previousTags ≠ [] then
        tags.filter fun tag => !tag.name.any (· ∈ retractions _ resolve tags previousTags) else tags) = keptTags resolve tags previousTags := by
      split
      · rfl
      · rename_i none
        exact (whole (not_not.mp none)).symm
    dsimp only
    rw [kept]
    split
    · rename_i idle
      show tags = _ ++ addedTags resolve tags previousTags
      rw [addedTags, idle.1, whole idle.2, List.append_nil]
    · rfl

theorem mem_keptTags {tag : FileTag} : tag ∈ keptTags resolve tags previousTags ↔
    tag ∈ tags ∧ ∀ name, tag.name = some name → name ∉ retractions _ resolve tags previousTags := by
  unfold keptTags
  rw [List.mem_filter]
  refine and_congr_right fun _ => ?_
  cases tag.name <;> simp

theorem current_content {tagPrefix : String} (current : tagPrefix ∈ currentPrefixes _ resolve tags) :
    isContentName (tableCasing table) tagPrefix (placeholder tagPrefix) = true := by
  obtain ⟨_, _, stampable, _, rfl⟩ := mem_currentPrefixes.mp current
  exact placeholder_content stampable

theorem addedTags_stamps {tag : FileTag} (listed : tag ∈ addedTags resolve tags previousTags) :
    ∃ tagPrefix ∈ currentPrefixes _ resolve tags, tag = stamp tagPrefix := by
  obtain ⟨more, same, stamps, _⟩ := @added_spec _ (keptTags resolve tags previousTags)
    (Texts.sorted (currentPrefixes _ resolve tags)) [] fun _ listed => current_content (Texts.mem_sorted.mp listed)
  unfold addedTags at listed
  rw [same] at listed
  obtain ⟨tagPrefix, there, shape⟩ := stamps tag listed
  exact ⟨tagPrefix, Texts.mem_sorted.mp there, shape⟩

theorem reconcile_satisfies {tagPrefix : String} (current : tagPrefix ∈ currentPrefixes _ resolve tags) :
    satisfiesTagPrefix (tableCasing table) (names (reconcile _ resolve tags previousTags)) tagPrefix = true := by
  obtain ⟨_, _, _, each⟩ := @added_spec _ (keptTags resolve tags previousTags)
    (Texts.sorted (currentPrefixes _ resolve tags)) [] fun _ listed => current_content (Texts.mem_sorted.mp listed)
  rw [reconcile_eq]
  exact each tagPrefix (Texts.mem_sorted.mpr current)

theorem placeholder_no_metaTag {metaTag : String} (stampable : StampPrefix (tableCasing table))
    (lowered : (tableCasing table).toLowerCase (placeholder stampable.text) = metaTag) : startsWith metaTag DATALAKE_TAG_PREFIX = false :=
  lowered ▸ lowered_outside stampable (placeholder_under stampable.text)

theorem metaTags_reconcile {metaTag : String} :
    metaTag ∈ metaTags (tableCasing table) (reconcile _ resolve tags previousTags) ↔ metaTag ∈ metaTags (tableCasing table) tags := by
  rw [mem_metaTags, mem_metaTags]
  constructor
  · rintro ⟨tag, listed, name, named, lowered, marked⟩
    rw [reconcile_eq] at listed
    rcases List.mem_append.mp listed with kept | fresh
    · exact ⟨tag, (mem_keptTags.mp kept).1, name, named, lowered, marked⟩
    · obtain ⟨tagPrefix, current, rfl⟩ := addedTags_stamps fresh
      obtain ⟨_, _, stampable, _, rfl⟩ := mem_currentPrefixes.mp current
      cases named
      rw [placeholder_no_metaTag stampable lowered] at marked
      cases marked
  · rintro ⟨tag, listed, name, named, lowered, marked⟩
    refine ⟨tag, ?_, name, named, lowered, marked⟩
    rw [reconcile_eq]
    refine List.mem_append_left _ (mem_keptTags.mpr ⟨listed, fun other same retracted => ?_⟩)
    cases named.symm.trans same
    obtain ⟨_, _, stampable, _, _, rfl⟩ := mem_retractions.mp retracted
    rw [placeholder_no_metaTag stampable lowered] at marked
    cases marked

theorem currentPrefixes_reconcile {tagPrefix : String} :
    tagPrefix ∈ currentPrefixes _ resolve (reconcile _ resolve tags previousTags) ↔ tagPrefix ∈ currentPrefixes _ resolve tags := by
  simp only [mem_currentPrefixes, metaTags_reconcile]

theorem reconcile_idle
    (satisfied : ∀ tagPrefix ∈ currentPrefixes _ resolve tags, satisfiesTagPrefix (tableCasing table) (names tags) tagPrefix = true)
    (clear : ∀ tag ∈ tags, ∀ name, tag.name = some name → name ∉ retractions _ resolve tags previousTags) :
    reconcile _ resolve tags previousTags = tags := by
  have kept : keptTags resolve tags previousTags = tags := by
    unfold keptTags
    rw [List.filter_eq_self]
    intro tag listed
    have free := clear tag listed
    cases named : tag.name with
    | none => rfl
    | some name => simpa using free name named
  rw [reconcile_eq, addedTags, kept, added_satisfied fun tagPrefix listed => satisfied tagPrefix (Texts.mem_sorted.mp listed), List.append_nil]

theorem reconcile_again : reconcile _ resolve (reconcile _ resolve tags previousTags) previousTags = reconcile _ resolve tags previousTags := by
  apply reconcile_idle
  · intro tagPrefix current
    exact reconcile_satisfies (currentPrefixes_reconcile.mp current)
  · intro tag listed name named retracted
    obtain ⟨metaTag, left, stampable, resolved, unclaimed, rfl⟩ := mem_retractions.mp retracted
    rw [currentPrefixes_reconcile] at unclaimed
    rw [mem_departed, metaTags_reconcile] at left
    rw [reconcile_eq] at listed
    rcases List.mem_append.mp listed with kept | fresh
    · exact (mem_keptTags.mp kept).2 _ named
        (mem_retractions.mpr ⟨metaTag, mem_departed.mpr left, stampable, resolved, unclaimed, rfl⟩)
    · obtain ⟨tagPrefix, current, rfl⟩ := addedTags_stamps fresh
      exact unclaimed (placeholder_injective (Option.some.inj named) ▸ current)

theorem reconcile_itself : reconcile _ resolve (reconcile _ resolve tags previousTags) (reconcile _ resolve tags previousTags) =
    reconcile _ resolve tags previousTags := by
  apply reconcile_idle
  · intro tagPrefix current
    exact reconcile_satisfies (currentPrefixes_reconcile.mp current)
  · intro _ _ _ _ retracted
    obtain ⟨_, left, _⟩ := mem_retractions.mp retracted
    obtain ⟨present, absent⟩ := mem_departed.mp left
    exact absent present

/-! ### The order of the tags -/

section Order
variable {tags' previousTags' : List FileTag}

theorem metaTags_perm {casing : Casing} (same : tags.Perm tags') {metaTag : String} :
    metaTag ∈ metaTags casing tags ↔ metaTag ∈ metaTags casing tags' := by
  simp only [mem_metaTags, same.mem_iff]

theorem currentPrefixes_perm (same : tags.Perm tags') : (currentPrefixes _ resolve tags).Perm (currentPrefixes _ resolve tags') := by
  refine (List.perm_ext_iff_of_nodup distinct_nodup distinct_nodup).mpr fun tagPrefix => ?_
  rw [← currentPrefixes, ← currentPrefixes]
  simp only [mem_currentPrefixes, metaTags_perm same]

theorem retractions_perm (same : tags.Perm tags') (before : previousTags.Perm previousTags') {name : String} :
    name ∈ retractions _ resolve tags previousTags ↔ name ∈ retractions _ resolve tags' previousTags' := by
  simp only [mem_retractions, mem_departed, mem_currentPrefixes, metaTags_perm same, metaTags_perm before]

theorem added_perm {casing : Casing} {kept kept' : List FileTag} (same : kept.Perm kept') (prefixes : List String) (additions : List FileTag) :
    added casing kept additions prefixes = added casing kept' additions prefixes := by
  induction prefixes generalizing additions with
  | nil => rfl
  | cons tagPrefix rest ih =>
    have satisfied : satisfiesTagPrefix casing (names (kept ++ additions)) tagPrefix =
        satisfiesTagPrefix casing (names (kept' ++ additions)) tagPrefix := by
      rw [Bool.eq_iff_iff]
      exact ⟨satisfies_mono (same.append_right additions).subset, satisfies_mono (same.append_right additions).symm.subset⟩
    rw [added, added, satisfied, ih, ih]

theorem reconcile_perm (same : tags.Perm tags') (before : previousTags.Perm previousTags') :
    (reconcile _ resolve tags previousTags).Perm (reconcile _ resolve tags' previousTags') := by
  have kept : (keptTags resolve tags previousTags).Perm (keptTags resolve tags' previousTags') := by
    have test : (fun tag : FileTag => !tag.name.any (· ∈ retractions _ resolve tags previousTags)) =
        fun tag => !tag.name.any (· ∈ retractions _ resolve tags' previousTags') := by
      funext tag
      simp only [retractions_perm same before]
    unfold keptTags
    rw [test]
    exact same.filter _
  rw [reconcile_eq, reconcile_eq, addedTags, addedTags, Texts.sorted_perm (currentPrefixes_perm same), added_perm kept]
  exact kept.append_right _

end Order

/-- A tag that the reconciler takes back: the placeholder of a lake that the file is in no longer, and of none that it is in. -/
def Retracted (resolve : String → Option (StampPrefix (tableCasing table))) (tags previousTags : List FileTag) (tag : FileTag) : Prop :=
  ∃ metaTag ∈ metaTags (tableCasing table) previousTags, metaTag ∉ metaTags (tableCasing table) tags ∧ ∃ stampable,
    resolve metaTag = some stampable ∧ tag.name = some (placeholder stampable.text) ∧
      ∀ current ∈ metaTags (tableCasing table) tags, ∀ claiming, resolve current = some claiming → claiming.text ≠ stampable.text

/-- What the fallback tagger promises of one call. -/
structure Settled (resolve : String → Option (StampPrefix (tableCasing table))) (tags previousTags result : List FileTag) : Prop where
  covered : ∀ metaTag ∈ metaTags (tableCasing table) tags, ∀ stampable, resolve metaTag = some stampable →
    satisfiesTagPrefix (tableCasing table) (names result) stampable.text = true
  -- Nothing else is lost, and nothing but placeholders of current lakes is new.
  exact_ : ∃ kept added, result = kept ++ added ∧ kept.Sublist tags ∧
    (∀ tag, kept.count tag = tags.count tag ∧ ¬Retracted resolve tags previousTags tag ∨
      kept.count tag = 0 ∧ Retracted resolve tags previousTags tag) ∧
    ∀ tag ∈ added, ∃ metaTag ∈ metaTags (tableCasing table) tags, ∃ stampable, resolve metaTag = some stampable ∧ tag = stamp stampable.text
  again : reconcile _ resolve result previousTags = result
  itself : reconcile _ resolve result result = result
  unordered : ∀ tags' previousTags', tags.Perm tags' → previousTags.Perm previousTags' →
    result.Perm (reconcile _ resolve tags' previousTags')

theorem retracted_iff {tag : FileTag} : Retracted resolve tags previousTags tag ↔
    ∃ name, tag.name = some name ∧ name ∈ retractions _ resolve tags previousTags := by
  simp only [mem_retractions, mem_departed, mem_currentPrefixes]
  constructor
  · rintro ⟨metaTag, before, left, stampable, resolved, named, unclaimed⟩
    refine ⟨_, named, metaTag, ⟨before, left⟩, stampable, resolved, ?_, rfl⟩
    rintro ⟨current, listed, claiming, claimed, same⟩
    exact unclaimed current listed claiming claimed same
  · rintro ⟨_, named, metaTag, ⟨before, left⟩, stampable, resolved, unclaimed, rfl⟩
    exact ⟨metaTag, before, left, stampable, resolved, named, fun current listed claiming claimed same =>
      unclaimed ⟨current, listed, claiming, claimed, same⟩⟩

/-- For every assignment of stampable prefixes and every pair of tag lists, one call settles the tags. -/
theorem fallback_settles (table : Texts.CaseTable) (resolve : String → Option (StampPrefix (tableCasing table)))
    (tags previousTags : List FileTag) : Settled resolve tags previousTags (reconcile _ resolve tags previousTags) where
  covered := fun metaTag listed stampable resolved => reconcile_satisfies (mem_currentPrefixes.mpr ⟨metaTag, listed, stampable, resolved, rfl⟩)
  exact_ := by
    refine ⟨keptTags resolve tags previousTags, addedTags resolve tags previousTags, reconcile_eq, List.filter_sublist, fun tag => ?_, fun tag listed => ?_⟩
    · by_cases gone : Retracted resolve tags previousTags tag
      · refine Or.inr ⟨List.count_eq_zero.mpr fun kept => ?_, gone⟩
        obtain ⟨name, named, retracted⟩ := retracted_iff.mp gone
        exact (mem_keptTags.mp kept).2 name named retracted
      · refine Or.inl ⟨List.count_filter ?_, gone⟩
        rw [retracted_iff, not_exists] at gone
        cases named : tag.name with
        | none => rfl
        | some name => simpa using fun retracted => gone name ⟨named, retracted⟩
    · obtain ⟨tagPrefix, current, rfl⟩ := addedTags_stamps listed
      obtain ⟨metaTag, there, stampable, resolved, rfl⟩ := mem_currentPrefixes.mp current
      exact ⟨metaTag, there, stampable, resolved, rfl⟩
  again := reconcile_again
  itself := reconcile_itself
  unordered := fun _ _ same before => reconcile_perm same before

/-- A file in a lake and in one nested in it gets a placeholder of each. -/
example : reconcile (tableCasing Texts.asciiCase)
    (fun metaTag =>
      if metaTag = "datalake:outer" then some ⟨"a:", ⟨by decide +kernel, by decide⟩, by decide +kernel⟩
      else some ⟨"a:b:", ⟨by decide +kernel, by decide⟩, by decide +kernel⟩)
    [⟨some "datalake:inner", none⟩, ⟨some "DataLake:Outer", none⟩] [] =
      [⟨some "datalake:inner", none⟩, ⟨some "DataLake:Outer", none⟩, stamp "a:", stamp "a:b:"] := by decide +kernel

end Bike4Mind.DataLakes.FallbackTags
