import Bike4Mind.DataLakes.Membership

/-! The scope arms of a search, merged into one bucket for each lake and split back out. -/

namespace Bike4Mind.DataLakes.FairOrder
open Collections

structure LakeOrderScope where
  key : String
  datalakeTag : Option String := none
  fileTagPrefix : Option String := none
  registryPrefix : Option String := none
  deriving DecidableEq

/-- A membership arm with its nullable fields. -/
structure LakeMembership where
  datalakeTag : Option String := none
  fileTagPrefix : Option String := none
  deriving DecidableEq

structure ResolvedLake where
  datalakeTag : String
  fileTagPrefix : Option String := none
  deriving DecidableEq

structure LakeOrderScopeSources (M : Type) where
  dataLakeTags : List String
  dataLakeTagPrefixes : List String
  lakeMemberships : List M
  lakes : List ResolvedLake := []

variable {M : Type} (arm : M → LakeMembership)

/-- `text || undefined` -/
def orUndefined (text : Option String) : Option String := text.filter (· ≠ "")

def prefixKey (tagPrefix : String) : String := "prefix:" ++ tagPrefix

def membershipScopeKey (m : LakeMembership) : Option String :=
  orUndefined m.datalakeTag <|> (orUndefined m.fileTagPrefix).map prefixKey

def upsert (byKey : OrderedMap String LakeOrderScope) (scope : LakeOrderScope) : OrderedMap String LakeOrderScope :=
  match byKey.get? scope.key with
  | none => byKey.set scope.key scope
  | some existing => byKey.set scope.key
      { existing with
        datalakeTag := existing.datalakeTag <|> scope.datalakeTag
        fileTagPrefix := existing.fileTagPrefix <|> scope.fileTagPrefix
        registryPrefix := existing.registryPrefix <|> scope.registryPrefix }

/-- The one resolved lake that carries a registry prefix. -/
def pairedLake (lakes : List ResolvedLake) (tagPrefix : String) : Option ResolvedLake :=
  match lakes.filter (·.fileTagPrefix = some tagPrefix) with
  | [lake] => some lake
  | _ => none

def membershipScope (m : LakeMembership) : Option LakeOrderScope :=
  (membershipScopeKey m).map fun key =>
    { key, datalakeTag := orUndefined m.datalakeTag, fileTagPrefix := orUndefined m.fileTagPrefix }

def prefixScope (lakes : List ResolvedLake) (tagPrefix : String) : LakeOrderScope :=
  match pairedLake lakes tagPrefix with
  | some lake => { key := lake.datalakeTag, datalakeTag := some lake.datalakeTag, registryPrefix := some tagPrefix }
  | none => { key := prefixKey tagPrefix, fileTagPrefix := some tagPrefix }

def scopesByKey (sources : LakeOrderScopeSources M) : OrderedMap String LakeOrderScope :=
  let byKey := sources.dataLakeTags.foldl (fun byKey tag => upsert byKey { key := tag, datalakeTag := some tag }) ∅
  let byKey := sources.lakeMemberships.foldl (fun byKey m => (membershipScope (arm m)).elim byKey (upsert byKey)) byKey
  sources.dataLakeTagPrefixes.foldl (fun byKey tagPrefix => upsert byKey (prefixScope sources.lakes tagPrefix)) byKey

def lakeOrderScopes (sources : LakeOrderScopeSources M) : List LakeOrderScope := (scopesByKey arm sources).values

structure LakeScopeArms (M : Type) where
  dataLakeTags : List String
  dataLakeTagPrefixes : List String
  lakeMemberships : List M

def lakeScopeArms (scope : LakeOrderScope) (sources : LakeOrderScopeSources M) : LakeScopeArms M where
  dataLakeTags := sources.dataLakeTags.filter (· = scope.key)
  dataLakeTagPrefixes := sources.dataLakeTagPrefixes.filter fun tagPrefix =>
    some tagPrefix = scope.registryPrefix ∨ scope.key = prefixKey tagPrefix
  lakeMemberships := sources.lakeMemberships.filter fun m => membershipScopeKey (arm m) = some scope.key

/-! ### What the merged scopes hold -/

/-- The arms of the sources, each as the scope it is merged into. -/
def offers (sources : LakeOrderScopeSources M) : List LakeOrderScope :=
  sources.dataLakeTags.map (fun tag => { key := tag, datalakeTag := some tag }) ++
    (sources.lakeMemberships.filterMap (membershipScope ∘ arm) ++ sources.dataLakeTagPrefixes.map (prefixScope sources.lakes))

theorem scopesByKey_eq (sources : LakeOrderScopeSources M) : scopesByKey arm sources = (offers arm sources).foldl upsert ∅ := by
  have memberships (start : OrderedMap String LakeOrderScope) (ms : List M) :
      ms.foldl (fun byKey m => (membershipScope (arm m)).elim byKey (upsert byKey)) start =
        (ms.filterMap (membershipScope ∘ arm)).foldl upsert start := by
    induction ms generalizing start with
    | nil => rfl
    | cons m ms ih =>
      rw [List.foldl_cons, ih, List.filterMap_cons, Function.comp]
      cases membershipScope (arm m) <;> rfl
  simp only [scopesByKey, offers, List.foldl_append, List.foldl_map, memberships]

section Upserts
variable {byKey : OrderedMap String LakeOrderScope} {scope : LakeOrderScope} {key : String}

/-- Each scope stands under its own key. -/
def Keyed (byKey : OrderedMap String LakeOrderScope) : Prop := ∀ key scope, byKey.get? key = some scope → scope.key = key

theorem upsert_keyed (keyed : Keyed byKey) : Keyed (upsert byKey scope) := by
  intro key held found
  unfold upsert at found
  cases before : byKey.get? scope.key with
  | none =>
    rw [before, OrderedMap.get?_set] at found
    split at found
    · rename_i same
      cases found
      exact same.symm
    · exact keyed key held found
  | some existing =>
    rw [before, OrderedMap.get?_set] at found
    split at found
    · rename_i same
      cases found
      exact (keyed _ _ before).trans same.symm
    · exact keyed key held found

theorem upsert_mem_keys : key ∈ (upsert byKey scope).keys ↔ key ∈ byKey.keys ∨ key = scope.key := by
  unfold upsert
  cases byKey.get? scope.key <;> exact OrderedMap.mem_keys_set.trans or_comm

/-- The registry prefix of the scope under a key. -/
def registryAt (byKey : OrderedMap String LakeOrderScope) (key : String) : Option String :=
  (byKey.get? key).bind (·.registryPrefix)

theorem upsert_registryAt : registryAt (upsert byKey scope) key =
    (registryAt byKey key <|> if key = scope.key then scope.registryPrefix else none) := by
  unfold registryAt upsert
  cases before : byKey.get? scope.key with
  | none =>
    simp only [OrderedMap.get?_set]
    split
    · rename_i same
      rw [same, before]
      rfl
    · simp
  | some existing =>
    simp only [OrderedMap.get?_set]
    split
    · rename_i same
      rw [same, before]
      rfl
    · simp

theorem upserts (added : List LakeOrderScope) (keyed : Keyed byKey) :
    Keyed (added.foldl upsert byKey) ∧ (∀ key, key ∈ (added.foldl upsert byKey).keys ↔ key ∈ byKey.keys ∨ key ∈ added.map (·.key)) ∧
      ∀ key, registryAt (added.foldl upsert byKey) key =
        (registryAt byKey key <|> added.findSome? fun scope => if key = scope.key then scope.registryPrefix else none) := by
  induction added generalizing byKey with
  | nil => exact ⟨keyed, fun key => by simp, fun key => by simp⟩
  | cons scope added ih =>
    obtain ⟨kept, keys, registry⟩ := ih (@upsert_keyed _ scope keyed)
    refine ⟨kept, fun key => ?_, fun key => ?_⟩
    · rw [List.foldl_cons, keys, upsert_mem_keys, List.map_cons, List.mem_cons, or_assoc]
    · rw [List.foldl_cons, registry, upsert_registryAt, List.findSome?_cons]
      cases registryAt byKey key with
      | some held => rfl
      | none =>
        by_cases here : key = scope.key
        · cases scope.registryPrefix <;> simp [here]
        · simp [here]

end Upserts

section Scopes
variable {arm} {sources : LakeOrderScopeSources M} {key tagPrefix : String} {scope : LakeOrderScope}

theorem keyed_empty : Keyed ∅ := fun _ _ found => by cases found

theorem scopesByKey_keyed : Keyed (scopesByKey arm sources) := by
  rw [scopesByKey_eq]
  exact (upserts _ keyed_empty).1

theorem lakeOrderScopes_keys : (lakeOrderScopes arm sources).map (·.key) = (scopesByKey arm sources).keys := by
  unfold lakeOrderScopes OrderedMap.values OrderedMap.keys
  rw [List.map_map]
  exact List.map_congr_left fun entry member => scopesByKey_keyed _ _ (OrderedMap.get?_of_mem member)

theorem lakeOrderScopes_nodup : ((lakeOrderScopes arm sources).map (·.key)).Nodup := by
  rw [lakeOrderScopes_keys]
  exact OrderedMap.keys_nodup

theorem mem_scopeKeys : key ∈ (lakeOrderScopes arm sources).map (·.key) ↔ key ∈ (offers arm sources).map (·.key) := by
  rw [lakeOrderScopes_keys, scopesByKey_eq, (upserts _ keyed_empty).2.1]
  simp

theorem mem_lakeOrderScopes : scope ∈ lakeOrderScopes arm sources ↔ (scopesByKey arm sources).get? scope.key = some scope := by
  unfold lakeOrderScopes OrderedMap.values
  rw [List.mem_map]
  constructor
  · rintro ⟨⟨key, scope⟩, member, rfl⟩
    have found := OrderedMap.get?_of_mem member
    exact (scopesByKey_keyed _ _ found).symm ▸ found
  · intro found
    exact ⟨_, OrderedMap.mem_of_get? found, rfl⟩

theorem prefixScope_registry (lakes : List ResolvedLake) (tagPrefix : String) (key : String) :
    (if key = (prefixScope lakes tagPrefix).key then (prefixScope lakes tagPrefix).registryPrefix else none) =
      if (pairedLake lakes tagPrefix).map (·.datalakeTag) = some key then some tagPrefix else none := by
  unfold prefixScope
  cases pairedLake lakes tagPrefix with
  | none => simp
  | some lake => simp [eq_comm]

/-- The registry prefix of a bucket is the first one paired with its lake. -/
theorem registryPrefix_eq (member : scope ∈ lakeOrderScopes arm sources) : scope.registryPrefix =
    sources.dataLakeTagPrefixes.find? fun tagPrefix => (pairedLake sources.lakes tagPrefix).map (·.datalakeTag) = some scope.key := by
  have held : registryAt (scopesByKey arm sources) scope.key = scope.registryPrefix := by
    unfold registryAt
    rw [mem_lakeOrderScopes.mp member]
    rfl
  have tags : (sources.dataLakeTags.map fun tag => ({ key := tag, datalakeTag := some tag } : LakeOrderScope)).findSome?
      (fun offer => if scope.key = offer.key then offer.registryPrefix else none) = none := by
    simp
  have memberships : (sources.lakeMemberships.filterMap (membershipScope ∘ arm)).findSome?
      (fun offer => if scope.key = offer.key then offer.registryPrefix else none) = none := by
    rw [List.findSome?_eq_none_iff]
    intro offer listed
    obtain ⟨m, _, made⟩ := List.mem_filterMap.mp listed
    obtain ⟨key, _, rfl⟩ := Option.map_eq_some_iff.mp made
    simp
  have prefixes (tagPrefixes : List String) : (tagPrefixes.map (prefixScope sources.lakes)).findSome?
      (fun offer => if scope.key = offer.key then offer.registryPrefix else none) =
        tagPrefixes.find? fun tagPrefix => (pairedLake sources.lakes tagPrefix).map (·.datalakeTag) = some scope.key := by
    induction tagPrefixes with
    | nil => rfl
    | cons tagPrefix rest ih =>
      rw [List.map_cons, List.findSome?_cons, prefixScope_registry, ih, List.find?_cons]
      by_cases paired : (pairedLake sources.lakes tagPrefix).map (·.datalakeTag) = some scope.key
      · rw [if_pos paired, decide_eq_true paired]
      · rw [if_neg paired, decide_eq_false paired]
  rw [← held, scopesByKey_eq, (upserts _ keyed_empty).2.2]
  unfold offers
  rw [List.findSome?_append, List.findSome?_append, tags, memberships, prefixes]
  rfl

/-! ### The slices -/

/-- Each arm is in the slice of exactly one scope, and the slices hold no more than the arms. -/
def Partitioned {α : Type} [DecidableEq α] (scopes : List LakeOrderScope) (arms : List α) (slice : LakeOrderScope → List α) : Prop :=
  (scopes.flatMap slice).Perm arms ∧ ∀ arm ∈ arms, scopes.countP (fun scope => arm ∈ slice scope) = 1

theorem partitioned_filter {α : Type} [DecidableEq α] {scopes : List LakeOrderScope} {arms : List α} {lands : LakeOrderScope → α → Bool}
    (once : ∀ arm ∈ arms, scopes.countP (lands · arm) = 1) : Partitioned scopes arms fun scope => arms.filter (lands scope) := by
  refine ⟨?_, fun arm listed => ?_⟩
  · rw [List.perm_iff_count]
    intro arm
    have each (scopes : List LakeOrderScope) : (scopes.flatMap fun scope => arms.filter (lands scope)).count arm =
        scopes.countP (lands · arm) * arms.count arm := by
      induction scopes with
      | nil => simp
      | cons scope rest ih =>
        rw [List.flatMap_cons, List.count_append, ih, List.countP_cons]
        by_cases landed : lands scope arm
        · rw [List.count_filter landed, if_pos landed, Nat.add_mul, Nat.one_mul, Nat.add_comm]
        · have absent : arm ∉ arms.filter (lands scope) := fun kept => landed (List.mem_filter.mp kept).2
          rw [List.count_eq_zero.mpr absent, if_neg landed, Nat.zero_add, Nat.add_zero]
    rw [each]
    by_cases listed : arm ∈ arms
    · rw [once arm listed, Nat.one_mul]
    · rw [List.count_eq_zero.mpr listed, Nat.mul_zero]
  · refine Eq.trans (List.countP_congr fun scope _ => ?_) (once arm listed)
    simp [listed]

theorem countP_key {scopes : List LakeOrderScope} (distinct : (scopes.map (·.key)).Nodup) (key : String) :
    scopes.countP (·.key = key) = if key ∈ scopes.map (·.key) then 1 else 0 := by
  refine Eq.trans ?_ distinct.count
  rw [List.count, List.countP_map]
  exact List.countP_congr fun scope _ => by simp

theorem tags_partitioned : Partitioned (lakeOrderScopes arm sources) sources.dataLakeTags
    fun scope => (lakeScopeArms arm scope sources).dataLakeTags := by
  apply partitioned_filter
  intro tag listed
  have present : tag ∈ (lakeOrderScopes arm sources).map (·.key) :=
    mem_scopeKeys.mpr (List.mem_map.mpr ⟨_, List.mem_append_left _ (List.mem_map_of_mem listed), rfl⟩)
  have counted := countP_key (@lakeOrderScopes_nodup M arm sources) tag
  rw [if_pos present] at counted
  simpa only [eq_comm] using counted

variable (arm) in
/-- The memberships that name a lake. -/
def keyedMemberships (sources : LakeOrderScopeSources M) : List M :=
  sources.lakeMemberships.filter fun m => (membershipScopeKey (arm m)).isSome

theorem memberships_partitioned [DecidableEq M] : Partitioned (lakeOrderScopes arm sources) (keyedMemberships arm sources)
    fun scope => (lakeScopeArms arm scope sources).lakeMemberships := by
  have slice (scope : LakeOrderScope) : (lakeScopeArms arm scope sources).lakeMemberships =
      (keyedMemberships arm sources).filter fun m => membershipScopeKey (arm m) = some scope.key := by
    unfold lakeScopeArms keyedMemberships
    rw [List.filter_filter]
    apply List.filter_congr
    intro m _
    cases membershipScopeKey (arm m) <;> simp
  simp only [slice]
  apply partitioned_filter
  intro m listed
  obtain ⟨listed, keyed⟩ := List.mem_filter.mp listed
  obtain ⟨key, found⟩ := Option.isSome_iff_exists.mp keyed
  have present : key ∈ (lakeOrderScopes arm sources).map (·.key) := by
    have made : membershipScope (arm m) = some ⟨key, orUndefined (arm m).datalakeTag, orUndefined (arm m).fileTagPrefix, none⟩ := by
      unfold membershipScope
      rw [found]
      rfl
    have offered : _ ∈ sources.lakeMemberships.filterMap (membershipScope ∘ arm) := List.mem_filterMap.mpr ⟨m, listed, made⟩
    exact mem_scopeKeys.mpr (List.mem_map.mpr ⟨_, List.mem_append_right _ (List.mem_append_left _ offered), rfl⟩)
  have counted := countP_key (@lakeOrderScopes_nodup M arm sources) key
  rw [if_pos present] at counted
  simpa only [found, Option.some.injEq, eq_comm] using counted

/-- The lake tag under which a registry prefix is merged. -/
def pairedTag (sources : LakeOrderScopeSources M) (tagPrefix : String) : Option String :=
  (pairedLake sources.lakes tagPrefix).map (·.datalakeTag)

variable (arm) in
/-- A prefix that is paired with a lake is the first one of that lake, or else another arm goes by its `prefix:` key, and not both. -/
def LandsOnce (sources : LakeOrderScopeSources M) (tagPrefix : String) : Prop :=
  ∀ tag, pairedTag sources tagPrefix = some tag → tag ≠ prefixKey tagPrefix →
    (sources.dataLakeTagPrefixes.find? (pairedTag sources · = some tag) = some tagPrefix ↔
      prefixKey tagPrefix ∉ (offers arm sources).map (·.key))

theorem countP_disjoint {scopes : List LakeOrderScope} {left right : LakeOrderScope → Prop} [DecidablePred left] [DecidablePred right]
    (apart : ∀ scope, left scope → ¬right scope) :
    scopes.countP (fun scope => left scope ∨ right scope) = scopes.countP left + scopes.countP right := by
  induction scopes with
  | nil => rfl
  | cons scope rest ih =>
    have here := apart scope
    simp only [List.countP_cons, ih]
    by_cases first : left scope
    · simp [first, here first]
      omega
    · by_cases second : right scope
      · simp [first, second]
        omega
      · simp [first, second]

theorem prefix_lands (listed : tagPrefix ∈ sources.dataLakeTagPrefixes) :
    (lakeOrderScopes arm sources).countP (fun scope => some tagPrefix = scope.registryPrefix ∨ scope.key = prefixKey tagPrefix) = 1 ↔
      LandsOnce arm sources tagPrefix := by
  have offered : (prefixScope sources.lakes tagPrefix).key ∈ (lakeOrderScopes arm sources).map (·.key) :=
    mem_scopeKeys.mpr (List.mem_map.mpr ⟨_, List.mem_append_right _ (List.mem_append_right _ (List.mem_map_of_mem listed)), rfl⟩)
  have counted := countP_key (@lakeOrderScopes_nodup M arm sources)
  have registry {scope : LakeOrderScope} (member : scope ∈ lakeOrderScopes arm sources) : some tagPrefix = scope.registryPrefix ↔
      pairedTag sources tagPrefix = some scope.key ∧
        sources.dataLakeTagPrefixes.find? (pairedTag sources · = some scope.key) = some tagPrefix := by
    rw [registryPrefix_eq member]
    constructor
    · intro found
      have paired := List.find?_some found.symm
      exact ⟨by simpa [pairedTag] using paired, found.symm⟩
    · exact fun found => found.2.symm
  cases paired : pairedTag sources tagPrefix with
  | none =>
    have key : (prefixScope sources.lakes tagPrefix).key = prefixKey tagPrefix := by
      unfold prefixScope
      rw [Option.map_eq_none_iff.mp paired]
    rw [key] at offered
    have alone : (lakeOrderScopes arm sources).countP (fun scope => some tagPrefix = scope.registryPrefix ∨ scope.key = prefixKey tagPrefix) = 1 := by
      refine Eq.trans (List.countP_congr fun scope member => ?_) ((counted (prefixKey tagPrefix)).trans (if_pos offered))
      simp [registry member, paired]
    refine ⟨fun _ tag other => ?_, fun _ => alone⟩
    rw [paired] at other
    cases other
  | some tag =>
    have key : (prefixScope sources.lakes tagPrefix).key = tag := by
      obtain ⟨lake, found, rfl⟩ := Option.map_eq_some_iff.mp paired
      unfold prefixScope
      rw [found]
    rw [key] at offered
    by_cases own : tag = prefixKey tagPrefix
    · have alone : (lakeOrderScopes arm sources).countP
          (fun scope => some tagPrefix = scope.registryPrefix ∨ scope.key = prefixKey tagPrefix) = 1 := by
        refine Eq.trans (List.countP_congr fun scope member => ?_) ((counted tag).trans (if_pos offered))
        have named : tag = scope.key ↔ scope.key = prefixKey tagPrefix := by rw [← own, eq_comm]
        simp only [decide_eq_true_eq, registry member, paired, Option.some.injEq]
        rw [← own]
        exact ⟨fun either => either.elim (fun first => first.1.symm) id, Or.inr⟩
      refine ⟨fun _ other same apart => ?_, fun _ => alone⟩
      rw [paired] at same
      cases same
      exact (apart own).elim
    · have split : (lakeOrderScopes arm sources).countP
          (fun scope => some tagPrefix = scope.registryPrefix ∨ scope.key = prefixKey tagPrefix) =
            (if sources.dataLakeTagPrefixes.find? (pairedTag sources · = some tag) = some tagPrefix then 1 else 0) +
              if prefixKey tagPrefix ∈ (offers arm sources).map (·.key) then 1 else 0 := by
        rw [← if_congr mem_scopeKeys rfl rfl, ← counted (prefixKey tagPrefix)]
        have first : (lakeOrderScopes arm sources).countP (fun scope => scope.key = tag ∧
            sources.dataLakeTagPrefixes.find? (pairedTag sources · = some tag) = some tagPrefix) =
              if sources.dataLakeTagPrefixes.find? (pairedTag sources · = some tag) = some tagPrefix then 1 else 0 := by
          split
          · rename_i found
            refine Eq.trans (List.countP_congr fun scope _ => ?_) ((counted tag).trans (if_pos offered))
            simp [found]
          · rename_i missing
            exact List.countP_eq_zero.mpr fun scope _ held => missing (of_decide_eq_true held).2
        rw [← first, ← countP_disjoint fun scope held same => own (held.1.symm.trans same)]
        apply List.countP_congr
        intro scope member
        simp only [decide_eq_true_eq, registry member, paired, Option.some.injEq]
        constructor
        · rintro (⟨rfl, found⟩ | same)
          · exact Or.inl ⟨rfl, found⟩
          · exact Or.inr same
        · rintro (⟨rfl, found⟩ | same)
          · exact Or.inl ⟨rfl, found⟩
          · exact Or.inr same
      have lands : LandsOnce arm sources tagPrefix ↔ (sources.dataLakeTagPrefixes.find? (pairedTag sources · = some tag) = some tagPrefix ↔
          prefixKey tagPrefix ∉ (offers arm sources).map (·.key)) := by
        refine ⟨fun once => once tag paired own, fun once other same _ => ?_⟩
        rw [paired] at same
        cases same
        exact once
      rw [split, lands]
      by_cases found : sources.dataLakeTagPrefixes.find? (pairedTag sources · = some tag) = some tagPrefix
      · by_cases named : prefixKey tagPrefix ∈ (offers arm sources).map (·.key) <;> simp only [found, named] <;> simp
      · by_cases named : prefixKey tagPrefix ∈ (offers arm sources).map (·.key) <;> simp only [found, named] <;> simp

theorem prefixes_partitioned : Partitioned (lakeOrderScopes arm sources) sources.dataLakeTagPrefixes
    (fun scope => (lakeScopeArms arm scope sources).dataLakeTagPrefixes) ↔
      ∀ tagPrefix ∈ sources.dataLakeTagPrefixes, LandsOnce arm sources tagPrefix := by
  constructor
  · intro parts tagPrefix listed
    refine (prefix_lands listed).mp (Eq.trans (List.countP_congr fun scope _ => ?_) (parts.2 tagPrefix listed))
    simp [lakeScopeArms, listed]
  · intro once
    apply partitioned_filter
    intro tagPrefix listed
    exact (prefix_lands listed).mpr (once tagPrefix listed)

end Scopes

end Bike4Mind.DataLakes.FairOrder
