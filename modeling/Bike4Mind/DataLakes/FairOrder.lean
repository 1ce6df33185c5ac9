import Bike4Mind.Collections.RoundRobin
import Bike4Mind.DataLakes.LakeScopes

/-! The files of several lakes in turn, each lake's own in their order. -/

namespace Bike4Mind.DataLakes.FairOrder
open Collections

def UNATTRIBUTED_LAKE_KEY : String := ""

/-- `field && tags.some(tag => tag.startsWith(field))` -/
def carries (names : List String) (field : Option String) : Bool :=
  (orUndefined field).any fun tagPrefix => names.any (startsWith · tagPrefix)

/-- Legacy rows hold tags that are no text. -/
def bucketFor (fileTags : List (Option String)) (scopes : List LakeOrderScope) : String :=
  let names := fileTags.filterMap id
  let metaTags := datalakeTagsFrom names
  match scopes.find? fun scope => (orUndefined scope.datalakeTag).any (· ∈ metaTags) || carries names scope.fileTagPrefix with
  | some scope => scope.key
  | none =>
    match scopes.find? fun scope => carries names scope.registryPrefix with
    | some scope => scope.key
    | none => UNATTRIBUTED_LAKE_KEY

/-- An assignment to a plain object: the `__proto__` setter takes no number. -/
def assigned (record : OrderedMap String Nat) (key : String) (count : Nat) : OrderedMap String Nat :=
  if key = "__proto__" then record else record.set key count

structure LakeFairOrderResult (T : Type) where
  ordered : List T
  filesByLake : OrderedMap String Nat

variable {T : Type} (files : List T) (scopes : List LakeOrderScope) (fileTagsOf : T → List (Option String))

/-- The bucket that a file is charged to. -/
def bucketOf (file : T) : String := bucketFor (fileTagsOf file) scopes

def seeded : OrderedMap String (List T) := scopes.foldl (fun buckets scope => buckets.set scope.key []) ∅

def charged (buckets : OrderedMap String (List T)) (file : T) : OrderedMap String (List T) :=
  let key := bucketOf scopes fileTagsOf file
  match buckets.get? key with
  | some bucket => buckets.set key (bucket ++ [file])
  | none => buckets.set key [file]

def bucketsOf : OrderedMap String (List T) := files.foldl (charged scopes fileTagsOf) (seeded scopes)

def orderFilesFairlyAcrossLakes : LakeFairOrderResult T :=
  let nonEmpty := (bucketsOf files scopes fileTagsOf).entries.filter (!·.2.isEmpty)
  { ordered := roundRobin (nonEmpty.map (·.2))
    filesByLake := nonEmpty.foldl (fun record entry => assigned record entry.1 entry.2.length) ∅ }

/-! ### The buckets -/

variable {files scopes fileTagsOf}

/-- Each bucket holds the files charged to it, in their order. -/
structure Sorted (scopes : List LakeOrderScope) (fileTagsOf : T → List (Option String)) (files : List T)
    (buckets : OrderedMap String (List T)) : Prop where
  held : ∀ key bucket, buckets.get? key = some bucket → bucket = files.filter (bucketOf scopes fileTagsOf · = key)
  named : ∀ file ∈ files, bucketOf scopes fileTagsOf file ∈ buckets.keys

theorem seeded_sorted : Sorted scopes fileTagsOf ([] : List T) (seeded scopes) := by
  refine ⟨?_, fun _ none => by cases none⟩
  have start (scopes : List LakeOrderScope) (buckets : OrderedMap String (List T))
      (empty : ∀ key bucket, buckets.get? key = some bucket → bucket = []) : ∀ key bucket,
        (scopes.foldl (fun buckets scope => buckets.set scope.key []) buckets).get? key = some bucket → bucket = [] := by
    induction scopes generalizing buckets with
    | nil => exact empty
    | cons scope rest ih =>
      apply ih
      intro key bucket found
      rw [OrderedMap.get?_set] at found
      split at found
      · cases found
        rfl
      · exact empty key bucket found
  exact start scopes ∅ fun _ _ found => by cases found

theorem charged_sorted {buckets : OrderedMap String (List T)} (sorted : Sorted scopes fileTagsOf files buckets) (file : T) :
    Sorted scopes fileTagsOf (files ++ [file]) (charged scopes fileTagsOf buckets file) := by
  have placed : charged scopes fileTagsOf buckets file = buckets.set (bucketOf scopes fileTagsOf file)
      ((files ++ [file]).filter (bucketOf scopes fileTagsOf · = bucketOf scopes fileTagsOf file)) := by
    unfold charged
    rw [List.filter_append, List.filter_singleton, decide_eq_true rfl]
    cases before : buckets.get? (bucketOf scopes fileTagsOf file) with
    | some bucket =>
      simp only [before]
      rw [sorted.held _ _ before]
      rfl
    | none =>
      have unseen : files.filter (bucketOf scopes fileTagsOf · = bucketOf scopes fileTagsOf file) = [] := by
        rw [List.filter_eq_nil_iff]
        intro other listed same
        have key := sorted.named other listed
        rw [of_decide_eq_true same] at key
        exact OrderedMap.get?_none_iff.mp before key
      simp only [before]
      rw [unseen]
      rfl
  rw [placed]
  constructor
  · intro key bucket found
    rw [OrderedMap.get?_set] at found
    split at found
    · rename_i same
      cases found
      rw [same]
    · rename_i other
      rw [List.filter_append, ← sorted.held key bucket found, List.filter_singleton, decide_eq_false fun same => other same.symm]
      simp
  · intro other listed
    rw [OrderedMap.mem_keys_set]
    rcases List.mem_append.mp listed with before | last
    · exact Or.inr (sorted.named other before)
    · exact Or.inl (List.mem_singleton.mp last ▸ rfl)

theorem bucketsOf_sorted : Sorted scopes fileTagsOf files (bucketsOf files scopes fileTagsOf) := by
  have run (done rest : List T) (buckets : OrderedMap String (List T)) (sorted : Sorted scopes fileTagsOf done buckets) :
      Sorted scopes fileTagsOf (done ++ rest) (rest.foldl (charged scopes fileTagsOf) buckets) := by
    induction rest generalizing done buckets with
    | nil =>
      rw [List.append_nil]
      exact sorted
    | cons file rest ih =>
      have next := ih (done ++ [file]) _ (charged_sorted sorted file)
      rwa [List.append_assoc] at next
  exact run [] files _ seeded_sorted

/-- The keys of the buckets that hold a file. -/
def filledKeys (files : List T) (scopes : List LakeOrderScope) (fileTagsOf : T → List (Option String)) : List String :=
  ((bucketsOf files scopes fileTagsOf).entries.filter (!·.2.isEmpty)).map (·.1)

theorem filledKeys_nodup : (filledKeys files scopes fileTagsOf).Nodup :=
  (bucketsOf files scopes fileTagsOf).nodup.sublist (List.filter_sublist.map _)

theorem nonEmpty_eq : (bucketsOf files scopes fileTagsOf).entries.filter (!·.2.isEmpty) =
    (filledKeys files scopes fileTagsOf).map fun key => (key, files.filter (bucketOf scopes fileTagsOf · = key)) := by
  unfold filledKeys
  rw [List.map_map]
  refine (List.map_id _).symm.trans (List.map_congr_left fun entry member => ?_)
  obtain ⟨key, bucket⟩ := entry
  have found := OrderedMap.get?_of_mem (List.mem_filter.mp member).1
  rw [Function.comp, ← bucketsOf_sorted.held key bucket found]
  rfl

theorem mem_filledKeys {file : T} (listed : file ∈ files) : bucketOf scopes fileTagsOf file ∈ filledKeys files scopes fileTagsOf := by
  obtain ⟨bucket, found⟩ := OrderedMap.mem_keys_iff.mp (bucketsOf_sorted.named file listed)
  refine List.mem_map.mpr ⟨_, List.mem_filter.mpr ⟨OrderedMap.mem_of_get? found, ?_⟩, rfl⟩
  have mine : file ∈ bucket := by
    rw [bucketsOf_sorted.held _ _ found]
    exact List.mem_filter.mpr ⟨listed, decide_eq_true rfl⟩
  cases bucket with
  | nil => cases mine
  | cons => rfl

theorem ordered_eq : (orderFilesFairlyAcrossLakes files scopes fileTagsOf).ordered =
    roundRobin ((filledKeys files scopes fileTagsOf).map fun key => files.filter (bucketOf scopes fileTagsOf · = key)) := by
  unfold orderFilesFairlyAcrossLakes
  simp only [nonEmpty_eq, List.map_map]
  rfl

theorem owned (key : String) (file : T) (mine : file ∈ files.filter (bucketOf scopes fileTagsOf · = key)) :
    bucketOf scopes fileTagsOf file = key := of_decide_eq_true (List.mem_filter.mp mine).2

theorem ordered_filter (key : String) : (orderFilesFairlyAcrossLakes files scopes fileTagsOf).ordered.filter (bucketOf scopes fileTagsOf · = key) =
    files.filter (bucketOf scopes fileTagsOf · = key) := by
  rw [ordered_eq]
  by_cases filled : key ∈ filledKeys files scopes fileTagsOf
  · exact roundRobin_filter filledKeys_nodup owned filled
  · have unused (file : T) (listed : file ∈ files) : bucketOf scopes fileTagsOf file ≠ key :=
      fun same => filled (same ▸ mem_filledKeys listed)
    have empty : files.filter (bucketOf scopes fileTagsOf · = key) = [] :=
      List.filter_eq_nil_iff.mpr fun file listed => by simpa using unused file listed
    rw [empty, List.filter_eq_nil_iff]
    intro file emitted
    obtain ⟨queue, listed, mine⟩ := mem_roundRobin emitted
    obtain ⟨other, _, rfl⟩ := List.mem_map.mp listed
    simpa using unused file (List.mem_filter.mp mine).1

theorem ordered_perm : (orderFilesFairlyAcrossLakes files scopes fileTagsOf).ordered.Perm files := perm_of_owners ordered_filter

/-- Two buckets with files left have given as many as each other, or one more. -/
theorem ordered_fair {front : List T} (cut : front <+: (orderFilesFairlyAcrossLakes files scopes fileTagsOf).ordered) {left right : String}
    (leftLeft : front.countP (bucketOf scopes fileTagsOf · = left) < files.countP (bucketOf scopes fileTagsOf · = left))
    (rightLeft : front.countP (bucketOf scopes fileTagsOf · = right) < files.countP (bucketOf scopes fileTagsOf · = right)) :
    front.countP (bucketOf scopes fileTagsOf · = left) ≤ front.countP (bucketOf scopes fileTagsOf · = right) + 1 := by
  have filled {key : String} (more : front.countP (bucketOf scopes fileTagsOf · = key) < files.countP (bucketOf scopes fileTagsOf · = key)) :
      key ∈ filledKeys files scopes fileTagsOf := by
    obtain ⟨file, listed, same⟩ := List.countP_pos_iff.mp (Nat.zero_lt_of_lt more)
    exact of_decide_eq_true same ▸ mem_filledKeys listed
  rw [ordered_eq] at cut
  obtain ⟨round, level⟩ := roundRobin_fair filledKeys_nodup owned cut
  simp only [← List.countP_eq_length_filter] at level
  have first := level left (filled leftLeft) leftLeft
  have second := level right (filled rightLeft) rightLeft
  omega

/-- The record lacks a count only under the key that a plain object does not take. -/
theorem filesByLake_get? (key : String) : ((orderFilesFairlyAcrossLakes files scopes fileTagsOf).filesByLake.get? key).getD 0 =
    if key = "__proto__" then 0 else files.countP (bucketOf scopes fileTagsOf · = key) := by
  have run (keys : List String) (count : String → Nat) (record : OrderedMap String Nat) :
      (keys.foldl (fun record key => assigned record key (count key)) record).get? key =
        if key ∈ keys ∧ key ≠ "__proto__" then some (count key) else record.get? key := by
    induction keys generalizing record with
    | nil => simp
    | cons first rest ih =>
      rw [List.foldl_cons, ih]
      have head : (assigned record first (count first)).get? key =
          if key = first ∧ key ≠ "__proto__" then some (count key) else record.get? key := by
        unfold assigned
        by_cases proto : first = "__proto__"
        · rw [if_pos proto, if_neg fun both => both.2 (both.1.trans proto)]
        · rw [if_neg proto, OrderedMap.get?_set]
          by_cases same : key = first
          · simp [same, proto]
          · simp [same]
      rw [head]
      by_cases proto : key = "__proto__"
      · simp [proto]
      · by_cases later : key ∈ rest <;> simp [later, proto]
  unfold orderFilesFairlyAcrossLakes
  simp only [nonEmpty_eq, List.foldl_map]
  rw [run _ fun key => (files.filter (bucketOf scopes fileTagsOf · = key)).length]
  by_cases proto : key = "__proto__"
  · simp [proto]
  · by_cases filled : key ∈ filledKeys files scopes fileTagsOf
    · simp [proto, filled, List.countP_eq_length_filter]
    · have unused : files.countP (bucketOf scopes fileTagsOf · = key) = 0 :=
        List.countP_eq_zero.mpr fun file listed same => filled (of_decide_eq_true same ▸ mem_filledKeys listed)
      simp [proto, filled, unused]

/-! ### The whole ordering -/

/-- The slices of the scopes divide the arms among them. -/
structure ArmsDivided {M : Type} [DecidableEq M] (arm : M → LakeMembership) (sources : LakeOrderScopeSources M) : Prop where
  tags : Partitioned (lakeOrderScopes arm sources) sources.dataLakeTags fun scope => (lakeScopeArms arm scope sources).dataLakeTags
  prefixes : Partitioned (lakeOrderScopes arm sources) sources.dataLakeTagPrefixes
    fun scope => (lakeScopeArms arm scope sources).dataLakeTagPrefixes
  memberships : Partitioned (lakeOrderScopes arm sources) (keyedMemberships arm sources)
    fun scope => (lakeScopeArms arm scope sources).lakeMemberships

structure OrderedFairly (files : List T) (scopes : List LakeOrderScope) (fileTagsOf : T → List (Option String))
    (result : LakeFairOrderResult T) : Prop where
  perm : result.ordered.Perm files
  kept : ∀ key, result.ordered.filter (bucketOf scopes fileTagsOf · = key) = files.filter (bucketOf scopes fileTagsOf · = key)
  level : ∀ front, front <+: result.ordered → ∀ left right,
    front.countP (bucketOf scopes fileTagsOf · = left) < files.countP (bucketOf scopes fileTagsOf · = left) →
    front.countP (bucketOf scopes fileTagsOf · = right) < files.countP (bucketOf scopes fileTagsOf · = right) →
    front.countP (bucketOf scopes fileTagsOf · = left) ≤ front.countP (bucketOf scopes fileTagsOf · = right) + 1
  counted : ∀ key, (result.filesByLake.get? key).getD 0 = files.countP (bucketOf scopes fileTagsOf · = key)

/-- The arms are divided and every file is counted unless two prefixes meet at one lake, a prefix is named as a lake, or a bucket goes by
the key that a plain object does not take. -/
theorem lakes_share_fairly {M : Type} [DecidableEq M] (arm : M → LakeMembership) (sources : LakeOrderScopeSources M) (files : List T)
    (fileTagsOf : T → List (Option String)) :
    ArmsDivided arm sources ∧ OrderedFairly files (lakeOrderScopes arm sources) fileTagsOf
        (orderFilesFairlyAcrossLakes files (lakeOrderScopes arm sources) fileTagsOf) ↔
      (∀ tagPrefix ∈ sources.dataLakeTagPrefixes, LandsOnce arm sources tagPrefix) ∧
        ∀ file ∈ files, bucketOf (lakeOrderScopes arm sources) fileTagsOf file ≠ "__proto__" := by
  constructor
  · rintro ⟨divided, fair⟩
    refine ⟨prefixes_partitioned.mp divided.prefixes, fun file listed proto => ?_⟩
    have counted := fair.counted "__proto__"
    rw [filesByLake_get?, if_pos rfl] at counted
    exact List.countP_eq_zero.mp counted.symm file listed (decide_eq_true proto)
  · rintro ⟨once, plain⟩
    refine ⟨⟨tags_partitioned, prefixes_partitioned.mpr once, memberships_partitioned⟩,
      ⟨ordered_perm, ordered_filter, fun _ cut _ _ => ordered_fair cut, fun key => ?_⟩⟩
    rw [filesByLake_get?]
    split
    · rename_i proto
      refine (List.countP_eq_zero.mpr fun file listed same => ?_).symm
      exact plain file listed ((of_decide_eq_true same).trans proto)
    · rfl

/-- A lake with two registry entries loses the prefix of the second. -/
theorem second_prefix_dropped : ¬∀ sources : LakeOrderScopeSources LakeMembership, ArmsDivided id sources := by
  intro divided
  have twice := divided
    { dataLakeTags := []
      dataLakeTagPrefixes := ["papers:", "notes:"]
      lakeMemberships := []
      lakes := [⟨"datalake:library", some "papers:"⟩, ⟨"datalake:library", some "notes:"⟩] }
  have landed := twice.prefixes.2 "notes:" (by decide)
  revert landed
  decide +kernel

end Bike4Mind.DataLakes.FairOrder
