import Bike4Mind.Concurrency.Refusals
import Bike4Mind.DataLakes.SetFileTags

/-! What a run of the tag door checks before it writes, and what its writes leave on the file. -/

namespace Bike4Mind.DataLakes
open Collections Concurrency

/-! ### Checks -/

section Checks
variable {α : Type} {s s' : TagStore} {a : α} {error : LakeError}

theorem orThrow_ok {found : Option α} : orThrow found error s = .ok a s' ↔ found = some a ∧ s = s' := by
  cases found with
  | none =>
    constructor
    · intro refused
      cases refused
    · rintro ⟨none, _⟩
      cases none
  | some b =>
    show (pure b : Door α) s = .ok a s' ↔ _
    rw [run_pure_ok, Option.some_inj]

theorem reads_orThrow {found : Option α} : Concurrency.Reads (orThrow found error) := by
  cases found with
  | none => exact reads_throw error
  | some b => exact reads_pure b

theorem unlessThrow_ok {fine : Bool} {u : Unit} : unlessThrow fine error s = .ok u s' ↔ fine = true ∧ s = s' := by
  cases fine with
  | false =>
    constructor
    · intro refused
      cases refused
    · rintro ⟨none, _⟩
      cases none
  | true =>
    show (pure () : Door Unit) s = .ok u s' ↔ _
    rw [run_pure_ok]
    exact and_congr_left fun _ => ⟨fun _ => rfl, fun _ => rfl⟩

theorem reads_unlessThrow {fine : Bool} : Concurrency.Reads (unlessThrow fine error) := by
  cases fine with
  | false => exact reads_throw error
  | true => exact reads_pure ()

theorem liftExcept_ok {value : Except LakeError α} : liftExcept value s = .ok a s' ↔ value = .ok a ∧ s = s' := by
  cases value with
  | error e =>
    constructor
    · intro refused
      cases refused
    · rintro ⟨none, _⟩
      cases none
  | ok b =>
    show (pure b : Door α) s = .ok a s' ↔ _
    rw [run_pure_ok, Except.ok.injEq]

theorem reads_liftExcept {value : Except LakeError α} : Concurrency.Reads (liftExcept value) := by
  cases value with
  | error e => exact reads_throw e
  | ok b => exact reads_pure b

theorem findLake_ok {dataLakeId : String} {found : Option TagLake} :
    findLake dataLakeId s = .ok found s' ↔ s.lakes.find? (fun lake => lake.id.val == dataLakeId) = found ∧ s = s' := by
  show EStateM.Result.ok _ s = .ok found s' ↔ _
  rw [EStateM.Result.ok.injEq]

theorem findFile_ok {fabFileId : String} {found : Option LakeFile} :
    findFile fabFileId s = .ok found s' ↔ s.files.find? (fun file => file.id == fabFileId) = found ∧ s = s' := by
  show EStateM.Result.ok _ s = .ok found s' ↔ _
  rw [EStateM.Result.ok.injEq]

theorem reads_findLake (dataLakeId : String) : Concurrency.Reads (findLake dataLakeId) := reads_get.bind fun _ => reads_pure _

theorem reads_findFile (fabFileId : String) : Concurrency.Reads (findFile fabFileId) := reads_get.bind fun _ => reads_pure _

end Checks

section Door
variable {adapters : SetTagsAdapters} {actor : ManageActor} {dataLakeId fabFileId : String} {requestedTags : List String}

theorem reads_openLake : Concurrency.Reads (openLake adapters actor dataLakeId) :=
  (reads_findLake dataLakeId).bind fun _ => reads_orThrow.bind fun _ => reads_unlessThrow.bind fun _ => reads_unlessThrow.bind fun _ =>
    reads_get.bind fun _ => reads_liftExcept.bind fun _ => reads_pure _

theorem reads_planTags {lake : TagLake} {tagPrefix : String} : Concurrency.Reads (planTags adapters actor fabFileId requestedTags lake tagPrefix) :=
  (reads_findFile fabFileId).bind fun _ => reads_orThrow.bind fun _ => reads_unlessThrow.bind fun _ => reads_liftExcept.bind fun _ =>
    reads_unlessThrow.bind fun _ => reads_get.bind fun _ => reads_liftExcept.bind fun _ => reads_unlessThrow.bind fun _ => reads_pure _

/-- The gate lets a lake mint under its normalized prefix, which no lake of its scope overlaps. -/
theorem decideStampPrefix_ok {table : Texts.CaseTable} {configured : List DataLakeConfig} {lakes : List TagLake} {lake : TagLake}
    {stampable : StampPrefix (tableCasing table)} (minted : decideStampPrefix table configured lakes lake = .ok stampable) :
    normalizeTagPrefix (tableCasing table) lake.fileTagPrefix = some stampable.text ∧
      findCollidingPrefixLakes (tableCasing table) lakes lake = [] := by
  unfold decideStampPrefix at minted
  split at minted
  · cases minted
  · rename_i tagPrefix usable
    split at minted
    · cases minted
    · split at minted
      · cases minted
      · dsimp only at minted
        split at minted
        · cases minted
        · rename_i clear
          cases minted
          exact ⟨usable, not_not.mp clear⟩

theorem mapError_ok {ε δ α : Type} {f : ε → δ} {value : Except ε α} {a : α} : value.mapError f = .ok a ↔ value = .ok a := by
  cases value with
  | error e =>
    constructor
    · intro refused
      cases refused
    · intro refused
      cases refused
  | ok b =>
    show Except.ok b = .ok a ↔ _
    rw [Except.ok.injEq, Except.ok.injEq]

theorem openLake_ok {s s' : TagStore} {lake : TagLake} {tagPrefix : String}
    (opened : openLake adapters actor dataLakeId s = .ok (lake, tagPrefix) s') :
    lake ∈ s.lakes ∧ ∃ stampable : StampPrefix adapters.casing,
      decideStampPrefix adapters.table adapters.configured s.lakes lake = .ok stampable ∧ stampable.text = tagPrefix := by
  obtain ⟨found, _, read, opened1⟩ := run_bind_ok.mp opened
  obtain ⟨stored, rfl⟩ := findLake_ok.mp read
  obtain ⟨lake', _, present, opened2⟩ := run_bind_ok.mp opened1
  obtain ⟨rfl, rfl⟩ := orThrow_ok.mp present
  obtain ⟨_, _, manages, opened3⟩ := run_bind_ok.mp opened2
  obtain ⟨_, rfl⟩ := unlessThrow_ok.mp manages
  obtain ⟨_, _, writable, opened4⟩ := run_bind_ok.mp opened3
  obtain ⟨_, rfl⟩ := unlessThrow_ok.mp writable
  obtain ⟨store, _, got, opened5⟩ := run_bind_ok.mp opened4
  cases got
  obtain ⟨stampable, _, decided, opened6⟩ := run_bind_ok.mp opened5
  obtain ⟨minted, rfl⟩ := liftExcept_ok.mp decided
  obtain ⟨same, _⟩ := run_pure_ok.mp opened6
  cases same
  refine ⟨List.mem_of_find?_eq_some stored, stampable, mapError_ok.mp minted, rfl⟩

/-- What the checks of a request leave to write. -/
structure PlanChecked (adapters : SetTagsAdapters) (requestedTags : List String) (store : TagStore) (fabFileId : String) (lake : TagLake)
    (tagPrefix : String) (planned : Planned) : Prop where
  found : store.files.find? (·.id == fabFileId) = some planned.file
  inLake : (lakeMembershipSignals adapters.casing lake.membership (some planned.file.toSignalSourceFile)).inLake = true
  valid : ∀ name ∈ requestedTags, validateName adapters.casing tagPrefix name = .ok ()
  diff : planned.diff = tagDiff adapters.casing lake planned.file tagPrefix (distinct requestedTags)
  changes : planned.changes = findPrefixArmChanges adapters.casing store.lakes
    ⟨planned.file.userId, planned.file.tagNames, resultingTagNames planned.file planned.diff⟩
  stays : satisfiesMembershipScope adapters.casing lake.membership.scope
    (some { userId := planned.file.userId, tags := some (resultingTags planned.file planned.diff) }) = true

theorem validateRequestedTags_ok {casing : Casing} {tagPrefix : String} {desired : List String}
    (valid : validateRequestedTags casing tagPrefix requestedTags = .ok desired) :
    desired = distinct requestedTags ∧ ∀ name ∈ requestedTags, validateName casing tagPrefix name = .ok () := by
  have each (names : List String) {u : Unit} (run : names.forM (validateName casing tagPrefix) = .ok u) :
      ∀ name ∈ names, validateName casing tagPrefix name = .ok () := by
    induction names with
    | nil =>
      intro name member
      cases member
    | cons first rest ih =>
      have step : (validateName casing tagPrefix first >>= fun _ => rest.forM (validateName casing tagPrefix)) = .ok u := run
      cases here : validateName casing tagPrefix first with
      | error e =>
        rw [here] at step
        cases step
      | ok _ =>
        rw [here] at step
        intro name member
        rcases List.mem_cons.mp member with rfl | member
        · exact here
        · exact ih step name member
  unfold validateRequestedTags at valid
  cases run : requestedTags.forM (validateName casing tagPrefix) with
  | error e =>
    rw [run] at valid
    cases valid
  | ok u =>
    rw [run] at valid
    cases valid
    exact ⟨rfl, each requestedTags run⟩

theorem planTags_ok {s s' : TagStore} {lake : TagLake} {tagPrefix : String} {planned : Planned}
    (run : planTags adapters actor fabFileId requestedTags lake tagPrefix s = .ok planned s') :
    PlanChecked adapters requestedTags s fabFileId lake tagPrefix planned := by
  obtain ⟨found, _, read, run1⟩ := run_bind_ok.mp run
  obtain ⟨stored, rfl⟩ := findFile_ok.mp read
  obtain ⟨file, _, present, run2⟩ := run_bind_ok.mp run1
  obtain ⟨here, rfl⟩ := orThrow_ok.mp present
  obtain ⟨_, _, member, run3⟩ := run_bind_ok.mp run2
  obtain ⟨inLake, rfl⟩ := unlessThrow_ok.mp member
  obtain ⟨desired, _, validated, run4⟩ := run_bind_ok.mp run3
  obtain ⟨valid, rfl⟩ := liftExcept_ok.mp validated
  obtain ⟨_, _, admin, run5⟩ := run_bind_ok.mp run4
  obtain ⟨_, rfl⟩ := unlessThrow_ok.mp admin
  obtain ⟨store, _, got, run6⟩ := run_bind_ok.mp run5
  cases got
  obtain ⟨_, _, admitted, run7⟩ := run_bind_ok.mp run6
  obtain ⟨_, rfl⟩ := liftExcept_ok.mp admitted
  obtain ⟨_, _, left, run8⟩ := run_bind_ok.mp run7
  obtain ⟨stays, rfl⟩ := unlessThrow_ok.mp left
  obtain ⟨rfl, _⟩ := run_pure_ok.mp run8
  obtain ⟨rfl, each⟩ := validateRequestedTags_ok valid
  exact ⟨stored.trans (Option.filter_eq_some_iff.mp here).1, inLake, each, rfl, rfl, stays⟩

end Door

/-! ### Writes -/

section Writes
variable {file : LakeFile} {strength : ℚ} {tagNames : List String}

def LakeFile.storedTags (file : LakeFile) : List FileTag := file.tags.getD []

/-- A tag as the door pushes it. -/
def pushed (strength : ℚ) (name : String) : FileTag := { name := some name, strength := some strength }

theorem tagNames_eq (file : LakeFile) : file.tagNames = file.storedTags.filterMap (·.name) := rfl

theorem push_eq (file : LakeFile) (strength : ℚ) (tagNames : List String) :
    (file.push strength tagNames).storedTags =
      file.storedTags ++ ((distinct tagNames).filter (! file.tagNames.contains ·)).map (pushed strength) ∧
    (file.push strength tagNames).id = file.id ∧ (file.push strength tagNames).userId = file.userId := by
  have walk (names : List String) (nodup : names.Nodup) (file : LakeFile) :
      (names.foldl (fun file name => if file.tagNames.contains name then file
        else { file with tags := some (file.tags.getD [] ++ [{ name := some name, strength := some strength }]) }) file).storedTags =
        file.storedTags ++ (names.filter (! file.tagNames.contains ·)).map (pushed strength) ∧
      (names.foldl (fun file name => if file.tagNames.contains name then file
        else { file with tags := some (file.tags.getD [] ++ [{ name := some name, strength := some strength }]) }) file).id = file.id ∧
      (names.foldl (fun file name => if file.tagNames.contains name then file
        else { file with tags := some (file.tags.getD [] ++ [{ name := some name, strength := some strength }]) }) file).userId =
          file.userId := by
    induction names generalizing file with
    | nil => exact ⟨(List.append_nil _).symm, rfl, rfl⟩
    | cons name rest ih =>
      obtain ⟨fresh, nodup⟩ := List.nodup_cons.mp nodup
      rw [List.foldl_cons]
      cases present : file.tagNames.contains name with
      | true =>
        rw [if_pos rfl, List.filter_cons, present]
        exact ih nodup file
      | false =>
        obtain ⟨tags, same, owner⟩ := ih nodup { file with tags := some (file.tags.getD [] ++ [pushed strength name]) }
        have names : SignalSourceFile.tagNames
            { file.toSignalSourceFile with tags := some (file.tags.getD [] ++ [pushed strength name]) } = file.tagNames ++ [name] := by
          show (file.tags.getD [] ++ [pushed strength name]).filterMap (·.name) = _
          rw [List.filterMap_append]
          rfl
        have others : rest.filter (! (file.tagNames ++ [name]).contains ·) = rest.filter (! file.tagNames.contains ·) := by
          refine List.filter_congr fun other member => ?_
          have differs : other ≠ name := fun is => fresh (is ▸ member)
          simp [differs]
        rw [if_neg Bool.false_ne_true, List.filter_cons, present]
        refine ⟨?_, same, owner⟩
        rw [show ∀ x : LakeFile, x.tagNames = x.toSignalSourceFile.tagNames from fun _ => rfl, names, others] at tags
        refine Eq.trans tags ?_
        show (file.tags.getD [] ++ [pushed strength name]) ++ _ = file.tags.getD [] ++ pushed strength name :: _
        rw [List.append_assoc]
        rfl
  exact walk (distinct tagNames) distinct_nodup file

theorem pulled_eq (file : LakeFile) (tagNames : List String) :
    (file.pulled tagNames).storedTags = file.storedTags.filter fun tag => !tag.name.any (tagNames.contains ·) := by
  show (file.tags.map _).getD [] = (file.tags.getD []).filter _
  cases file.tags with
  | none => rfl
  | some tags => rfl

theorem pulled_nil (file : LakeFile) : file.storedTags.filter (fun tag => !tag.name.any (List.contains [] ·)) = file.storedTags := by
  refine List.filter_eq_self.mpr fun tag _ => ?_
  cases tag.name with
  | none => rfl
  | some name => rfl

section Stored
variable {s : TagStore} {fabFileId : String} {change : LakeFile → LakeFile} {write : TagWrite}

theorem stored_update (keeps : ∀ file : LakeFile, (change file).id = file.id) (files : List LakeFile) :
    (files.map fun file => if file.id == fabFileId then change file else file).find? (·.id == fabFileId) =
      (files.find? (·.id == fabFileId)).map change := by
  induction files with
  | nil => rfl
  | cons first rest ih =>
    rw [List.map_cons, List.find?_cons, List.find?_cons]
    cases here : first.id == fabFileId with
    | true =>
      rw [if_pos rfl, keeps, here]
      rfl
    | false =>
      rw [if_neg Bool.false_ne_true, here]
      exact ih

theorem push_run {α : Type} (found : s.files.find? (·.id == fabFileId) = some file) (tagNames : List String) (strength : ℚ)
    (items : List α) (idle : items = [] → tagNames = []) :
    ∃ (s1 : TagStore) (file1 : LakeFile), whenAny items (pushTagsByFabFileId fabFileId tagNames strength) s = .ok () s1 ∧
      s1.lakes = s.lakes ∧ s1.files.find? (·.id == fabFileId) = some file1 ∧ file1.userId = file.userId ∧
      file1.storedTags = file.storedTags ++ ((distinct tagNames).filter (! file.tagNames.contains ·)).map (pushed strength) := by
  unfold whenAny
  by_cases some : 0 < items.length
  · obtain ⟨tags, same, owner⟩ := push_eq file strength tagNames
    rw [if_pos some]
    refine ⟨_, file.push strength tagNames, rfl, rfl, ?_, owner, tags⟩
    show (s.files.map _).find? _ = _
    rw [stored_update fun file => (push_eq file strength tagNames).2.1, found]
    rfl
  · rw [if_neg some, idle (List.eq_nil_of_length_eq_zero (by omega))]
    exact ⟨s, file, rfl, rfl, found, rfl, (List.append_nil _).symm⟩

theorem pull_run (found : s.files.find? (·.id == fabFileId) = some file) (tagNames : List String) :
    ∃ (s1 : TagStore) (file1 : LakeFile), whenAny tagNames (pullTagsByFabFileId fabFileId tagNames) s = .ok () s1 ∧
      s1.lakes = s.lakes ∧ s1.files.find? (·.id == fabFileId) = some file1 ∧ file1.userId = file.userId ∧
      file1.storedTags = file.storedTags.filter fun tag => !tag.name.any (tagNames.contains ·) := by
  unfold whenAny
  by_cases some : 0 < tagNames.length
  · rw [if_pos some]
    refine ⟨_, file.pulled tagNames, rfl, rfl, ?_, rfl, pulled_eq file tagNames⟩
    show (s.files.map _).find? _ = _
    rw [@stored_update fabFileId (·.pulled tagNames) fun file => rfl, found]
    rfl
  · have none : tagNames = [] := List.eq_nil_of_length_eq_zero (by omega)
    rw [if_neg some, none]
    exact ⟨s, file, rfl, rfl, found, rfl, (pulled_nil file).symm⟩

end Stored

/-- The tags of a file once the diff is pushed and pulled. -/
def settledTags (file : LakeFile) (diff : TagDiff) : List FileTag :=
  (file.storedTags ++ ((distinct diff.toAdd).filter (! file.tagNames.contains ·)).map (pushed LAKE_CONTENT_TAG_STRENGTH)).filter
    fun tag => !tag.name.any (diff.toRemove.contains ·)

variable {adapters : SetTagsAdapters} {s : TagStore} {fabFileId : String}

/-- The names that the tagger mints. -/
def mintedNames (adapters : SetTagsAdapters) (lakes : List TagLake) (tags : List FileTag) : List String :=
  (fallbackAdditions adapters lakes tags).filterMap (·.name)

theorem writeTags_run (found : s.files.find? (·.id == fabFileId) = some file) (diff : TagDiff) :
    ∃ (s' : TagStore) (file' : LakeFile) (strength : ℚ),
      writeTags adapters fabFileId diff s = .ok (FallbackTags.reconcile adapters.casing
        (resolvePrefix adapters.table adapters.configured s.lakes) (settledTags file diff) []) s' ∧
      s'.lakes = s.lakes ∧ s'.files.find? (·.id == fabFileId) = some file' ∧ file'.userId = file.userId ∧
      file'.storedTags = settledTags file diff ++ ((distinct (mintedNames adapters s.lakes (settledTags file diff))).filter
        (! ((settledTags file diff).filterMap (·.name)).contains ·)).map (pushed strength) := by
  obtain ⟨s1, file1, pushes, lakes1, found1, owner1, tags1⟩ := push_run found diff.toAdd LAKE_CONTENT_TAG_STRENGTH diff.toAdd fun none => none
  obtain ⟨s2, file2, pulls, lakes2, found2, owner2, tags2⟩ := pull_run found1 diff.toRemove
  rw [tags1] at tags2
  have settled : file2.storedTags = settledTags file diff := tags2
  obtain ⟨s3, file3, mints, lakes3, found3, owner3, tags3⟩ := push_run found2 (mintedNames adapters s2.lakes file2.storedTags)
    (((fallbackAdditions adapters s2.lakes file2.storedTags).head?.bind (·.strength)).getD 0)
    (fallbackAdditions adapters s2.lakes file2.storedTags) fun none => by
      rw [mintedNames, none]
      rfl
  have lakes : s2.lakes = s.lakes := lakes2.trans lakes1
  rw [tagNames_eq, settled, lakes] at tags3
  refine ⟨s3, file3, _, ?_, lakes3.trans lakes, found3, owner3.trans (owner2.trans owner1), tags3⟩
  unfold writeTags
  rw [run_bind_ok]
  refine ⟨(), s1, pushes, ?_⟩
  rw [run_bind_ok]
  refine ⟨(), s2, pulls, ?_⟩
  rw [run_bind_ok]
  refine ⟨_, s2, rfl, ?_⟩
  rw [run_bind_ok]
  refine ⟨s2, s2, rfl, ?_⟩
  have stored : ((s2.files.find? fun file => file.id == fabFileId).bind fun file => file.tags).getD [] = file2.storedTags := by
    rw [found2]
    rfl
  rw [run_bind_ok, stored]
  refine ⟨(), s3, ?_, ?_⟩
  · exact mints
  · rw [settled, lakes]
    rfl

theorem returns_updateFile {change : LakeFile → LakeFile} {write : TagWrite} : Returns (updateFile fabFileId change write) := by
  intro _ _ _ refused
  cases refused

theorem returns_maybe {α : Type} {items : List α} {change : LakeFile → LakeFile} {write : TagWrite} :
    Returns (whenAny items (updateFile fabFileId change write)) := by
  unfold whenAny
  split
  · exact returns_updateFile
  · intro _ _ _ refused
    cases refused

theorem returns_findFile : Returns (findFile fabFileId) := by
  intro _ _ _ refused
  cases refused

theorem returns_pure {α : Type} (a : α) : Returns (pure a : Door α) := by
  intro _ _ _ refused
  cases refused

theorem returns_get : Returns (get : Door TagStore) := by
  intro _ _ _ refused
  cases refused

theorem returns_writeTags (diff : TagDiff) : Returns (writeTags adapters fabFileId diff) :=
  returns_maybe.bind fun _ => returns_maybe.bind fun _ => returns_findFile.bind fun _ => returns_get.bind fun _ =>
    returns_maybe.bind fun _ => returns_pure _

/-! ### The statistics -/

theorem recomputeLakeStats_run (s : TagStore) (lake : TagLake) : ∃ (stats : LakeStats) (s' : TagStore),
    recomputeLakeStats adapters lake s = .ok stats s' ∧ s'.lakes = s.lakes ∧ s'.files = s.files := ⟨_, _, rfl, rfl, rfl⟩

theorem recomputeAll_run (s : TagStore) (lakes : List TagLake) : ∃ s' : TagStore,
    (lakes.forM fun lake => do let _ ← recomputeLakeStats adapters lake : Door Unit) s = .ok () s' ∧ s'.lakes = s.lakes ∧ s'.files = s.files := by
  induction lakes generalizing s with
  | nil => exact ⟨s, rfl, rfl, rfl⟩
  | cons lake rest ih =>
    obtain ⟨stats, s1, run, lakes1, files1⟩ := @recomputeLakeStats_run adapters s lake
    obtain ⟨s2, later, lakes2, files2⟩ := ih s1
    refine ⟨s2, ?_, lakes2.trans lakes1, files2.trans files1⟩
    exact run_bind_ok.mpr ⟨(), s1, run_bind_ok.mpr ⟨stats, s1, run, rfl⟩, later⟩

end Writes
end Bike4Mind.DataLakes
