import Bike4Mind.DataLakes.StampGate

/-! The door that sets the tags of one file under one lake's prefix. -/

namespace Bike4Mind.DataLakes
open Collections

def MAX_LAKE_FILE_TAG_NAME_LENGTH : Nat := 130

structure LakeFile extends SignalSourceFile where
  id : String
  deleted : Bool := false
  primaryTag : Option String := none
  deriving DecidableEq

structure LakeStats where
  fileCount : Nat
  totalSizeBytes : Nat
  totalChunkedChars : Nat
  deriving DecidableEq

inductive TagWrite where
  | push (fabFileId : String) (tagNames : List String) (strength : ℚ)
  | pull (fabFileId : String) (tagNames : List String)
  | setStats (dataLakeId : String) (stats : LakeStats)
  deriving DecidableEq

/-- The documents the door reads and writes, and the writes made so far. -/
structure TagStore where
  lakes : List TagLake
  files : List LakeFile
  writes : List TagWrite := []
  distinct : (lakes.map (·.id)).Nodup

structure SetTagsResult where
  stats : LakeStats
  added : List String
  removed : List String
  retained : List String
  current : List String
  primaryTagCleared : Bool
  deriving DecidableEq

abbrev Door := EStateM LakeError TagStore

/-- What the door reads and never writes: the registry, the grants, and the verdict and the aggregate of two other modules. -/
structure SetTagsAdapters where
  table : Texts.CaseTable
  configured : List DataLakeConfig
  grants : List AccessGrant
  now : Time
  assertLakeAdmission : List TagLake → LakeFile → Option LakeError
  computeDataLakeStats : List LakeFile → DataLakeMembershipScope → LakeStats

abbrev SetTagsAdapters.casing (adapters : SetTagsAdapters) : Casing := tableCasing adapters.table

/-! ### The repositories -/

def orThrow {α : Type} (found : Option α) (error : LakeError) : Door α := found.elim (throw error) pure

def findLake (dataLakeId : String) : Door (Option TagLake) := do
  return (← get).lakes.find? fun lake => lake.id.val == dataLakeId

def findFile (fabFileId : String) : Door (Option LakeFile) := do
  return (← get).files.find? fun file => file.id == fabFileId

/-- One filtered `$push` for each name. -/
def LakeFile.push (file : LakeFile) (strength : ℚ) (tagNames : List String) : LakeFile :=
  (distinct tagNames).foldl (fun file name =>
    if file.tagNames.contains name then file
    else { file with tags := some (file.tags.getD [] ++ [{ name := some name, strength := some strength }]) }) file

/-- The `$pull`, and the primary tag that names no tag any more. -/
def LakeFile.pulled (file : LakeFile) (tagNames : List String) : LakeFile :=
  { file with
    toSignalSourceFile := file.toSignalSourceFile.pull tagNames
    primaryTag := file.primaryTag.filter (! tagNames.contains ·) }

def updateFile (fabFileId : String) (change : LakeFile → LakeFile) (write : TagWrite) : Door Unit :=
  modify fun store => { store with
    files := store.files.map fun file => if file.id == fabFileId then change file else file
    writes := store.writes ++ [write] }

def pushTagsByFabFileId (fabFileId : String) (tagNames : List String) (strength : ℚ) : Door Unit :=
  updateFile fabFileId (·.push strength tagNames) (.push fabFileId tagNames strength)

def pullTagsByFabFileId (fabFileId : String) (tagNames : List String) : Door Unit :=
  updateFile fabFileId (·.pulled tagNames) (.pull fabFileId tagNames)

/-- The write, unless there is nothing to write. -/
def whenAny {α : Type} (items : List α) (write : Door Unit) : Door Unit := if 0 < items.length then write else pure ()

/-! ### The request -/

section Request
variable (casing : Casing)

def validateName (tagPrefix name : String) : Except LakeError Unit :=
  if startsWith (casing.toLowerCase name) DATALAKE_TAG_PREFIX then
    .error (.badRequest ("\"" ++ name ++ "\" is in the reserved \"datalake:\" namespace and cannot be set here"))
  else if !startsWith name tagPrefix then
    .error (.badRequest ("\"" ++ name ++ "\" is not under this lake's tag prefix \"" ++ tagPrefix ++ "\""))
  else if name = tagPrefix then
    .error (.badRequest ("\"" ++ name ++ "\" has no name after the prefix \"" ++ tagPrefix ++ "\""))
  else if name ≠ casing.trim name then .error (.badRequest ("\"" ++ name ++ "\" has leading or trailing whitespace"))
  else .ok ()

def validateRequestedTags (tagPrefix : String) (requestedTags : List String) : Except LakeError (List String) :=
  (requestedTags.forM (validateName casing tagPrefix)).map fun _ => distinct requestedTags

def extractStaticRegistryPrefixedTags (configured : List DataLakeConfig) (tagNames : List String) : List String :=
  let prefixes := (DATA_LAKES configured).filterMap fun lake => normalizeTagPrefix casing (some lake.fileTagPrefix)
  tagNames.filter fun name => prefixes.any (startsWith name ·)

end Request

/-! ### The diff -/

structure TagDiff where
  toAdd : List String
  toRemove : List String
  retained : List String
  deriving DecidableEq

section Diff
variable (casing : Casing)

def currentUnderPrefix (file : LakeFile) (tagPrefix : String) : List String :=
  (prefixArmTagNames casing file.tagNames (some tagPrefix)).filter (! startsWith · DATALAKE_TAG_PREFIX)

def overCap (name : String) : Bool := MAX_LAKE_FILE_TAG_NAME_LENGTH < (Texts.codeUnits name).length

/-- This lake's own removal reach. -/
def removable (lake : TagLake) (file : LakeFile) : List String :=
  ((lakeMembershipSignals casing lake.membership (some file.toSignalSourceFile)).contentTags.map Prod.fst).filter (! overCap ·)

/-- The one name whose removal is not bounded by `removable`. -/
def sweptPlaceholder (file : LakeFile) (tagPrefix : String) (desired : List String) : List String :=
  if file.tagNames.contains (placeholder tagPrefix) && decide (0 < desired.length) && !desired.contains (placeholder tagPrefix) then
    [placeholder tagPrefix]
  else []

def removedNames (lake : TagLake) (file : LakeFile) (tagPrefix : String) (desired : List String) : List String :=
  let toRemove := distinct (((currentUnderPrefix casing file tagPrefix).filter fun name =>
    !desired.contains name && (removable casing lake file).contains name) ++ sweptPlaceholder file tagPrefix desired)
  -- pulling the placeholder of a meta-tag member would only have the tagger mint it again
  if desired.length = 0 ∧ file.tagNames.contains lake.datalakeTag then toRemove.filter (· ≠ placeholder tagPrefix) else toRemove

def tagDiff (lake : TagLake) (file : LakeFile) (tagPrefix : String) (desired : List String) : TagDiff :=
  let current := currentUnderPrefix casing file tagPrefix
  let toRemove := removedNames casing lake file tagPrefix desired
  { toAdd := desired.filter (! current.contains ·)
    toRemove := toRemove
    retained := current.filter fun name => !desired.contains name && !toRemove.contains name }

def resultingTagNames (file : LakeFile) (diff : TagDiff) : List String :=
  (file.tagNames.filter (! diff.toRemove.contains ·)) ++ diff.toAdd

/-- The tags after the write, as the last check sees them. -/
def resultingTags (file : LakeFile) (diff : TagDiff) : List FileTag :=
  ((file.tags.getD []).filter fun tag => tag.name.any (! diff.toRemove.contains ·)) ++
    diff.toAdd.map fun name => { name := some name, strength := some LAKE_CONTENT_TAG_STRENGTH }

end Diff

/-! ### The door -/

/-- What the checks settle before the first write. -/
structure Planned where
  lake : TagLake
  file : LakeFile
  tagPrefix : String
  diff : TagDiff
  changes : PrefixArmChanges

section Door
variable (adapters : SetTagsAdapters) (actor : ManageActor) (dataLakeId fabFileId : String) (requestedTags : List String)

def unlessThrow (fine : Bool) (error : LakeError) : Door Unit := if fine then pure () else throw error

def liftExcept {α : Type} (value : Except LakeError α) : Door α :=
  match value with
  | .ok a => pure a
  | .error error => throw error

/-- Steps 1 to 5. -/
def openLake : Door (TagLake × String) := do
  let lake ← orThrow (← findLake dataLakeId) (.notFound "Data lake not found")
  unlessThrow (canManageLake lake.toDataLake actor (lakeGrants adapters.grants lake.id.val adapters.now))
    (.badRequest "You do not have permission to change this data lake's files")
  unlessThrow (!(STATIC_LAKE_IDS adapters.configured).contains lake.id.val)
    (.badRequest "This data lake is built into the platform and is read-only")
  let decision := decideStampPrefix adapters.table adapters.configured (← get).lakes lake
  let stamp ← liftExcept (decision.mapError fun refusal => .badRequest (stampRefusalMessage refusal))
  return (lake, stamp.text)

/-- Steps 6 to 12. -/
def planTags (lake : TagLake) (tagPrefix : String) : Door Planned := do
  let missing := LakeError.notFound "File not found in this data lake"
  let file ← orThrow ((← findFile fabFileId).filter (! ·.deleted)) missing
  unlessThrow (lakeMembershipSignals adapters.casing lake.membership (some file.toSignalSourceFile)).inLake missing
  let desired ← liftExcept (validateRequestedTags adapters.casing tagPrefix requestedTags)
  unlessThrow (actor.isAdmin || (extractStaticRegistryPrefixedTags adapters.casing adapters.configured desired).isEmpty)
    (.badRequest "Only an admin can change this data lake's files")
  let diff := tagDiff adapters.casing lake file tagPrefix desired
  let changes := findPrefixArmChanges adapters.casing (← get).lakes
    ⟨file.userId, file.tagNames, resultingTagNames file diff⟩
  let joined := changes.joins.map PrefixArmChange.lake
  liftExcept (((if 0 < joined.length then adapters.assertLakeAdmission joined file else none)).elim (.ok ()) .error)
  let resulting : SignalSourceFile := { userId := file.userId, tags := some (resultingTags file diff) }
  unlessThrow (satisfiesMembershipScope adapters.casing lake.membership.scope (some resulting))
    (.badRequest ("This change would remove the file from \"" ++ lake.name ++ "\", which this endpoint cannot do. " ++
      "Keep at least one tag under \"" ++ tagPrefix ++ "\" (for example \"" ++ placeholder tagPrefix ++ "\"), " ++
      "or use DELETE /api/data-lakes/:id/files/:fabFileId."))
  return { lake := lake, file := file, tagPrefix := tagPrefix, diff := diff, changes := changes }

def recomputeLakeStats (lake : TagLake) : Door LakeStats := do
  let stats := adapters.computeDataLakeStats (← get).files lake.membership.scope
  modify fun store => { store with writes := store.writes ++ [.setStats lake.id.val stats] }
  return stats

/-- The tags that the fallback tagger adds to the stored ones. -/
def fallbackAdditions (lakes : List TagLake) (currentTags : List FileTag) : List FileTag :=
  (FallbackTags.reconcile adapters.casing (resolvePrefix adapters.table adapters.configured lakes) currentTags []).filter fun tag =>
    !(currentTags.map (·.name)).contains tag.name

/-- Steps 13 to 15: the tags as the tagger leaves them. -/
def writeTags (diff : TagDiff) : Door (List FileTag) := do
  whenAny diff.toAdd (pushTagsByFabFileId fabFileId diff.toAdd LAKE_CONTENT_TAG_STRENGTH)
  whenAny diff.toRemove (pullTagsByFabFileId fabFileId diff.toRemove)
  let currentTags := ((← findFile fabFileId).bind (·.tags)).getD []
  let lakes := (← get).lakes
  let additions := fallbackAdditions adapters lakes currentTags
  whenAny additions (pushTagsByFabFileId fabFileId (additions.filterMap (·.name)) ((additions.head?.bind (·.strength)).getD 0))
  return FallbackTags.reconcile adapters.casing (resolvePrefix adapters.table adapters.configured lakes) currentTags []

/-- The other lakes that the file joined or left, once each. -/
def otherLakes (changes : PrefixArmChanges) : List TagLake :=
  ((changes.joins ++ changes.leaves).foldl (fun (lakes : OrderedMap String TagLake) change => lakes.set change.lake.id.val change.lake) ∅).values

def setDataLakeFileTags : Door SetTagsResult := do
  let (lake, tagPrefix) ← openLake adapters actor dataLakeId
  let planned ← planTags adapters actor fabFileId requestedTags lake tagPrefix
  let reconciled ← writeTags adapters fabFileId planned.diff
  let stats ← recomputeLakeStats adapters lake
  (otherLakes planned.changes).forM fun lake => do
    let _ ← recomputeLakeStats adapters lake
  return {
    stats := stats
    added := planned.diff.toAdd
    removed := planned.diff.toRemove
    retained := planned.diff.retained
    current := (prefixArmTagNames adapters.casing (reconciled.filterMap (·.name)) (some tagPrefix)).filter (! startsWith · DATALAKE_TAG_PREFIX)
    primaryTagCleared := planned.file.primaryTag.any (planned.diff.toRemove.contains ·) }

end Door
end Bike4Mind.DataLakes
