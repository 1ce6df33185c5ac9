import Bike4Mind.ApplyPatch.Patch
import Bike4Mind.Collections.Pattern
import Bike4Mind.DataLakes.LakeStore
import Mathlib.Data.List.DropRight

/-! Who is a member of a lake: the datastore filters, the two predicates over a loaded file, and the attribution of a file to lakes. -/

namespace Bike4Mind.DataLakes
open Collections

/-- An element of a file's tags, a list without a schema. -/
structure FileTag where
  name : Option String := none
  strength : Option ℚ := none
  deriving DecidableEq

structure SignalSourceFile where
  userId : Option String := none
  tags : Option (List FileTag) := none
  deriving DecidableEq

def SignalSourceFile.tagNames (file : SignalSourceFile) : List String := (file.tags.getD []).filterMap (·.name)

inductive DataLakeMembershipScope where
  | owned (datalakeTag : String) (fileTagPrefix creatorUserId : Option String)
  | registry (datalakeTag : String) (fileTagPrefix : Option String)
  deriving DecidableEq

namespace DataLakeMembershipScope

def datalakeTag : DataLakeMembershipScope → String
  | owned datalakeTag _ _ => datalakeTag
  | registry datalakeTag _ => datalakeTag

def fileTagPrefix : DataLakeMembershipScope → Option String
  | owned _ fileTagPrefix _ => fileTagPrefix
  | registry _ fileTagPrefix => fileTagPrefix

def unanchored : DataLakeMembershipScope → Bool
  | owned _ _ creatorUserId => blank creatorUserId
  | registry _ _ => false

def effectiveTagPrefixArm (casing : Casing) (scope : DataLakeMembershipScope) : Option String :=
  match normalizeTagPrefix casing scope.fileTagPrefix with
  | none => none
  | some tagPrefix => if isReservedTagPrefix casing tagPrefix || scope.unanchored then none else some tagPrefix

end DataLakeMembershipScope

/-! ### Filters of the datastore -/

/-- A condition on one name; an array field meets it when one of its elements does. -/
inductive TagCondition where
  | equals (name : String)
  | regex (pattern : String)
  -- `{ $ne: name }`, which an array field meets when none of its elements is `name`.
  | ne (name : String)
  deriving DecidableEq

inductive FileFilter where
  | tagsName (condition : TagCondition)
  | userId (id : String)
  | or (filters : List FileFilter)
  | and (filters : List FileFilter)

def TagCondition.met (names : List String) : TagCondition → Bool
  | equals name => names.contains name
  | regex pattern => names.any fun name => Pattern.test pattern.toList name.toList
  | ne name => !names.contains name

mutual
def FileFilter.selects (file : SignalSourceFile) : FileFilter → Bool
  | .tagsName condition => condition.met file.tagNames
  | .userId id => file.userId == some id
  | .or filters => FileFilter.anySelects file filters
  | .and filters => FileFilter.allSelect file filters

def FileFilter.anySelects (file : SignalSourceFile) : List FileFilter → Bool
  | [] => false
  | filter :: rest => filter.selects file || FileFilter.anySelects file rest

def FileFilter.allSelect (file : SignalSourceFile) : List FileFilter → Bool
  | [] => true
  | filter :: rest => filter.selects file && FileFilter.allSelect file rest
end

def escapeRegex (input : String) : String := String.ofList (Pattern.escape input.toList)

def metaArm (scope : DataLakeMembershipScope) : FileFilter := .tagsName (.equals scope.datalakeTag)

def prefixArm (tagPrefix : String) : FileFilter := .tagsName (.regex ("^" ++ escapeRegex tagPrefix))

def buildDataLakeMembershipFilter (casing : Casing) (scope : DataLakeMembershipScope) : FileFilter :=
  match scope.effectiveTagPrefixArm casing with
  | none => metaArm scope
  | some tagPrefix =>
    match scope with
    | .registry _ _ => .or [metaArm scope, prefixArm tagPrefix]
    | .owned _ _ creatorUserId => .or [metaArm scope, .and [prefixArm tagPrefix, .userId (creatorUserId.getD "")]]

def buildDataLakePrefixOnlyMembershipFilter (casing : Casing) (scope : DataLakeMembershipScope) : Option FileFilter :=
  match scope.effectiveTagPrefixArm casing with
  | none => none
  | some tagPrefix =>
    match scope with
    | .registry _ _ => some (.and [prefixArm tagPrefix, .tagsName (.ne scope.datalakeTag)])
    | .owned _ _ creatorUserId =>
      if blank creatorUserId then none
      else some (.and [prefixArm tagPrefix, .userId (creatorUserId.getD ""), .tagsName (.ne scope.datalakeTag)])

/-! ### Predicates over a loaded file -/

def prefixArmTagNames (casing : Casing) (tagNames : List String) (fileTagPrefix : Option String) : List String :=
  match normalizeTagPrefix casing fileTagPrefix with
  | none => []
  | some tagPrefix => if isReservedTagPrefix casing tagPrefix then [] else tagNames.filter (startsWith · tagPrefix)

structure MembershipLake where
  id : String
  datalakeTag : String
  fileTagPrefix : Option String := none
  createdByUserId : Option String := none
  deriving DecidableEq

/-- `lakeMembershipScope` -/
def MembershipLake.scope (lake : MembershipLake) : DataLakeMembershipScope :=
  .owned lake.datalakeTag lake.fileTagPrefix lake.createdByUserId

structure LakeMembershipSignals where
  inLake : Bool
  tagsToPull : List String
  contentTags : List (String × ℚ)
  deriving DecidableEq

def tagStrength (tags : List FileTag) (name : String) : ℚ :=
  ((tags.find? (·.name == some name)).bind (·.strength)).getD 0

def lakeMembershipSignals (casing : Casing) (lake : MembershipLake) (file : Option SignalSourceFile) : LakeMembershipSignals :=
  let tags := (file.bind (·.tags)).getD []
  let tagNames := tags.filterMap (·.name)
  let userId := file.bind (·.userId)
  let ownsFile := !blank userId && userId == lake.createdByUserId
  let prefixedTags := if ownsFile then prefixArmTagNames casing tagNames lake.fileTagPrefix else []
  let contentTagNames := prefixedTags.filter fun name => !startsWith name DATALAKE_TAG_PREFIX
  { inLake := file.isSome && (tagNames.contains lake.datalakeTag || !prefixedTags.isEmpty)
    tagsToPull := lake.datalakeTag :: contentTagNames
    contentTags := contentTagNames.map fun name => (name, tagStrength tags name) }

def satisfiesMembershipScope (casing : Casing) (scope : DataLakeMembershipScope) (file : Option SignalSourceFile) : Bool :=
  match file with
  | none => false
  | some file =>
    file.tagNames.contains scope.datalakeTag ||
      match scope with
      | .registry _ fileTagPrefix => !(prefixArmTagNames casing file.tagNames fileTagPrefix).isEmpty
      | .owned _ fileTagPrefix creatorUserId =>
        if blank creatorUserId || file.userId != creatorUserId then false
        else !(prefixArmTagNames casing file.tagNames fileTagPrefix).isEmpty

/-- The `$pull` of `pullTagsByFabFileId` -/
def SignalSourceFile.pull (file : SignalSourceFile) (tagNames : List String) : SignalSourceFile :=
  { file with tags := file.tags.map (·.filter fun tag => !tag.name.any (tagNames.contains ·)) }

/-! ### Attribution -/

structure DataLakeConfig where
  id : String
  slug : String
  fileTagPrefix : String
  datalakeTag : String
  deriving DecidableEq

def complete (l : DataLakeConfig) : Bool := l.id != "" && l.slug != "" && l.fileTagPrefix != "" && l.datalakeTag != ""

/-- The registry, with what the deployment configures. -/
def DATA_LAKES (configured : List DataLakeConfig) : List DataLakeConfig :=
  { id := "opti-knowledge", slug := "opti-knowledge", fileTagPrefix := "opti:", datalakeTag := "datalake:opti-knowledge" } ::
    configured.filter complete

def STATIC_LAKE_IDS (configured : List DataLakeConfig) : List String := (DATA_LAKES configured).map (·.id)

structure AttributableLake where
  id : String
  datalakeTag : String
  fileTagPrefix : Option String := none
  membership : Option DataLakeMembershipScope := none
  deriving DecidableEq

def openLakeTagPrefix (casing : Casing) (configured : List DataLakeConfig) (lake : AttributableLake) : Option String :=
  if lake.id ∈ STATIC_LAKE_IDS configured then normalizeTagPrefix casing lake.fileTagPrefix else none

def datalakeTagsFrom (tagNames : List String) : List String := distinct (tagNames.filter (startsWith · DATALAKE_TAG_PREFIX))

/-- `new Map(lakes.map(l => [l.datalakeTag, l.id]))` -/
def lakeIdByTag (lakes : List AttributableLake) : OrderedMap String String :=
  lakes.foldl (fun ids lake => ids.set lake.datalakeTag lake.id) ∅

/-- The prefix arm of a lake with a document, for a file of `ownerUserId`. -/
def ownedArmHolds (casing : Casing) (names : List String) (ownerUserId : Option String) (lake : AttributableLake) : Bool :=
  match lake.membership with
  | some (.owned _ fileTagPrefix creatorUserId) =>
    !(blank creatorUserId || creatorUserId != ownerUserId) && !(prefixArmTagNames casing names fileTagPrefix).isEmpty
  | _ => false

def attributeFileToLakeIds (casing : Casing) (configured : List DataLakeConfig) (tags : List (Option String))
    (lakes : List AttributableLake) (ownerUserId : Option String) : List String :=
  let names := tags.filterMap id
  let tagged := ((datalakeTagsFrom names).filterMap (lakeIdByTag lakes).get?).filter (· != "")
  let opened := lakes.filter fun lake => (openLakeTagPrefix casing configured lake).any fun tagPrefix => names.any (startsWith · tagPrefix)
  let owned := if blank ownerUserId then [] else lakes.filter (ownedArmHolds casing names ownerUserId)
  distinct (tagged ++ opened.map (·.id) ++ owned.map (·.id))

end Bike4Mind.DataLakes
