import Bike4Mind.DataLakes.FallbackSettles

/-! The gate on minting tags under a lake's prefix, and the lakes that a file joins and leaves by its prefix arm. -/

namespace Bike4Mind.DataLakes
open Collections

/-- A stored lake with what its tag doors read. -/
structure TagLake extends LakeDocument where
  name : String
  deriving DecidableEq

def TagLake.membership (lake : TagLake) : MembershipLake where
  id := lake.id.val
  datalakeTag := lake.datalakeTag
  fileTagPrefix := lake.fileTagPrefix
  createdByUserId := some lake.createdByUserId

section Prefixes
variable (casing : Casing)

def tagPrefixesOverlap (a b : Option String) : Bool :=
  match normalizeTagPrefix casing a, normalizeTagPrefix casing b with
  | some left, some right => left == right || startsWith left right || startsWith right left
  | _, _ => false

def collidesWithRegistryPrefix (configured : List DataLakeConfig) (rawPrefix : Option String) : Bool :=
  (DATA_LAKES configured).any fun lake => tagPrefixesOverlap casing rawPrefix (some lake.fileTagPrefix)

/-- The lakes of the same creator or organization whose prefix fights with this lake's. -/
def findCollidingPrefixLakes (lakes : List TagLake) (lake : TagLake) : List TagLake :=
  if (normalizeTagPrefix casing lake.fileTagPrefix).isNone then []
  else
    let candidates := lakes.filter fun other =>
      other.createdByUserId == lake.createdByUserId || !blank lake.organizationId && other.organizationId == lake.organizationId
    candidates.filter fun other => other.id != lake.id && tagPrefixesOverlap casing lake.fileTagPrefix other.fileTagPrefix

inductive StampRefusalReason where
  | unusablePrefix | reservedNamespace | prefixOverlap | registryPrefixOverlap
  deriving DecidableEq

structure StampRefusal where
  reason : StampRefusalReason
  detail : Option String := none
  deriving DecidableEq

def StampRefusalReason.slug : StampRefusalReason → String
  | unusablePrefix => "unusable-prefix"
  | reservedNamespace => "reserved-namespace"
  | prefixOverlap => "prefix-overlap"
  | registryPrefixOverlap => "registry-prefix-overlap"

def STAMP_REFUSAL_EXPLANATIONS : StampRefusalReason → String
  | .unusablePrefix => "the lake has no usable tag prefix, so a tag built on it would be invisible to every query"
  | .reservedNamespace => "the prefix reaches the reserved datalake: namespace"
  | .prefixOverlap => "the prefix overlaps another data lake, so the tag would grant that lake membership of these files"
  | .registryPrefixOverlap =>
    "the prefix overlaps a built-in data lake, so the tag would expose these files to everyone with access to that lake"

def stampRefusalMessage (decision : StampRefusal) : String :=
  let reason := decision.detail.elim decision.reason.slug fun detail => decision.reason.slug ++ ": " ++ detail
  "This lake's tag prefix cannot be used right now: " ++ STAMP_REFUSAL_EXPLANATIONS decision.reason ++ " (" ++ reason ++ ")"

/-- The lake names and prefixes of an overlap. -/
def clashDetail (clashes : List TagLake) : String :=
  ", ".intercalate (clashes.map fun l => "\"" ++ l.name ++ "\" (" ++ l.fileTagPrefix.getD "" ++ ")")

end Prefixes

section Gate
variable (table : Texts.CaseTable) (configured : List DataLakeConfig) (lakes : List TagLake)

/-- The prefix under which tags may be minted for a lake, or why none may. -/
def decideStampPrefix (lake : TagLake) : Except StampRefusal (StampPrefix (tableCasing table)) :=
  match usable : normalizeTagPrefix (tableCasing table) lake.fileTagPrefix with
  | none => .error ⟨.unusablePrefix, none⟩
  | some tagPrefix =>
    if reached : reachesMetaNamespace (tableCasing table) tagPrefix = true then .error ⟨.reservedNamespace, none⟩
    else if collidesWithRegistryPrefix (tableCasing table) configured lake.fileTagPrefix then .error ⟨.registryPrefixOverlap, none⟩
    else
      let clashes := findCollidingPrefixLakes (tableCasing table) lakes lake
      if clashes ≠ [] then .error ⟨.prefixOverlap, some (clashDetail clashes)⟩
      else .ok ⟨tagPrefix, normalizeTagPrefix_usable usable, Bool.eq_false_iff.mpr reached⟩

/-- The prefix that the fallback tagger resolves a meta-tag to. -/
def resolvePrefix (metaTag : String) : Option (StampPrefix (tableCasing table)) :=
  (lakes.find? (·.datalakeTag == metaTag)).bind fun lake => (decideStampPrefix table configured lakes lake).toOption

end Gate

/-! ### Changes of the prefix arm -/

structure PrefixArmChange where
  lake : TagLake
  signalTags : List String
  deriving DecidableEq

structure PrefixArmChanges where
  leaves : List PrefixArmChange
  joins : List PrefixArmChange
  deriving DecidableEq

structure PrefixArmDiffInput where
  fileOwnerUserId : Option String
  currentTagNames : List String
  resultingTagNames : List String

section Arm
variable (casing : Casing) (lakes : List TagLake)

def loadPrefixArmCandidateLakes (fileOwnerUserId : Option String) : List TagLake :=
  if blank fileOwnerUserId then [] else lakes.filter fun lake => some lake.createdByUserId == fileOwnerUserId

/-- No lake is read when no changed name could carry a prefix arm. -/
def resolveCandidates (input : PrefixArmDiffInput) : List TagLake :=
  let current := distinct input.currentTagNames
  let resulting := distinct input.resultingTagNames
  let changed := (current ++ resulting).filter fun name => !(current.contains name && resulting.contains name)
  if changed.any (·.toList.contains ':') then loadPrefixArmCandidateLakes lakes input.fileOwnerUserId else []

/-- A lake that the file is not in by its meta-tag, before or after. -/
def armAlone (input : PrefixArmDiffInput) (lake : TagLake) : Bool :=
  some lake.createdByUserId == input.fileOwnerUserId &&
    !(input.currentTagNames.contains lake.datalakeTag || input.resultingTagNames.contains lake.datalakeTag)

def findPrefixArmChanges (input : PrefixArmDiffInput) : PrefixArmChanges :=
  let candidates := (resolveCandidates lakes input).filter (armAlone input)
  let currentSignal (lake : TagLake) := prefixArmTagNames casing input.currentTagNames lake.fileTagPrefix
  let resultingSignal (lake : TagLake) := prefixArmTagNames casing input.resultingTagNames lake.fileTagPrefix
  { leaves := (candidates.filter fun lake => !(currentSignal lake).isEmpty && (resultingSignal lake).isEmpty).map
      fun lake => ⟨lake, currentSignal lake⟩
    joins := (candidates.filter fun lake => (currentSignal lake).isEmpty && !(resultingSignal lake).isEmpty).map
      fun lake => ⟨lake, resultingSignal lake⟩ }

end Arm
end Bike4Mind.DataLakes
