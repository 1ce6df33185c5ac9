import Bike4Mind.DataLakes.MembershipAgrees
import Bike4Mind.Texts.LowerCase
import Bike4Mind.Texts.Utf16

/-! The content tag that a file gets for each of its lakes. -/

namespace Bike4Mind.DataLakes
open Collections

def UNCATEGORIZED_TAG_SUFFIX : String := "uncategorized"

def LAKE_CONTENT_TAG_STRENGTH : ℚ := 1

/-- The runtime's string operations. -/
def tableCasing (table : Texts.CaseTable) : Casing := runtimeCasing table.toLowerCase

def reachesMetaNamespace (casing : Casing) (tagPrefix : String) : Bool :=
  startsWith (casing.toLowerCase (casing.trim tagPrefix)) DATALAKE_TAG_PREFIX

/-- A prefix under which tags may be minted. -/
structure StampPrefix (casing : Casing) where
  text : String
  usable : UsablePrefix text
  outside : reachesMetaNamespace casing text = false

def placeholder (tagPrefix : String) : String := tagPrefix ++ UNCATEGORIZED_TAG_SUFFIX

/-- Whether a name is a category under the prefix. -/
def isContentName (casing : Casing) (tagPrefix name : String) : Bool :=
  startsWith name tagPrefix && decide (name.length > tagPrefix.length) && !startsWith (casing.toLowerCase name) DATALAKE_TAG_PREFIX

def satisfiesTagPrefix (casing : Casing) (tagNames : List (Option String)) (tagPrefix : String) : Bool :=
  tagNames.any fun name => name.any (isContentName casing tagPrefix)

def extractDataLakeMetaTags (casing : Casing) (tagNames : List (Option String)) : List String :=
  distinct (((tagNames.filterMap id).map casing.toLowerCase).filter (startsWith · DATALAKE_TAG_PREFIX))

namespace FallbackTags

def names (tags : List FileTag) : List (Option String) := tags.map (·.name)

def stamp (tagPrefix : String) : FileTag := { name := some (placeholder tagPrefix), strength := some LAKE_CONTENT_TAG_STRENGTH }

variable (casing : Casing) (resolve : String → Option (StampPrefix casing))

def metaTags (tags : List FileTag) : List String := extractDataLakeMetaTags casing (names tags)

def departed (tags previousTags : List FileTag) : List String := (metaTags casing previousTags).filter (· ∉ metaTags casing tags)

def currentPrefixes (tags : List FileTag) : List String := distinct ((metaTags casing tags).filterMap fun tag => (resolve tag).map (·.text))

def retractions (tags previousTags : List FileTag) : List String :=
  distinct ((departed casing tags previousTags).filterMap fun tag =>
    match resolve tag with
    | none => none
    | some resolved => if resolved.text ∈ currentPrefixes casing resolve tags then none else some (placeholder resolved.text))

/-- The loop over the prefixes, after what is kept. -/
def added (kept additions : List FileTag) : List String → List FileTag
  | [] => additions
  | tagPrefix :: rest =>
    if satisfiesTagPrefix casing (names (kept ++ additions)) tagPrefix then added kept additions rest
    else added kept (additions ++ [stamp tagPrefix]) rest

/-- `createDataLakeFallbackTagger`, once its lakes are resolved -/
def reconcile (tags previousTags : List FileTag) : List FileTag :=
  if metaTags casing tags = [] ∧ departed casing tags previousTags = [] then tags
  else
    let retracted := retractions casing resolve tags previousTags
    let kept := if retracted ≠ [] then tags.filter fun tag => !tag.name.any (· ∈ retracted) else tags
    let additions := added casing kept [] (Texts.sorted (currentPrefixes casing resolve tags))
    if additions = [] ∧ retracted = [] then tags else kept ++ additions

end FallbackTags

end Bike4Mind.DataLakes
