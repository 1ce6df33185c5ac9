import Bike4Mind.Collections.Chains
import Bike4Mind.Collections.Foremost
import Bike4Mind.Collections.OrderedMap
import Bike4Mind.Texts.Utf16
import Mathlib.Data.Prod.Lex
import Mathlib.Order.WithBot

/-! Which of the scoped files are superseded, by a curator's ruling or by a newer generation. -/

namespace Bike4Mind.Supersession
open Collections

inductive SourceIdentityTier where
  | driveFileId
  | relativePath
  | fileName
  deriving DecidableEq

inductive SupersessionTier where
  | source (tier : SourceIdentityTier)
  | curator
  deriving DecidableEq

/-- What `createdAt` holds, by the time it stands for. -/
inductive CreatedAt where
  | missing
  | invalid
  | at_ (millis : Int)
  deriving DecidableEq

structure LakeSupersession where
  dataLakeId : String
  supersededByFabFileId : String
  deriving DecidableEq

structure SupersedableFile where
  id : String
  fileName : Option String := none
  fileTags : Option (List String) := none
  userId : Option String := none
  relativePath : Option String := none
  driveFileId : Option String := none
  createdAt : CreatedAt := .missing
  supersededInLakes : List LakeSupersession := []
  deriving DecidableEq

structure SourceIdentity where
  key : String
  tier : SourceIdentityTier
  deriving DecidableEq

/-- The files in scope, each under its own id. -/
structure ScopedFiles where
  files : List SupersedableFile
  distinct : (files.map (·.id)).Nodup

/-- `-Infinity` for a file without a time. -/
def createdAtMillis (file : SupersedableFile) : WithBot Int :=
  match file.createdAt with
  | .at_ millis => (millis : WithBot Int)
  | _ => ⊥

-- The order that runs, whichever other one is imported.
scoped instance instPreorderMillis : Preorder Int := Int.instLinearOrder.toPreorder

def winsOver (candidate incumbent : SupersedableFile) : Bool :=
  let a := createdAtMillis candidate
  let b := createdAtMillis incumbent
  if a ≠ b then decide (a > b) else decide (Texts.codeUnits candidate.id < Texts.codeUnits incumbent.id)

def filesById (files : List SupersedableFile) : OrderedMap String SupersedableFile := files.foldl (fun byId file => byId.set file.id file) ∅

/-- `file.supersededInLakes?.find(r => r.dataLakeId === lakeId)` -/
def rulingIn (file : SupersedableFile) (lakeId : String) : Option String :=
  (file.supersededInLakes.find? (·.dataLakeId = lakeId)).map (·.supersededByFabFileId)

/-- Where the walk along the rulings of one lake goes next; an empty id ends it. -/
def nextRuled (byId : OrderedMap String SupersedableFile) (lakeId id : String) : Option String :=
  ((byId.get? id).bind (rulingIn · lakeId)).filter (· ≠ "")

def resolveRuling (file : SupersedableFile) (lakeId : String) (byId : OrderedMap String SupersedableFile) : Option String :=
  match rulingIn file lakeId with
  | none => none
  | some winner =>
    if byId.get? winner = none then none
    else if walkEnds (nextRuled byId lakeId) byId.keys.length [file.id] (if winner = "" then none else some winner) then some winner else none

structure SupersededEntry where
  file : SupersedableFile
  tier : SupersessionTier
  supersededBy : String
  deriving DecidableEq

structure Keyed where
  file : SupersedableFile
  identity : Option SourceIdentity
  ruledBy : Option String

section Partition
variable (attributeFileToLakeIds : SupersedableFile → List String)
  (sourceIdentityKeyFor : SupersedableFile → String → Option SourceIdentity) (identityTiers : Bool)

/-- The one lake that a file belongs to. -/
def owningLake (file : SupersedableFile) : Option String :=
  match attributeFileToLakeIds file with
  | [lakeId] => if lakeId = "" then none else some lakeId
  | _ => none

def ruledBy (files : List SupersedableFile) (file : SupersedableFile) : Option String :=
  ((owningLake attributeFileToLakeIds file).bind fun lakeId => resolveRuling file lakeId (filesById files)).filter (· ≠ "")

def keyed (files : List SupersedableFile) (file : SupersedableFile) : Keyed where
  file := file
  identity :=
    if ruledBy attributeFileToLakeIds files file = none ∧ identityTiers then
      (owningLake attributeFileToLakeIds file).bind (sourceIdentityKeyFor file)
    else none
  ruledBy := ruledBy attributeFileToLakeIds files file

def crowned (winners : OrderedMap String SupersedableFile) (entry : Keyed) : OrderedMap String SupersedableFile :=
  match entry.identity with
  | none => winners
  | some identity =>
    match winners.get? identity.key with
    | none => winners.set identity.key entry.file
    | some incumbent => if winsOver entry.file incumbent then winners.set identity.key entry.file else winners

/-- The entry of a file that is superseded. -/
def verdict (winners : OrderedMap String SupersedableFile) (entry : Keyed) : Option SupersededEntry :=
  match entry.ruledBy with
  | some winner => some { file := entry.file, tier := .curator, supersededBy := winner }
  | none =>
    match entry.identity with
    | none => none
    | some identity =>
      match winners.get? identity.key with
      | none => none
      | some winner =>
        if winner.id = entry.file.id then none
        else some { file := entry.file, tier := .source identity.tier, supersededBy := winner.id }

structure Partition where
  servable : List SupersedableFile
  superseded : List SupersededEntry

def partitionBySupersession (files : List SupersedableFile) : Partition :=
  let entries := files.map (keyed attributeFileToLakeIds sourceIdentityKeyFor identityTiers files)
  let winners := entries.foldl crowned ∅
  { servable := (entries.filter (verdict winners · = none)).map (·.file)
    superseded := entries.filterMap (verdict winners) }

end Partition

end Bike4Mind.Supersession
