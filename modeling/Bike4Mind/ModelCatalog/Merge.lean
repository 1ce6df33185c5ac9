import Bike4Mind.Collections.OrderedMap
import Bike4Mind.ModelCatalog.Record

/-! The catalog rows of a model merged, group by group, onto the seeded models. -/

namespace Bike4Mind.ModelCatalog

open Collections

structure Contributor where
  group : String
  source : String
  deriving DecidableEq

structure CatalogRow where
  modelId : String
  source : String
  ownedGroups : List String
  patch : ModelRecord
  effectiveFrom : Int
  contributors : Option (List Contributor) := none

def DISPATCHABLE_ADAPTER_FAMILIES : List String :=
  ["anthropic-messages", "openai-chat", "openai-responses", "bedrock-anthropic", "bedrock-llama", "bedrock-deepseek", "bedrock-moonshot",
    "bedrock-jurassic", "bedrock-titan", "bedrock-converse", "gemini", "xai", "kimi", "deepseek", "ollama", "bfl", "local-image", "aws"]

def SOURCE_PRECEDENCE : List (String × Nat) := [("operator", 3), ("discovery", 2), ("seed", 1)]

def PRESENTATION_PRECEDENCE : List (String × Nat) := [("operator", 3), ("seed", 2), ("discovery", 1)]

/-- The rank of a source in a group; a source this build does not know has none. -/
def precedenceOf (group : FieldGroup) (source : String) : Nat :=
  ((if group = .presentation then PRESENTATION_PRECEDENCE else SOURCE_PRECEDENCE).lookup source).getD 0

def outranks (candidate incumbent : CatalogRow) (group : FieldGroup) : Bool :=
  let candidateRank := precedenceOf group candidate.source
  let incumbentRank := precedenceOf group incumbent.source
  if candidateRank ≠ incumbentRank then decide (candidateRank > incumbentRank)
  else decide (candidate.effectiveFrom > incumbent.effectiveFrom)

namespace CatalogRow

def owns (row : CatalogRow) (group : FieldGroup) : Bool := row.ownedGroups.any fun name => fieldGroup? name = some group

def lifecycleStatus (row : CatalogRow) : Option String := (asLifecycle (row.patch .lifecycle)).bind (·.status)

def inventsDisable (row : CatalogRow) : Bool :=
  isTrue (row.patch .autoDisabled) &&
    match (row.contributors.getD []).find? (·.group = "availability") with
    | some availability => availability.source = "discovery"
    | none => (asText (row.patch .autoDisabledReason)).any fun reason => reason ≠ "" && isDiscoveryVerdict reason

def namesItself (row : CatalogRow) : Bool := asText (row.patch .name) = some row.modelId

def isActive (row : CatalogRow) : Bool := row.lifecycleStatus = some "active"

def isIntroduction (row : CatalogRow) : Bool :=
  row.source = "discovery" &&
    (isTrue (row.patch .autoDisabled) || (row.ownedGroups.contains "lifecycle" && row.lifecycleStatus = some "discovered"))

def yieldsToCuration (row : CatalogRow) (group : FieldGroup) : Bool :=
  row.source = "discovery" &&
    match group with
    | .availability => row.inventsDisable
    | .identity => row.isIntroduction || row.namesItself
    | .limits => row.isIntroduction && (asNumber (row.patch .contextWindow) = some 0 || !row.isActive)
    | _ => false

def claimsGroup (row : CatalogRow) (name : String) : Bool := row.source ≠ "operator" && row.ownedGroups.contains name

end CatalogRow

/-! ### One model's rows -/

def displacesStatus (held : Option String) (candidate : String) : Bool :=
  match lifecycleStatusRank (some candidate) with
  | none => false
  | some rank =>
    match lifecycleStatusRank held with
    | some heldRank => decide (heldRank < rank)
    | none => held = none || candidate ∈ LIFECYCLE_SUNSET_STATUSES

/-- The earlier of two dates, each the text of a calendar date. -/
def earlier (current date : Option String) : Option String :=
  match date, current with
  | some date, some current => if date < current then some date else some current
  | some date, none => some date
  | none, current => current

def foldStatus (held candidate : Option String) : Option String :=
  match candidate with
  | some candidate => if displacesStatus held candidate then some candidate else held
  | none => held

def foldedLifecycle (folded lifecycle : Lifecycle) : Lifecycle :=
  { folded with
    isSuperseded := if lifecycle.isSuperseded = some true then some true else folded.isSuperseded
    deprecationDate := earlier folded.deprecationDate lifecycle.deprecationDate
    retirementDate := earlier folded.retirementDate lifecycle.retirementDate
    status := foldStatus folded.status lifecycle.status }

def statedLifecycles (bucket : List CatalogRow) (base : Option ModelRecord) : List Lifecycle :=
  (base.bind fun base => asLifecycle (base .lifecycle)).toList ++
    (bucket.filter (·.claimsGroup "lifecycle")).filterMap fun row => asLifecycle (row.patch .lifecycle)

def setKey (draft : ModelRecord) (key : RecordKey) (value : Option Value) : ModelRecord := Function.update draft key value

def foldLifecycle (draft : ModelRecord) (bucket : List CatalogRow) (base : Option ModelRecord) (winner : Option CatalogRow) : ModelRecord :=
  match winner with
  | none => draft
  | some winner =>
    let lifecycles := statedLifecycles bucket base
    if winner.source = "operator" ∨ lifecycles = [] then draft
    else setKey draft .lifecycle (some (.lifecycle (lifecycles.foldl foldedLifecycle ((asLifecycle (draft .lifecycle)).getD {}))))

/-- The row a scan keeps that lets a later one take its place only where it outranks it. -/
def foremost (group : FieldGroup) (rows : List CatalogRow) : Option CatalogRow :=
  rows.foldl (fun held row =>
    match held with
    | none => some row
    | some incumbent => if outranks row incumbent group then some row else some incumbent) none

def disablerOf (bucket : List CatalogRow) : Option CatalogRow :=
  foremost .availability (bucket.filter fun row => row.claimsGroup "availability" && isTrue (row.patch .disabled))

def keepDisable (draft : ModelRecord) (bucket : List CatalogRow) (base : Option ModelRecord) (winner : Option CatalogRow) : ModelRecord :=
  match winner with
  | none => draft
  | some winner =>
    if winner.source = "operator" ∨ isTrue (draft .disabled) then draft
    else
      let disabler := disablerOf bucket
      if disabler.isNone ∧ !isTrue (base.bind (· .disabled)) then draft
      else
        let reason := match disabler with
          | some disabler => disabler.patch .disabledReason
          | none => base.bind (· .disabledReason)
        setKey (setKey draft .disabled (some (.flag true))) .disabledReason ((asText reason).map .text)

/-- A row against the winners so far, for one of the groups it names. -/
def contend (curated : Bool) (row : CatalogRow) (winners : OrderedMap FieldGroup CatalogRow) (name : String) : OrderedMap FieldGroup CatalogRow :=
  match fieldGroup? name with
  | none => winners
  | some group =>
    if curated && row.yieldsToCuration group then winners
    else
      match winners.get? group with
      | none => winners.set group row
      | some incumbent => if outranks row incumbent group then winners.set group row else winners

def winnersOf (curated : Bool) (bucket : List CatalogRow) : OrderedMap FieldGroup CatalogRow :=
  bucket.foldl (fun winners row => row.ownedGroups.foldl (contend curated row) winners) ∅

/-- The keys of a row's patch that belong to the group it won. -/
def applyPatch (draft : ModelRecord) (won : FieldGroup × CatalogRow) : ModelRecord := fun key =>
  if FIELD_GROUP_OF key = won.1 then (won.2.patch key).or (draft key) else draft key

structure MergedRows where
  draft : ModelRecord
  owned : FieldGroup → Bool

def mergeRows (bucket : List CatalogRow) (base : Option ModelRecord) : MergedRows :=
  let winners := winnersOf base.isSome bucket
  let draft := winners.entries.foldl applyPatch (base.getD fun _ => none)
  let draft := foldLifecycle draft bucket base (winners.get? .lifecycle)
  let draft := keepDisable draft bucket base (winners.get? .availability)
  ⟨draft, fun group => (winners.get? group).isSome⟩

/-! ### What a merged record becomes -/

/-- Why a draft cannot be rendered. -/
def unrenderable (draft : ModelRecord) : Option String :=
  let missing := ([("id", RecordKey.id), ("vendor", .vendor), ("name", .name)].filter fun key => (truthyText (draft key.2)).isNone).map Prod.fst ++
    (if (asNumber (draft .contextWindow)).isNone then ["contextWindow"] else [])
  if missing ≠ [] then some ("incomplete record: missing " ++ ", ".intercalate missing)
  else if ((asText (draft .backend)).any (· ∈ MODEL_BACKENDS)) = false then
    some ("unknown backend \"" ++ (asText (draft .backend)).getD "undefined" ++ "\"")
  else if ((asText (draft .type)).any (· ∈ ["text", "image", "speech-to-text", "video"])) = false then
    some ("unsupported model type \"" ++ (asText (draft .type)).getD "undefined" ++ "\"")
  else none

def statusOf (draft : ModelRecord) : Option String := (asLifecycle (draft .lifecycle)).bind (·.status)

def inactiveLifecycleReason (status : Option String) : Option String :=
  if status ≠ some "active" then some ("lifecycle status \"" ++ status.getD "unset" ++ "\" is not invocable") else none

def invocabilityBlocker (record : ModelRecord) : Option String :=
  match inactiveLifecycleReason (statusOf record) with
  | some reason => some reason
  | none =>
    match truthyText (record .adapterFamily) with
    | none => some "no adapterFamily"
    | some family =>
      if family ∉ DISPATCHABLE_ADAPTER_FAMILIES then some ("adapterFamily \"" ++ family ++ "\" is not dispatchable by this build")
      else if record .dispatchProfile = none then some "no dispatchProfile"
      else if isDedicatedApiModel ((asText (record .id)).getD "undefined") then
        some "needs a dedicated API or a mandatory tool; not callable as a plain text model"
      else none

def overlayOwnedGroups (base : ModelInfo) (record : ModelRecord) (owned : FieldGroup → Bool) : ModelInfo :=
  let derived := toModelInfo record
  Function.update (fun key => if (MODEL_INFO_FIELD_GROUP_OF key).any owned then derived key else base key) .pricing (base .pricing)

structure CatalogMergeDrop where
  modelId : String
  reason : String
  deriving DecidableEq

structure CatalogMergeResult where
  models : List ModelInfo
  dropped : List CatalogMergeDrop
  gated : Nat

/-- `bucketByModel`, one model's rows at a time. -/
def bucketOf (rows : List CatalogRow) (modelId : String) : List CatalogRow := rows.filter (·.modelId = modelId)

/-- The models the rows name, in the order they first do. -/
def rowModels (rows : List CatalogRow) : List String :=
  rows.foldl (fun seen row => if row.modelId ∈ seen then seen else seen ++ [row.modelId]) []

/-- What a seeded model is served as, and the drop its rows cost. -/
def mergeSeeded (rows : List CatalogRow) (base : ModelInfo) : ModelInfo × Option CatalogMergeDrop :=
  let modelId := modelIdOf base
  let bucket := bucketOf rows modelId
  if bucket.isEmpty then (base, none)
  else
    let merged := mergeRows bucket (some (toModelRecord base))
    match unrenderable merged.draft with
    | some reason => (base, some ⟨modelId, reason ++ "; kept the adapter record"⟩)
    | none =>
      match truthyText (merged.draft .adapterFamily) with
      | some family =>
        if merged.owned .dispatch && family ∉ DISPATCHABLE_ADAPTER_FAMILIES then
          (overlayOwnedGroups base merged.draft (fun group => group ≠ .dispatch && merged.owned group),
            some ⟨modelId, "adapterFamily \"" ++ family ++ "\" is not dispatchable by this build; kept the adapter dispatch"⟩)
        else (overlayOwnedGroups base merged.draft merged.owned, none)
      | none => (overlayOwnedGroups base merged.draft merged.owned, none)

inductive CatalogOnly where
  | dropped (reason : String)
  | gated
  | served (model : ModelInfo)

/-- What becomes of a model that only catalog rows name. -/
def mergeCatalogOnly (rows : List CatalogRow) (ctx : BackendGateContext) (modelId : String) : CatalogOnly :=
  let draft := (mergeRows (bucketOf rows modelId) none).draft
  match inactiveLifecycleReason (statusOf draft) with
  | some reason => .dropped reason
  | none =>
    match unrenderable draft with
    | some reason => .dropped reason
    | none =>
      match invocabilityBlocker draft with
      | some reason => .dropped reason
      | none => if isBackendUsable ((asText (draft .backend)).getD "undefined") ctx then .served (toModelInfo draft) else .gated

def CatalogOnly.drop? (modelId : String) : CatalogOnly → Option CatalogMergeDrop
  | dropped reason => some ⟨modelId, reason⟩
  | _ => none

def CatalogOnly.model? : CatalogOnly → Option ModelInfo
  | served model => some model
  | _ => none

def CatalogOnly.isGated : CatalogOnly → Bool
  | gated => true
  | _ => false

/-- The models that only the catalog knows, in the order of its rows. -/
def unseeded (seedModels : List ModelInfo) (rows : List CatalogRow) : List String :=
  (rowModels rows).filter (· ∉ seedModels.map modelIdOf)

def gatedModels (seedModels : List ModelInfo) (rows : List CatalogRow) (ctx : BackendGateContext) : List String :=
  (unseeded seedModels rows).filter fun modelId => (mergeCatalogOnly rows ctx modelId).isGated

def mergeCatalogWithDrops (seedModels : List ModelInfo) (rows : List CatalogRow) (ctx : BackendGateContext) : CatalogMergeResult :=
  if rows.isEmpty then ⟨seedModels, [], 0⟩
  else
    let extra := unseeded seedModels rows
    { models := seedModels.map (fun base => (mergeSeeded rows base).1) ++ extra.filterMap fun modelId => (mergeCatalogOnly rows ctx modelId).model?
      dropped := seedModels.filterMap (fun base => (mergeSeeded rows base).2) ++
        extra.filterMap fun modelId => (mergeCatalogOnly rows ctx modelId).drop? modelId
      gated := (gatedModels seedModels rows ctx).length }

end Bike4Mind.ModelCatalog
