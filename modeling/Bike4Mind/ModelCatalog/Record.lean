import Mathlib.Algebra.Order.Ring.Rat
import Bike4Mind.Texts.CodeUnits

/-! Model records and the `ModelInfo` they render to, with the field groups of both. -/

namespace Bike4Mind.ModelCatalog

inductive FieldGroup where
  | identity
  | limits
  | reasoning
  | sampling
  | modalities
  | caching
  | lifecycle
  | presentation
  | dispatch
  | availability
  deriving DecidableEq

def FIELD_GROUPS : List (String × FieldGroup) :=
  [("identity", .identity), ("limits", .limits), ("reasoning", .reasoning), ("sampling", .sampling), ("modalities", .modalities),
    ("caching", .caching), ("lifecycle", .lifecycle), ("presentation", .presentation), ("dispatch", .dispatch), ("availability", .availability)]

/-- `isFieldGroup`, with the group it narrows the name to. -/
def fieldGroup? (name : String) : Option FieldGroup := FIELD_GROUPS.lookup name

structure Lifecycle where
  isSuperseded : Option Bool := none
  status : Option String := none
  deprecationDate : Option String := none
  retirementDate : Option String := none
  replacedBy : Option String := none
  deriving DecidableEq

structure Reasoning where
  supported : Option Bool := none
  style : Option String := none
  effortIncompatibleWithTools : Option Bool := none
  deriving DecidableEq

/-- A value of a record, in the shape the read schema leaves it. -/
inductive Value where
  | flag (on : Bool)
  | number (amount : Rat)
  | text (content : String)
  | lifecycle (stages : Lifecycle)
  | reasoning (support : Reasoning)
  /-- An object that is only ever copied. -/
  | stored (content : String)
  deriving DecidableEq

def asText : Option Value → Option String
  | some (.text content) => some content
  | _ => none

def asNumber : Option Value → Option Rat
  | some (.number amount) => some amount
  | _ => none

def asLifecycle : Option Value → Option Lifecycle
  | some (.lifecycle stages) => some stages
  | _ => none

def asReasoning : Option Value → Option Reasoning
  | some (.reasoning support) => some support
  | _ => none

/-- `value === true` -/
def isTrue : Option Value → Bool
  | some (.flag on) => on
  | _ => false

/-- The text behind `value ? … : …`; an empty one counts as none. -/
def truthyText (value : Option Value) : Option String := (asText value).filter (· ≠ "")

inductive RecordKey where
  | id | vendor | backend | type | name
  | contextWindow | maxOutputTokens
  | reasoning
  | temperatureMode | fixedTemperature | supportsTopP
  | canStream | supportsVision | supportsTools | supportsStructuredOutput | supportsPdfInput | supportsImageVariation
  | supportsSafetyTolerance | imageSizes
  | promptCaching
  | lifecycle
  | description | logoFile | rank | isSlowModel | trainingCutoff | releaseDate
  | adapterFamily | dispatchProfile | refusalFallback
  | disabled | disabledReason | autoDisabled | autoDisabledReason | isPrivate | freeToRun
  deriving DecidableEq

/-- A record, whole or sparse; a key without a value is undefined. -/
abbrev ModelRecord := RecordKey → Option Value

def FIELD_GROUP_OF : RecordKey → FieldGroup
  | .id | .vendor | .backend | .type | .name => .identity
  | .contextWindow | .maxOutputTokens => .limits
  | .reasoning => .reasoning
  | .temperatureMode | .fixedTemperature | .supportsTopP => .sampling
  | .canStream | .supportsVision | .supportsTools | .supportsStructuredOutput | .supportsPdfInput | .supportsImageVariation
  | .supportsSafetyTolerance | .imageSizes => .modalities
  | .promptCaching => .caching
  | .lifecycle => .lifecycle
  | .description | .logoFile | .rank | .isSlowModel | .trainingCutoff | .releaseDate => .presentation
  | .adapterFamily | .dispatchProfile | .refusalFallback => .dispatch
  | .disabled | .disabledReason | .autoDisabled | .autoDisabledReason | .isPrivate | .freeToRun => .availability

inductive ModelInfoKey where
  | id | type | name | backend
  | contextWindow | max_tokens | maxOutputTokensDerived
  | can_think | thinkingStyle | openaiReasoningEffort | effortIncompatibleWithTools
  | can_stream | supportsVision | supportsTools | supportsImageVariation | supportsSafetyTolerance
  | isSuperseded | deprecationDate | replacedBy
  | adapterFamily | dispatchProfile
  | description | logoFile | rank | isSlowModel | trainingCutoff | releaseDate
  | isPrivate | freeToRun | disabled | disabledReason
  | pricing | priceSource | priceRowId | image | access
  deriving DecidableEq

abbrev ModelInfo := ModelInfoKey → Option Value

/-- No group for what never comes from a catalog row. -/
def MODEL_INFO_FIELD_GROUP_OF : ModelInfoKey → Option FieldGroup
  | .id | .type | .name | .backend => some .identity
  | .contextWindow | .max_tokens | .maxOutputTokensDerived => some .limits
  | .can_think | .thinkingStyle | .openaiReasoningEffort | .effortIncompatibleWithTools => some .reasoning
  | .can_stream | .supportsVision | .supportsTools | .supportsImageVariation | .supportsSafetyTolerance => some .modalities
  | .isSuperseded | .deprecationDate | .replacedBy => some .lifecycle
  | .adapterFamily | .dispatchProfile => some .dispatch
  | .description | .logoFile | .rank | .isSlowModel | .trainingCutoff | .releaseDate => some .presentation
  | .isPrivate | .freeToRun | .disabled | .disabledReason => some .availability
  | .pricing | .priceSource | .priceRowId | .image | .access => none

def modelIdOf (info : ModelInfo) : String := (asText (info .id)).getD "undefined"

/-! ### Lifecycle -/

def LIFECYCLE_STATUS_ORDER : List String := ["discovered", "active", "legacy", "deprecated", "retired"]

def LIFECYCLE_SUNSET_STATUSES : List String := ["legacy", "deprecated", "retired"]

def lifecycleStatusRank (status : Option String) : Option Nat :=
  status.bind fun status => if status ∈ LIFECYCLE_STATUS_ORDER then some (LIFECYCLE_STATUS_ORDER.idxOf status) else none

def DISCOVERY_VERDICT_PREFIX : String := "discovered, "

def isDiscoveryVerdict (reason : String) : Bool := DISCOVERY_VERDICT_PREFIX.toList.isPrefixOf reason.toList

/-! ### Vendors -/

def BEDROCK_REGIONS : List String := ["us.", "eu.", "apac.", "global."]

def stripBedrockRegionPrefix (modelId : String) : List Char :=
  match BEDROCK_REGIONS.find? fun region => region.toList.isPrefixOf modelId.toList with
  | some region => modelId.toList.drop region.length
  | none => modelId.toList

def VENDOR_BY_BACKEND : List (String × String) :=
  [("openai", "openai"), ("anthropic", "anthropic"), ("gemini", "google"), ("xai", "xai"), ("kimi", "moonshotai"),
    ("deepseek", "deepseek"), ("bfl", "black-forest-labs"), ("aws", "amazon"), ("voyageai", "voyageai"), ("ollama", "ollama"),
    ("openai-compatible", "local"), ("local-image", "local"), ("bedrock", "amazon")]

def BEDROCK_VENDOR_ALIASES : List (String × String) := [("moonshot", "moonshotai")]

/-- The maker that a Bedrock id names before its first dot. -/
def bedrockVendor? (modelId : String) : Option String :=
  let withoutRegion := stripBedrockRegionPrefix modelId
  let vendor := withoutRegion.takeWhile (· ≠ '.')
  if vendor = [] ∨ '.' ∉ withoutRegion then none
  else some ((BEDROCK_VENDOR_ALIASES.lookup (String.ofList vendor)).getD (String.ofList vendor))

def inferVendor (info : ModelInfo) : String :=
  let backend := (asText (info .backend)).getD "undefined"
  let direct := (VENDOR_BY_BACKEND.lookup backend).getD backend
  if backend = "bedrock" then (bedrockVendor? (modelIdOf info)).getD direct else direct

/-! ### Models that need an interface of their own -/

def isSeparator (c : Char) : Bool :=
  c ∈ ['-', '_', '.', ':', '/'] || (c.toNat < 0x10000 && Texts.isSpace (UInt16.ofNat c.toNat))

def dedicatedWordAt (text : List Char) : Bool :=
  ["deep-research", "computer-use"].any fun word =>
    word.toList.isPrefixOf (text.map Char.toLower) && (text.drop word.length).head?.all isSeparator

def dedicatedWordFrom : (boundary : Bool) → List Char → Bool
  | _, [] => false
  | boundary, c :: rest => (boundary && dedicatedWordAt (c :: rest)) || dedicatedWordFrom (isSeparator c) rest

def isDedicatedApiModel (modelId : String) : Bool := dedicatedWordFrom true modelId.toList

/-! ### From a `ModelInfo` to a record and back -/

def fromThinkingStyle (info : ModelInfo) : Option String :=
  if asText (info .thinkingStyle) = some "adaptive" then some "anthropic-adaptive"
  else if asText (info .thinkingStyle) = some "legacy" then some "anthropic-legacy"
  else if isTrue (info .openaiReasoningEffort) then some "openai-effort"
  else none

def flag? : Option Value → Option Bool
  | some (.flag on) => some on
  | _ => none

def reasoningOf (info : ModelInfo) : Option Value :=
  if info .can_think = none ∧ info .thinkingStyle = none ∧ info .openaiReasoningEffort = none ∧ info .effortIncompatibleWithTools = none then none
  else some (.reasoning ⟨some (isTrue (info .can_think)), fromThinkingStyle info, flag? (info .effortIncompatibleWithTools)⟩)

def lifecycleOf (info : ModelInfo) : Lifecycle :=
  { isSuperseded := flag? (info .isSuperseded)
    status := if (truthyText (info .deprecationDate)).isSome then some "deprecated" else some "active"
    deprecationDate := truthyText (info .deprecationDate)
    replacedBy := truthyText (info .replacedBy) }

def toModelRecord (info : ModelInfo) : ModelRecord
  | .id => info .id
  | .vendor => some (.text (inferVendor info))
  | .backend => info .backend
  | .type => info .type
  | .name => info .name
  | .contextWindow => info .contextWindow
  | .maxOutputTokens => if isTrue (info .maxOutputTokensDerived) then none else info .max_tokens
  | .canStream => info .can_stream
  | .reasoning => reasoningOf info
  | .adapterFamily => info .adapterFamily
  | .dispatchProfile => info .dispatchProfile
  | .supportsVision => info .supportsVision
  | .supportsTools => info .supportsTools
  | .supportsImageVariation => info .supportsImageVariation
  | .supportsSafetyTolerance => info .supportsSafetyTolerance
  | .lifecycle => some (.lifecycle (lifecycleOf info))
  | .description => info .description
  | .logoFile => info .logoFile
  | .rank => info .rank
  | .isSlowModel => info .isSlowModel
  | .trainingCutoff => info .trainingCutoff
  | .releaseDate => info .releaseDate
  | .isPrivate => info .isPrivate
  | .freeToRun => info .freeToRun
  | .disabled => info .disabled
  | .disabledReason => info .disabledReason
  | _ => none

def DEFAULT_MAX_OUTPUT_TOKENS : Rat := 4096

def toThinkingStyle (record : ModelRecord) : Option Value :=
  match (asReasoning (record .reasoning)).bind (·.style) with
  | some "anthropic-adaptive" => some (.text "adaptive")
  | some "anthropic-legacy" => some (.text "legacy")
  | _ => none

def retired (record : ModelRecord) : Bool := (asLifecycle (record .lifecycle)).bind (·.status) = some "retired"

def toModelInfo (record : ModelRecord) : ModelInfo
  | .id => record .id
  | .type => record .type
  | .name => record .name
  | .backend => record .backend
  | .contextWindow => record .contextWindow
  | .max_tokens =>
    (record .maxOutputTokens).or ((asNumber (record .contextWindow)).map fun window => .number (min window DEFAULT_MAX_OUTPUT_TOKENS))
  | .maxOutputTokensDerived => if record .maxOutputTokens = none then some (.flag true) else none
  | .pricing => some (.stored "\x7b\x7d")
  | .can_stream => record .canStream
  | .can_think => some (.flag (((asReasoning (record .reasoning)).bind (·.supported)).getD false))
  | .thinkingStyle => toThinkingStyle record
  | .openaiReasoningEffort =>
    (asReasoning (record .reasoning)).bind fun reasoning =>
      if reasoning.supported = some true ∧ reasoning.style = some "openai-effort" then some (.flag true) else none
  | .effortIncompatibleWithTools => ((asReasoning (record .reasoning)).bind (·.effortIncompatibleWithTools)).map .flag
  | .adapterFamily => record .adapterFamily
  | .dispatchProfile => record .dispatchProfile
  | .supportsVision => record .supportsVision
  | .supportsTools => record .supportsTools
  | .supportsImageVariation => (record .supportsImageVariation).or (some (.flag false))
  | .supportsSafetyTolerance => record .supportsSafetyTolerance
  | .freeToRun => record .freeToRun
  | .isPrivate => (record .isPrivate).or (some (.flag false))
  | .disabled => some (.flag (isTrue (record .disabled) || isTrue (record .autoDisabled) || retired record))
  | .disabledReason =>
    ((record .disabledReason).or (record .autoDisabledReason)).or (if retired record then some (.text "retired by the provider") else none)
  | .isSuperseded => ((asLifecycle (record .lifecycle)).bind (·.isSuperseded)).map .flag
  | .deprecationDate => ((asLifecycle (record .lifecycle)).bind (·.deprecationDate)).map .text
  | .replacedBy => ((asLifecycle (record .lifecycle)).bind (·.replacedBy)).map .text
  | .trainingCutoff => record .trainingCutoff
  | .releaseDate => record .releaseDate
  | .logoFile => record .logoFile
  | .rank => record .rank
  | .description => record .description
  | .isSlowModel => record .isSlowModel
  | .priceSource | .priceRowId | .image | .access => none

/-! ### Backends a caller can reach -/

inductive ListingKind where
  | awsBedrock
  | awsHosted
  | keyed
  | unlisted
  deriving DecidableEq

def LISTING_KIND : List (String × ListingKind) :=
  [("bedrock", .awsBedrock), ("aws", .awsHosted), ("openai", .keyed), ("anthropic", .keyed), ("gemini", .keyed), ("ollama", .keyed),
    ("openai-compatible", .unlisted), ("bfl", .keyed), ("xai", .keyed), ("kimi", .keyed), ("deepseek", .keyed), ("local-image", .keyed),
    ("voyageai", .unlisted)]

def MODEL_BACKENDS : List String :=
  ["openai", "bedrock", "anthropic", "gemini", "ollama", "openai-compatible", "bfl", "xai", "kimi", "deepseek", "voyageai", "aws", "local-image"]

inductive ApiKey where
  | text (key : String)
  | symbol
  deriving DecidableEq

structure BackendGateContext where
  apiKeys : Option (String → Option ApiKey)
  isSelfHost : Bool
  bedrockReachable : Bool
  /-- `IMAGE_GEN_BASE_URL` of the process -/
  imageGenBaseUrl : Option String

def usableKey (ctx : BackendGateContext) (backend : String) : Option ApiKey :=
  (ctx.apiKeys.bind (· backend)).filter (· ≠ .text "")

def resolveListingKey (backend : String) (ctx : BackendGateContext) : Option ApiKey :=
  if backend = "local-image" then
    let envUrl := if ctx.isSelfHost then (ctx.imageGenBaseUrl.filter (· ≠ "")).map .text else none
    (usableKey ctx backend).or envUrl
  else usableKey ctx backend

def isBackendUsable (backend : String) (ctx : BackendGateContext) : Bool :=
  match (LISTING_KIND.lookup backend).getD .unlisted with
  | .awsBedrock => ctx.bedrockReachable
  | .awsHosted => !ctx.isSelfHost
  | .unlisted => false
  | .keyed => (resolveListingKey backend ctx).isSome

end Bike4Mind.ModelCatalog
