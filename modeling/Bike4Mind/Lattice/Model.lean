import Bike4Mind.Runtime

/-! The stored Lattice model and the three edits of it, each computed from the model that was read. -/

namespace Bike4Mind.Lattice

inductive PrimitiveValue where
  | number (value : JsNumber)
  | string (value : String)
  | boolean (value : Bool)
  | date (value : Time)
  | null
  deriving DecidableEq

inductive DataType where
  | number | currency | percentage | string | boolean | date | datetime
  deriving DecidableEq

structure Attribute where
  key : String
  value : PrimitiveValue
  dataType : DataType
  isComputed : Bool
  computedByRuleId : Option String := none
  deriving DecidableEq

/-- `Omit<ILatticeEntity, 'createdAt' | 'updatedAt'>` -/
structure EntityInput where
  id : String
  name : String
  attributes : List Attribute
  deriving DecidableEq

structure Entity extends EntityInput where
  createdAt : Time
  updatedAt : Time
  deriving DecidableEq

structure Relationship where
  id : String
  fromEntityId : String
  toEntityId : String
  deriving DecidableEq

structure DataStore where
  entities : List Entity
  relationships : List Relationship
  deriving DecidableEq

/-- `Omit<ILatticeRule, 'createdAt' | 'updatedAt'>` -/
structure RuleInput where
  id : String
  name : String
  dependencies : List String
  priority : Int
  enabled : Bool
  deriving DecidableEq

structure Rule extends RuleInput where
  createdAt : Time
  updatedAt : Time
  deriving DecidableEq

structure Ruleset where
  id : String
  name : String
  ruleIds : List String
  deriving DecidableEq

structure RulesStore where
  rules : List Rule
  rulesets : List Ruleset
  deriving DecidableEq

/-- What an operation did, and what undoes it. -/
inductive OperationData where
  | CREATE_ENTITY (entity : Entity)
  | SET_VALUE (entityId attributeKey : String) (value oldValue : PrimitiveValue)
  | CREATE_RULE (rule : Rule)
  deriving DecidableEq

structure Operation where
  id : String
  timestamp : Time
  data : OperationData
  description : String
  deriving DecidableEq

/-- The undo stack and the position in it. -/
@[ext] structure History where
  operations : List Operation
  operationIndex : Int
  position : -1 ≤ operationIndex ∧ operationIndex < operations.length

namespace History
variable (h : History) (operation : Operation)

/-- `operations.slice(0, operationIndex + 1)` -/
def done : List Operation := h.operations.take (h.operationIndex + 1).toNat

theorem length_done : (h.done.length : Int) = h.operationIndex + 1 := by
  have position := h.position
  simp only [done, List.length_take]
  omega

/-- The new operation takes the place of whatever was undone. -/
def push : History where
  operations := h.done ++ [operation]
  operationIndex := h.operationIndex + 1
  position := by
    have length := length_done h
    have position := h.position
    simp only [List.length_append, List.length_singleton]
    omega

theorem push_last : (h.push operation).operationIndex = (h.push operation).operations.length - 1 := by
  have length := length_done h
  simp only [push, List.length_append, List.length_singleton]
  omega

theorem done_last (last : h.operationIndex = h.operations.length - 1) : h.done = h.operations := by
  rw [done, List.take_of_length_le]
  omega

end History

structure LatticeModel extends History where
  id : String
  userId : String
  organizationId : Option String
  data : DataStore
  rules : RulesStore
  updatedAt : Time

/-- The fields of one `update`. A layer that is absent stays as it is stored. -/
structure Patch extends History where
  data : Option DataStore := none
  rules : Option RulesStore := none
  updatedAt : Time

def LatticeModel.patched (model : LatticeModel) (patch : Patch) : LatticeModel :=
  { model with
    toHistory := patch.toHistory
    data := patch.data.getD model.data
    rules := patch.rules.getD model.rules
    updatedAt := patch.updatedAt }

/-! ### The write gate -/

structure User where
  id : String
  organizationId : Option String := none
  deriving DecidableEq

def normalizeId (value : Option String) : Option String := value.filter (· ≠ "")

def isModelOwner (model : LatticeModel) (user : User) : Bool :=
  (normalizeId (some model.userId)).isSome && normalizeId (some model.userId) == normalizeId (some user.id)

def canReadModel (model : LatticeModel) (user : User) : Bool :=
  isModelOwner model user ||
    ((normalizeId model.organizationId).isSome && normalizeId model.organizationId == normalizeId user.organizationId)

/-! ### The edits -/

/-- The clock and the operation id that one call draws. -/
structure Stamp where
  now : Time
  operationId : String
  deriving DecidableEq

def PrimitiveValue.text : PrimitiveValue → String
  | .number (.finite value) => s!"{value}"
  | .number .nan => "NaN"
  | .number .infinity => "Infinity"
  | .number .negInfinity => "-Infinity"
  | .string value => value
  | .boolean value => if value then "true" else "false"
  | .date value => s!"{value}"
  | .null => "null"

/-- The data type of an attribute that did not exist before. -/
def PrimitiveValue.inferredType : PrimitiveValue → DataType
  | .number _ => .number
  | .boolean _ => .boolean
  | _ => .string

def EntityInput.created (entity : EntityInput) (now : Time) : Entity :=
  { entity with createdAt := now, updatedAt := now }

def RuleInput.created (rule : RuleInput) (now : Time) : Rule := { rule with createdAt := now, updatedAt := now }

/-- The attributes with the value set in place, or appended under a new key. -/
def setAttribute (key : String) (value : PrimitiveValue) : List Attribute → List Attribute
  | [] => [{ key, value, dataType := value.inferredType, isComputed := false }]
  | a :: rest => if a.key = key then { a with value, isComputed := false } :: rest else a :: setAttribute key value rest

def oldValue (key : String) (attributes : List Attribute) : PrimitiveValue :=
  ((attributes.find? (·.key = key)).map (·.value)).getD .null

def Entity.withValue (entity : Entity) (key : String) (value : PrimitiveValue) (now : Time) : Entity :=
  { entity with attributes := setAttribute key value entity.attributes, updatedAt := now }

/-- The first entity of that id replaced, the others as they were. -/
def replaceEntity (entityId : String) (updated : Entity) : List Entity → List Entity
  | [] => []
  | e :: rest => if e.id = entityId then updated :: rest else e :: replaceEntity entityId updated rest

inductive Edit where
  | addEntity (entity : EntityInput)
  | setValue (entityId attributeKey : String) (value : PrimitiveValue)
  | addRule (rule : RuleInput)
  deriving DecidableEq

def addEntityPatch (model : LatticeModel) (entity : EntityInput) (stamp : Stamp) : Except JsError Patch :=
  if model.data.entities.any (·.id = entity.id) then .error (.error s!"Entity with ID \"{entity.id}\" already exists")
  else
    .ok {
      toHistory := model.toHistory.push {
        id := stamp.operationId
        timestamp := stamp.now
        data := .CREATE_ENTITY (entity.created stamp.now)
        description := s!"Added entity \"{entity.name}\"" }
      data := some { model.data with entities := model.data.entities ++ [entity.created stamp.now] }
      updatedAt := stamp.now }

def setValuePatch (model : LatticeModel) (entityId attributeKey : String) (value : PrimitiveValue) (stamp : Stamp) :
    Except JsError Patch :=
  match model.data.entities.find? (·.id = entityId) with
  | none => .error (.error s!"Entity \"{entityId}\" not found")
  | some entity =>
    .ok {
      toHistory := model.toHistory.push {
        id := stamp.operationId
        timestamp := stamp.now
        data := .SET_VALUE entityId attributeKey value (oldValue attributeKey entity.attributes)
        description := s!"Set {entity.name}.{attributeKey} = {value.text}" }
      data := some { model.data with
        entities := replaceEntity entityId (entity.withValue attributeKey value stamp.now) model.data.entities }
      updatedAt := stamp.now }

def addRulePatch (model : LatticeModel) (rule : RuleInput) (stamp : Stamp) : Except JsError Patch :=
  if model.rules.rules.any (·.id = rule.id) then .error (.error s!"Rule with ID \"{rule.id}\" already exists")
  else
    .ok {
      toHistory := model.toHistory.push {
        id := stamp.operationId
        timestamp := stamp.now
        data := .CREATE_RULE (rule.created stamp.now)
        description := s!"Added rule \"{rule.name}\"" }
      rules := some { model.rules with rules := model.rules.rules ++ [rule.created stamp.now] }
      updatedAt := stamp.now }

def Edit.patch (edit : Edit) (model : LatticeModel) (stamp : Stamp) : Except JsError Patch :=
  match edit with
  | .addEntity entity => addEntityPatch model entity stamp
  | .setValue entityId attributeKey value => setValuePatch model entityId attributeKey value stamp
  | .addRule rule => addRulePatch model rule stamp

end Bike4Mind.Lattice
