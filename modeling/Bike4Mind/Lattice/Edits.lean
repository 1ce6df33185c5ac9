import Mathlib.Data.List.Basic
import Bike4Mind.Concurrency.Protocol
import Bike4Mind.Lattice.Model

/-!
Edit calls on one stored model, interleaved at their awaits. Each call reads the whole model, and
writes back the layer it changed together with the whole undo stack.
-/

namespace Bike4Mind.Lattice
open Concurrency

inductive Op where
  | findById (id : String)
  | update (id : String) (patch : Patch)

abbrev Op.Value : Op → Type := fun _ => Option LatticeModel

abbrev Async := Program Op Op.Value JsError

def getModel (user : User) (modelId : String) : Async (Option LatticeModel) := do
  let found ← .perform (.findById modelId)
  return found.filter (canReadModel · user)

def getModelForWrite (user : User) (modelId : String) : Async (Option LatticeModel) := do
  let model ← getModel user modelId
  return model.filter (isModelOwner · user)

/-- `if (!model) return null` -/
def ifFound (model : Option LatticeModel) (edit : LatticeModel → Async (Option LatticeModel)) : Async (Option LatticeModel) :=
  match model with
  | none => .pure none
  | some model => edit model

/-- Awaits the write of a patch, unless the edit was refused. -/
def writePatch (modelId : String) : Except JsError Patch → Async (Option LatticeModel)
  | .ok patch => .perform (.update modelId patch)
  | .error e => .throw e

def addEntity (user : User) (modelId : String) (entity : EntityInput) (stamp : Stamp) : Async (Option LatticeModel) := do
  ifFound (← getModelForWrite user modelId) fun model => writePatch modelId (addEntityPatch model entity stamp)

def setValue (user : User) (modelId entityId attributeKey : String) (value : PrimitiveValue) (stamp : Stamp) :
    Async (Option LatticeModel) := do
  ifFound (← getModelForWrite user modelId) fun model => writePatch modelId (setValuePatch model entityId attributeKey value stamp)

def addRule (user : User) (modelId : String) (rule : RuleInput) (stamp : Stamp) : Async (Option LatticeModel) := do
  ifFound (← getModelForWrite user modelId) fun model => writePatch modelId (addRulePatch model rule stamp)

structure Call where
  user : User
  modelId : String
  edit : Edit
  stamp : Stamp
  deriving DecidableEq

def Call.patch (call : Call) (model : LatticeModel) : Except JsError Patch := call.edit.patch model call.stamp

def Call.program (call : Call) : Async (Option LatticeModel) :=
  match call.edit with
  | .addEntity entity => addEntity call.user call.modelId entity call.stamp
  | .setValue entityId attributeKey value => setValue call.user call.modelId entityId attributeKey value call.stamp
  | .addRule rule => addRule call.user call.modelId rule call.stamp

/-! ### The system -/

inductive Choice where
  | resolves
  | rejects (error : JsError)
  deriving DecidableEq

/-- What happened to the model, by the thread that did it. -/
inductive Event where
  | read (thread : Nat)
  | wrote (thread : Nat)
  deriving DecidableEq

structure World where
  model : LatticeModel
  /-- Newest first. -/
  log : List Event

namespace World

def landedIn : List Event → List Nat
  | [] => []
  | .read _ :: rest => landedIn rest
  | .wrote i :: rest => i :: landedIn rest

@[simp] theorem landedIn_nil : landedIn [] = [] := rfl

@[simp] theorem landedIn_read {i : Nat} {log : List Event} : landedIn (.read i :: log) = landedIn log := rfl

@[simp] theorem landedIn_wrote {i : Nat} {log : List Event} : landedIn (.wrote i :: log) = i :: landedIn log := rfl

/-- The threads whose writes landed, newest first. -/
def landed (w : World) : List Nat := landedIn w.log

/-- No write landed since the thread read the model. -/
def freshSince (i : Nat) : List Event → Bool
  | [] => false
  | .read j :: rest => i = j || freshSince i rest
  | .wrote _ :: _ => false

def fresh (w : World) (i : Nat) : Bool := freshSince i w.log

def exec (i : Nat) (w : World) (op : Op) : Choice → Option (Except JsError op.Value × World)
  | .rejects error => some (.error error, w)
  | .resolves =>
    match op with
    | .findById id =>
      if w.model.id = id then some (.ok (some w.model), { w with log := .read i :: w.log })
      else some (.ok none, w)
    | .update id patch =>
      if w.model.id = id then
        some (.ok (some (w.model.patched patch)), { model := w.model.patched patch, log := .wrote i :: w.log })
      else some (.ok none, w)

end World

def semantics : Semantics Nat World Op Op.Value JsError Choice Empty where
  exec := World.exec
  env _ move := move.elim

abbrev EditConfig := Config Nat World Op Op.Value JsError (Option LatticeModel)
abbrev EditAction := Action Nat Choice Empty

def start (model : LatticeModel) (calls : Nat → Call) : EditConfig where
  store := { model, log := [] }
  threads i := (calls i).program

/-- A write of the model lands only on the model that its thread read. -/
def WritesFresh (i : Nat) (w : World) : Op → Choice → Prop
  | .update id _, .resolves => w.model.id = id → w.fresh i = true
  | _, _ => True

instance (i : Nat) (w : World) (op : Op) (x : Choice) : Decidable (WritesFresh i w op x) := by
  unfold WritesFresh
  split <;> infer_instance

/-! ### The programs -/

/-- A call before its read, between its read and its write, and after. -/
inductive Phase where
  | reading (call : Call)
  | writing (call : Call) (seen : LatticeModel)
  | closed (call : Call) (wrote : Bool)

inductive Edits : Protocol Phase Op Op.Value JsError
  | read {call seen} : Edits (.reading call) (.findById call.modelId) (.ok (some seen)) (.writing call seen)
  | refused {call seen} : Edits (.reading call) (.findById call.modelId) (.ok (some seen)) (.closed call false)
  | absent {call} : Edits (.reading call) (.findById call.modelId) (.ok none) (.closed call false)
  | unread {call e} : Edits (.reading call) (.findById call.modelId) (.error e) (.closed call false)
  | wrote {call seen patch model} : call.patch seen = .ok patch →
      Edits (.writing call seen) (.update call.modelId patch) (.ok (some model)) (.closed call true)
  | gone {call seen patch} : call.patch seen = .ok patch →
      Edits (.writing call seen) (.update call.modelId patch) (.ok none) (.closed call false)
  | unwritten {call seen patch e} : call.patch seen = .ok patch →
      Edits (.writing call seen) (.update call.modelId patch) (.error e) (.closed call false)

def Phase.wrote : Phase → Bool
  | .closed _ wrote => wrote
  | _ => false

/-- The call returned the updated model. -/
def succeeded : Except JsError (Option LatticeModel) → Bool
  | .ok (some _) => true
  | _ => false

/-- The calls that return a model are the ones that wrote it. -/
def Returned (result : Except JsError (Option LatticeModel)) (q : Phase) : Prop := q.wrote = succeeded result

theorem gate_follows {call : Call} {edited : LatticeModel → Async (Option LatticeModel)}
    (writes : ∀ seen, Follows Edits Returned (edited seen) (.writing call seen)) :
    Follows Edits Returned ((getModelForWrite call.user call.modelId).bind (ifFound · edited))
      (.reading call) := by
  intro reply
  cases reply with
  | error e => exact ⟨_, .unread, rfl⟩
  | ok found =>
    cases found with
    | none => exact ⟨_, .absent, rfl⟩
    | some seen =>
      by_cases admitted : (canReadModel seen call.user && isModelOwner seen call.user) = true
      · refine ⟨_, .read, ?_⟩
        obtain ⟨readable, owned⟩ := Bool.and_eq_true_iff.mp admitted
        simpa [Program.settle, Program.bind, Pure.pure, Option.filter, readable, owned, ifFound] using writes seen
      · refine ⟨_, .refused, ?_⟩
        have refused : ((some seen).filter (canReadModel · call.user)).filter (isModelOwner · call.user) = none := by
          simp only [Option.filter, Bool.and_eq_true, not_and, Bool.not_eq_true] at admitted ⊢
          by_cases readable : canReadModel seen call.user = true
          · simp [readable, admitted readable]
          · simp [readable]
        simp only [Program.settle, Program.bind, Pure.pure, refused]
        rfl

theorem writePatch_follows {call : Call} {seen : LatticeModel} :
    Follows Edits Returned (writePatch call.modelId (call.patch seen)) (.writing call seen) := by
  cases patched : call.patch seen with
  | error e => exact (rfl : Returned (.error e) (.writing call seen))
  | ok patch =>
    refine follows_perform fun reply => ?_
    cases reply with
    | error e => exact ⟨_, .unwritten patched, rfl⟩
    | ok stored =>
      cases stored with
      | none => exact ⟨_, .gone patched, rfl⟩
      | some model => exact ⟨_, .wrote patched, rfl⟩

theorem program_follows (call : Call) : Follows Edits Returned call.program (.reading call) := by
  obtain ⟨user, modelId, edit, stamp⟩ := call
  cases edit with
  | addEntity entity => exact gate_follows fun seen => writePatch_follows
  | setValue entityId attributeKey value => exact gate_follows fun seen => writePatch_follows
  | addRule rule => exact gate_follows fun seen => writePatch_follows

end Bike4Mind.Lattice
