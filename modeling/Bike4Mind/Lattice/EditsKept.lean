import Bike4Mind.Lattice.Edits

/-! Which runs of concurrent edits keep the effect of every edit that returned. -/

namespace Bike4Mind.Lattice
open Concurrency

/-! ### What a stored edit looks like -/

def findEntity (entities : List Entity) (entityId : String) : Option Entity := entities.find? (·.id = entityId)

def findAttribute (attributes : List Attribute) (key : String) : Option Attribute := attributes.find? (·.key = key)

/-- The model shows what the edit was to do. -/
def Edit.Effect (edit : Edit) (stamp : Stamp) (model : LatticeModel) : Prop :=
  match edit with
  | .addEntity entity => ∃ e, findEntity model.data.entities entity.id = some e ∧ e.name = entity.name ∧
      e.createdAt = stamp.now ∧ ∀ a ∈ entity.attributes, findAttribute entity.attributes a.key = some a →
        findAttribute e.attributes a.key = some a
  | .setValue entityId attributeKey value => ∃ e, findEntity model.data.entities entityId = some e ∧
      ∃ a, findAttribute e.attributes attributeKey = some a ∧ a.value = value ∧ a.isComputed = false
  | .addRule rule => rule.created stamp.now ∈ model.rules.rules

/-- The two edits give no attribute of one entity its value twice. -/
def Edit.Apart : Edit → Edit → Prop
  | .addEntity entity, .setValue entityId attributeKey _ => entity.id = entityId → ∀ a ∈ entity.attributes, a.key ≠ attributeKey
  | .setValue entityId attributeKey _, .setValue entityId' attributeKey' _ => entityId = entityId' → attributeKey ≠ attributeKey'
  | _, _ => True

section Attributes
variable {attributes : List Attribute} {key key' : String} {value : PrimitiveValue} {entities : List Entity}
variable {entity : Entity} {entityId entityId' : String}

theorem setAttribute_found : ∃ a, findAttribute (setAttribute key value attributes) key = some a ∧ a.value = value ∧
    a.isComputed = false := by
  induction attributes with
  | nil => exact ⟨{ key, value, dataType := value.inferredType, isComputed := false }, by simp [setAttribute, findAttribute], rfl, rfl⟩
  | cons a rest ih =>
    by_cases same : a.key = key
    · exact ⟨{ a with value, isComputed := false }, by simp [setAttribute, findAttribute, same], rfl, rfl⟩
    · simpa [setAttribute, findAttribute, same] using ih

theorem setAttribute_other (other : key' ≠ key) :
    findAttribute (setAttribute key value attributes) key' = findAttribute attributes key' := by
  induction attributes with
  | nil => simp [setAttribute, findAttribute, Ne.symm other]
  | cons a rest ih =>
    by_cases same : a.key = key
    · simp [setAttribute, findAttribute, same, Ne.symm other]
    · by_cases here : a.key = key'
      · simp [setAttribute, findAttribute, here, other]
      · simpa [setAttribute, findAttribute, same, here] using ih

theorem replaceEntity_found (found : findEntity entities entityId = some entity) {updated : Entity} (named : updated.id = entityId) :
    findEntity (replaceEntity entityId updated entities) entityId = some updated := by
  induction entities with
  | nil => cases found
  | cons e rest ih =>
    by_cases same : e.id = entityId
    · simp [replaceEntity, findEntity, same, named]
    · simp only [findEntity, same, decide_false, Bool.false_eq_true, not_false_eq_true, List.find?_cons_of_neg] at found
      simpa [replaceEntity, findEntity, same] using ih found

theorem replaceEntity_other {updated : Entity} (named : updated.id = entityId) (other : entityId' ≠ entityId) :
    findEntity (replaceEntity entityId updated entities) entityId' = findEntity entities entityId' := by
  induction entities with
  | nil => rfl
  | cons e rest ih =>
    by_cases same : e.id = entityId
    · simp [replaceEntity, findEntity, same, named, Ne.symm other]
    · by_cases here : e.id = entityId'
      · simp [replaceEntity, findEntity, here, other]
      · simpa [replaceEntity, findEntity, same, here] using ih

theorem findEntity_append (found : findEntity entities entityId = some entity) {more : List Entity} :
    findEntity (entities ++ more) entityId = some entity := by
  unfold findEntity at found ⊢
  rw [List.find?_append, found, Option.some_or]

theorem findEntity_fresh (fresh : entities.any (·.id = entityId) = false) (named : entity.id = entityId) :
    findEntity (entities ++ [entity]) entityId = some entity := by
  have missing : entities.find? (·.id = entityId) = none := by
    rw [List.find?_eq_none]
    intro e member same
    simp only [List.any_eq_false] at fresh
    exact fresh e member same
  unfold findEntity
  rw [List.find?_append, missing, Option.none_or]
  simp [named]

end Attributes

section Patches
variable {model : LatticeModel} {stamp : Stamp} {patch : Patch}

theorem addEntity_ok {entity : EntityInput} (patched : addEntityPatch model entity stamp = .ok patch) :
    model.data.entities.any (·.id = entity.id) = false ∧
      (model.patched patch).data.entities = model.data.entities ++ [entity.created stamp.now] ∧
      (model.patched patch).rules = model.rules ∧ ∃ operation, operation.id = stamp.operationId ∧
        operation.data = .CREATE_ENTITY (entity.created stamp.now) ∧ patch.toHistory = model.toHistory.push operation := by
  unfold addEntityPatch at patched
  split at patched
  · cases patched
  · rename_i fresh
    cases patched
    exact ⟨by simpa using fresh, rfl, rfl, _, rfl, rfl, rfl⟩

theorem setValue_ok {entityId attributeKey : String} {value : PrimitiveValue}
    (patched : setValuePatch model entityId attributeKey value stamp = .ok patch) :
    ∃ entity, findEntity model.data.entities entityId = some entity ∧
      (model.patched patch).data.entities =
        replaceEntity entityId (entity.withValue attributeKey value stamp.now) model.data.entities ∧
      (model.patched patch).rules = model.rules ∧ ∃ operation, operation.id = stamp.operationId ∧
        operation.data = .SET_VALUE entityId attributeKey value (oldValue attributeKey entity.attributes) ∧
        patch.toHistory = model.toHistory.push operation := by
  unfold setValuePatch at patched
  split at patched
  · cases patched
  · rename_i entity found
    cases patched
    exact ⟨entity, found, rfl, rfl, _, rfl, rfl, rfl⟩

theorem addRule_ok {rule : RuleInput} (patched : addRulePatch model rule stamp = .ok patch) :
    model.rules.rules.any (·.id = rule.id) = false ∧
      (model.patched patch).rules.rules = model.rules.rules ++ [rule.created stamp.now] ∧
      (model.patched patch).data = model.data ∧ ∃ operation, operation.id = stamp.operationId ∧
        operation.data = .CREATE_RULE (rule.created stamp.now) ∧ patch.toHistory = model.toHistory.push operation := by
  unfold addRulePatch at patched
  split at patched
  · cases patched
  · rename_i fresh
    cases patched
    exact ⟨by simpa using fresh, rfl, rfl, _, rfl, rfl, rfl⟩

theorem patch_pushes {edit : Edit} (patched : edit.patch model stamp = .ok patch) :
    ∃ operation, operation.id = stamp.operationId ∧ patch.toHistory = model.toHistory.push operation := by
  cases edit with
  | addEntity entity =>
    obtain ⟨_, _, _, operation, named, _, pushed⟩ := addEntity_ok patched
    exact ⟨operation, named, pushed⟩
  | setValue entityId attributeKey value =>
    obtain ⟨_, _, _, _, operation, named, _, pushed⟩ := setValue_ok patched
    exact ⟨operation, named, pushed⟩
  | addRule rule =>
    obtain ⟨_, _, _, operation, named, _, pushed⟩ := addRule_ok patched
    exact ⟨operation, named, pushed⟩

theorem found_id {entities : List Entity} {entityId : String} {entity : Entity}
    (found : findEntity entities entityId = some entity) : entity.id = entityId := by
  simpa using List.find?_some found

theorem effect_patched {edit : Edit} (patched : edit.patch model stamp = .ok patch) :
    edit.Effect stamp (model.patched patch) := by
  cases edit with
  | addEntity entity =>
    obtain ⟨fresh, entities, _⟩ := addEntity_ok patched
    refine ⟨entity.created stamp.now, ?_, rfl, rfl, fun a _ found => found⟩
    rw [entities]
    exact findEntity_fresh fresh rfl
  | setValue entityId attributeKey value =>
    obtain ⟨entity, found, entities, _⟩ := setValue_ok patched
    have named : (entity.withValue attributeKey value stamp.now).id = entityId := (found_id found : entity.id = entityId)
    refine ⟨entity.withValue attributeKey value stamp.now, ?_, setAttribute_found⟩
    rw [entities]
    exact replaceEntity_found found named
  | addRule rule =>
    obtain ⟨_, rules, _⟩ := addRule_ok patched
    show rule.created stamp.now ∈ (model.patched patch).rules.rules
    rw [rules]
    simp

/-- A later edit keeps an entity, up to the attribute it sets. -/
theorem findEntity_patched {edit : Edit} (patched : edit.patch model stamp = .ok patch) {entityId : String} {entity : Entity}
    (found : findEntity model.data.entities entityId = some entity) :
    ∃ e, findEntity (model.patched patch).data.entities entityId = some e ∧ e.name = entity.name ∧
      e.createdAt = entity.createdAt ∧ ∀ key, (∀ value, edit ≠ .setValue entityId key value) →
        findAttribute e.attributes key = findAttribute entity.attributes key := by
  cases edit with
  | addEntity added =>
    obtain ⟨_, entities, _⟩ := addEntity_ok patched
    refine ⟨entity, ?_, rfl, rfl, fun _ _ => rfl⟩
    rw [entities]
    exact findEntity_append found
  | setValue target attributeKey value =>
    obtain ⟨before, located, entities, _⟩ := setValue_ok patched
    have named : (before.withValue attributeKey value stamp.now).id = target := (found_id located : before.id = target)
    rw [entities]
    by_cases same : entityId = target
    · subst same
      rw [located] at found
      cases found
      refine ⟨_, replaceEntity_found located named, rfl, rfl, fun key untouched => setAttribute_other ?_⟩
      rintro rfl
      exact untouched value rfl
    · exact ⟨entity, by rw [replaceEntity_other named same, found], rfl, rfl, fun _ _ => rfl⟩
  | addRule rule =>
    obtain ⟨_, _, data, _⟩ := addRule_ok patched
    exact ⟨entity, by rw [data, found], rfl, rfl, fun _ _ => rfl⟩

theorem rules_patched {edit : Edit} (patched : edit.patch model stamp = .ok patch) {rule : Rule}
    (member : rule ∈ model.rules.rules) : rule ∈ (model.patched patch).rules.rules := by
  cases edit with
  | addEntity entity =>
    obtain ⟨_, _, rules, _⟩ := addEntity_ok patched
    rwa [rules]
  | setValue entityId attributeKey value =>
    obtain ⟨_, _, _, rules, _⟩ := setValue_ok patched
    rwa [rules]
  | addRule added =>
    obtain ⟨_, rules, _⟩ := addRule_ok patched
    rw [rules]
    exact List.mem_append_left _ member

theorem effect_kept {edit other : Edit} {earlier : Stamp} (shown : other.Effect earlier model) (apart : other.Apart edit)
    (patched : edit.patch model stamp = .ok patch) : other.Effect earlier (model.patched patch) := by
  cases other with
  | addEntity entity =>
    obtain ⟨e, found, name, created, attributes⟩ := shown
    obtain ⟨e', found', name', created', kept⟩ := findEntity_patched patched found
    refine ⟨e', found', name'.trans name, created'.trans created, fun a member first => ?_⟩
    rw [kept a.key fun value set => ?_]
    · exact attributes a member first
    · subst set
      exact apart rfl a member rfl
  | setValue entityId attributeKey value =>
    obtain ⟨e, found, a, located, shown⟩ := shown
    obtain ⟨e', found', _, _, kept⟩ := findEntity_patched patched found
    refine ⟨e', found', a, ?_, shown⟩
    rw [kept attributeKey fun value' set => ?_]
    · exact located
    · subst set
      exact apart rfl rfl
  | addRule rule => exact rules_patched patched shown

end Patches

/-! ### The runs -/

/-- The undo stack after some edits landed: what was done before, and one entry for each of them. -/
structure Logged (first : History) (calls : Nat → Call) (landed : List Nat) (h : History) : Prop where
  untouched : landed = [] → h = first
  index : h.operationIndex = first.operationIndex + landed.length
  entries : ∃ entries, h.done = first.done ++ entries ∧
    entries.map (·.id) = landed.reverse.map fun i => (calls i).stamp.operationId
  last : landed ≠ [] → h.operationIndex = h.operations.length - 1

theorem logged_push {first h : History} {calls : Nat → Call} {landed : List Nat} (logged : Logged first calls landed h)
    {i : Nat} {operation : Operation} (named : operation.id = (calls i).stamp.operationId) :
    Logged first calls (i :: landed) (h.push operation) := by
  obtain ⟨entries, done, ids⟩ := logged.entries
  refine ⟨by simp, ?_, ⟨entries ++ [operation], ?_, ?_⟩, fun _ => h.push_last operation⟩
  · simp only [History.push, logged.index, List.length_cons]
    omega
  · rw [History.done_last _ (h.push_last operation), ← List.append_assoc, ← done]
    rfl
  · simp [ids, named]

def Phase.call : Phase → Call
  | .reading call | .writing call _ | .closed call _ => call

/-- What holds of one thread's phase. -/
structure ThreadTended (calls : Nat → Call) (w : World) (i : Nat) (p : Phase) : Prop where
  call : p.call = calls i
  landed : p.wrote = true ↔ i ∈ w.landed
  current : ∀ call seen, p = .writing call seen → w.fresh i = true → seen = w.model
  stale : ∀ call seen, p = .writing call seen → w.fresh i = false → seen.operationIndex < w.model.operationIndex

/-- The store and the phases of a run of which every write was fresh. -/
structure Tended (first : LatticeModel) (calls : Nat → Call) (w : World) (ph : Nat → Phase) : Prop where
  threads : ∀ i, ThreadTended calls w i (ph i)
  once : w.landed.Nodup
  effects : ∀ i ∈ w.landed, (calls i).edit.Effect (calls i).stamp w.model
  logged : Logged first.toHistory calls w.landed w.model.toHistory

/-- Of two calls neither sets an attribute that the other gives a value. -/
def Distinct (calls : Nat → Call) : Prop := ∀ i j, i ≠ j → (calls i).edit.Apart (calls j).edit

section Step
variable {first : LatticeModel} {calls : Nat → Call} {w w' : World} {ph : Nat → Phase} {i : Nat}

theorem over_not_writing {P : Prop} {call c : Call} {wrote : Bool} {seen : LatticeModel}
    (h : Phase.closed call wrote = .writing c seen) : P := nomatch h

theorem tended_over {call : Call} (tended : Tended first calls w ph) (here : (ph i).call = call)
    (unwritten : (ph i).wrote = false) : Tended first calls w (Function.update ph i (.closed call false)) := by
  refine { tended with threads := ?_ }
  have own := tended.threads i
  rw [Function.forall_update_iff ph fun j p => ThreadTended calls w j p]
  refine ⟨⟨here.symm.trans own.call, ?_, fun _ _ h => over_not_writing h, fun _ _ h => over_not_writing h⟩,
    fun j _ => tended.threads j⟩
  rw [← own.landed, unwritten]
  exact Iff.rfl

theorem tended_read {call : Call} {q : Phase} (tended : Tended first calls w ph) (reading : ph i = .reading call)
    (same : q.call = call) (unwritten : q.wrote = false) (seen : ∀ c model, q = .writing c model → model = w.model) :
    Tended first calls { w with log := .read i :: w.log } (Function.update ph i q) := by
  refine ⟨?_, tended.once, tended.effects, tended.logged⟩
  have own := tended.threads i
  rw [reading] at own
  rw [Function.forall_update_iff ph fun j p => ThreadTended calls { w with log := .read i :: w.log } j p]
  refine ⟨⟨same.trans own.call, ?_, fun c model writing _ => seen c model writing, fun _ _ _ stale => ?_⟩, fun j other => ?_⟩
  · rw [unwritten]
    exact own.landed
  · simp [World.fresh, World.freshSince] at stale
  · have there := tended.threads j
    have kept : World.fresh { w with log := .read i :: w.log } j = w.fresh j := by
      simp [World.fresh, World.freshSince, other]
    exact ⟨there.call, there.landed, fun c model writing fresh => there.current c model writing (kept ▸ fresh),
      fun c model writing stale => there.stale c model writing (kept ▸ stale)⟩

theorem tended_wrote {call : Call} {patch : Patch} (distinct : Distinct calls) (tended : Tended first calls w ph)
    (writing : ph i = .writing call w.model) (patched : call.patch w.model = .ok patch) :
    Tended first calls { model := w.model.patched patch, log := .wrote i :: w.log }
      (Function.update ph i (.closed call true)) := by
  have own := tended.threads i
  rw [writing] at own
  have mine : call = calls i := own.call
  have unlanded : i ∉ w.landed := fun member => by cases own.landed.mpr member
  obtain ⟨operation, named, pushed⟩ := patch_pushes patched
  have further : w.model.operationIndex < (w.model.patched patch).operationIndex := by
    have index : (w.model.patched patch).operationIndex = (w.model.toHistory.push operation).operationIndex :=
      congrArg History.operationIndex pushed
    rw [index]
    simp only [History.push]
    omega
  have landed : World.landed { model := w.model.patched patch, log := .wrote i :: w.log } = i :: w.landed := rfl
  refine ⟨?_, ?_, fun j member => ?_, ?_⟩
  · rw [Function.forall_update_iff ph fun j p =>
      ThreadTended calls { model := w.model.patched patch, log := .wrote i :: w.log } j p]
    refine ⟨⟨own.call, ?_, fun _ _ h => over_not_writing h, fun _ _ h => over_not_writing h⟩, fun j other => ?_⟩
    · rw [landed]
      simp [Phase.wrote]
    · have there := tended.threads j
      refine ⟨there.call, ?_, fun c seen writing fresh => ?_, fun c seen writing _ => ?_⟩
      · rw [there.landed, landed]
        simp [other]
      · simp [World.fresh, World.freshSince] at fresh
      · by_cases fresh : w.fresh j = true
        · rw [there.current c seen writing fresh]
          exact further
        · exact lt_trans (there.stale c seen writing (by simpa using fresh)) further
  · rw [landed]
    exact List.nodup_cons.mpr ⟨unlanded, tended.once⟩
  · rw [landed] at member
    rcases List.mem_cons.mp member with rfl | earlier
    · subst mine
      exact effect_patched patched
    · have other : j ≠ i := fun same => unlanded (same ▸ earlier)
      exact effect_kept (tended.effects j earlier) (mine ▸ distinct j i other) patched
  · rw [landed]
    show Logged first.toHistory calls (i :: w.landed) patch.toHistory
    rw [pushed]
    exact logged_push tended.logged (by rw [named, mine])

theorem edits_preserved (distinct : Distinct calls) :
    Preserves semantics Edits WritesFresh (Tended first calls) where
  env _ moved := nomatch moved
  step {i w op x reply w' ph q} tended meets executed permitted := by
    generalize here : ph i = p at permitted
    have own := tended.threads i
    cases x with
    | rejects error =>
      cases executed
      cases permitted with
      | unread | unwritten => exact tended_over tended (by rw [here]; rfl) (by rw [here]; rfl)
    | resolves =>
      cases op with
      | findById id =>
        simp only [semantics, World.exec] at executed
        split at executed
        · cases executed
          cases permitted with
          | read =>
            refine tended_read tended here rfl rfl fun c model writing => ?_
            cases writing
            rfl
          | refused => exact tended_read tended here rfl rfl fun _ _ h => over_not_writing h
        · cases executed
          cases permitted with
          | absent => exact tended_over tended (by rw [here]; rfl) (by rw [here]; rfl)
      | update id patch =>
        simp only [semantics, World.exec] at executed
        split at executed
        · rename_i stored
          cases executed
          cases permitted with
          | wrote patched =>
            have current := own.current _ _ here (meets stored)
            subst current
            exact tended_wrote distinct tended here patched
        · cases executed
          cases permitted with
          | gone => exact tended_over tended (by rw [here]; rfl) (by rw [here]; rfl)

end Step
/-- Every edit that returned is in the stored model, and the undo stack ends with one entry for each. -/
structure Kept (first : LatticeModel) (calls : Nat → Call) (c : EditConfig) : Prop where
  returned : ∀ i, (∃ model, (c.threads i).result? = some (some model)) ↔ i ∈ c.store.landed
  effects : ∀ i ∈ c.store.landed, (calls i).edit.Effect (calls i).stamp c.store.model
  once : c.store.landed.Nodup
  last : c.store.landed ≠ [] → c.store.model.operationIndex = c.store.model.operations.length - 1
  entries : c.store.landed ≠ [] → ∃ entries, c.store.model.operations = first.done ++ entries ∧
    entries.map (·.id) = c.store.landed.reverse.map fun i => (calls i).stamp.operationId

section Runs
variable {first : LatticeModel} {calls : Nat → Call} {c : EditConfig} {sched : List EditAction}

theorem returned_wrote {program : Async (Option LatticeModel)} {p : Phase} (follows : Follows Edits Returned program p) :
    (∃ model, program.result? = some (some model)) ↔ p.wrote = true := by
  cases program with
  | pure result =>
    have wrote : p.wrote = succeeded (.ok result) := follows
    rw [wrote]
    cases result <;> simp [Program.result?, succeeded]
  | throw e =>
    have wrote : p.wrote = false := follows
    simp [Program.result?, wrote]
  | await op k =>
    obtain ⟨q, permitted, _⟩ := follows (.error (.error ""))
    cases permitted <;> simp [Program.result?, Phase.wrote]

theorem tended_kept (tracked : Tracked Edits Returned (Tended first calls) c) : Kept first calls c := by
  obtain ⟨ph, tended, follows⟩ := tracked
  refine ⟨fun i => (returned_wrote (follows i)).trans (tended.threads i).landed, tended.effects, tended.once,
    tended.logged.last, fun some => ?_⟩
  obtain ⟨entries, done, ids⟩ := tended.logged.entries
  rw [History.done_last _ (tended.logged.last some)] at done
  exact ⟨entries, done, ids⟩

/-- A write on a model that has moved on since it was read drops the entries in between. -/
theorem stale_breaks {i : Nat} {op : Op} {x : Choice} {k : Except JsError op.Value → Async (Option LatticeModel)}
    (tracked : Tracked Edits Returned (Tended first calls) c) (atAwait : c.threads i = .await op k)
    (broken : ¬ WritesFresh i c.store op x) : ∃ c', semantics.resume c i x = some c' ∧ ¬ Kept first calls c' := by
  obtain ⟨ph, tended, follows⟩ := tracked
  have here := follows i
  rw [atAwait] at here
  cases op with
  | findById id => exact (broken (by cases x <;> trivial)).elim
  | update id patch =>
    cases x with
    | rejects error => exact (broken trivial).elim
    | resolves =>
      have stored : c.store.model.id = id := by
        by_contra other
        exact broken fun same => (other same).elim
      have stale : c.store.fresh i = false := by
        by_contra fresh
        exact broken fun _ => by simpa using fresh
      refine ⟨{
        store := { model := c.store.model.patched patch, log := .wrote i :: c.store.log }
        threads := Function.update c.threads i (k (.ok (some (c.store.model.patched patch)))) }, ?_, ?_⟩
      · simp [Semantics.resume, atAwait, semantics, World.exec, stored]
      · intro kept
        obtain ⟨q, permitted, _⟩ := here (.error (.error ""))
        generalize writing : ph i = p at permitted
        cases permitted with
        | @unwritten call seen _ _ patched =>
          have behind := (tended.threads i).stale call seen writing stale
          obtain ⟨operation, _, pushed⟩ := patch_pushes patched
          obtain ⟨entries, operations, ids⟩ := kept.entries (by simp [World.landed])
          have landed : entries.length = c.store.landed.length + 1 := by
            have lengths := congrArg List.length ids
            simpa [World.landed] using lengths
          have stored : patch.operations.length = first.done.length + entries.length := by
            rw [← List.length_append]
            exact congrArg List.length operations
          have counted : (patch.operations.length : Int) = seen.operationIndex + 2 := by
            have length := seen.toHistory.length_done
            rw [pushed]
            simp only [History.push, List.length_append, List.length_singleton]
            omega
          have index := tended.logged.index
          have before := first.toHistory.length_done
          omega

/-- Concurrent edits of one model are all kept in exactly the runs in which every write lands on the
model that its call read. -/
theorem edits_kept_iff (distinct : Distinct calls) :
    semantics.Always (Kept first calls) (start first calls) sched ↔ semantics.Meets WritesFresh (start first calls) sched := by
  refine always_iff_meets_config (edits_preserved distinct) tended_kept stale_breaks ?_
  refine ⟨fun i => .reading (calls i), ?_, fun i => program_follows (calls i)⟩
  refine ⟨fun i => ⟨rfl, ?_, fun _ _ h => (nomatch h), fun _ _ h => (nomatch h)⟩, List.nodup_nil, fun _ h => (nomatch h), ?_⟩
  · simp [Phase.wrote, start, World.landed]
  · exact ⟨fun _ => rfl, by simp [start, World.landed], ⟨[], by simp [start], by simp [start, World.landed]⟩,
      fun some => (some rfl).elim⟩

end Runs
namespace Overlapped

def empty : LatticeModel where
  operations := []
  operationIndex := -1
  position := by decide
  id := "m"
  userId := "owner"
  organizationId := none
  data := ⟨[], []⟩
  rules := ⟨[], []⟩
  updatedAt := 0

def adds (entityId : String) (now : Time) : Call :=
  ⟨{ id := "owner" }, "m", .addEntity ⟨entityId, entityId, []⟩, ⟨now, entityId⟩⟩

def calls (i : Nat) : Call := if i = 0 then adds "revenue" 1 else adds "costs" 2

theorem distinct : Distinct calls := by
  intro i j _
  have added : ∀ k, ∃ entity, (calls k).edit = .addEntity entity := by
    intro k
    unfold calls
    split <;> exact ⟨_, rfl⟩
  obtain ⟨entity, left⟩ := added i
  obtain ⟨entity', right⟩ := added j
  rw [left, right]
  trivial

def step (i : Nat) : EditAction := .resume i .resolves

/-- Both calls read the model before either writes it. -/
def overlap : List EditAction := [step 0, step 1, step 0, step 1]

def serial : List EditAction := [step 0, step 0, step 1, step 1]

/-- What can be seen of a run: the entities, the undo stack, and which of the two calls returned a model. -/
def seen (c : EditConfig) : List String × Nat × Int × List Bool :=
  (c.store.model.data.entities.map (·.id), c.store.model.operations.length, c.store.model.operationIndex,
    [0, 1].map fun i => ((c.threads i).result?.bind id).isSome)

end Overlapped

/-- Both additions return the updated model, and the first entity and its undo entry are gone. -/
theorem overlapping_edit_lost :
    (semantics.run (start Overlapped.empty Overlapped.calls) Overlapped.overlap).map Overlapped.seen =
      some (["costs"], 1, 0, [true, true]) := by decide

/-- One call after the other, both additions stay. -/
theorem serial_edits_kept :
    semantics.Always (Kept Overlapped.empty Overlapped.calls) (start Overlapped.empty Overlapped.calls) Overlapped.serial ∧
      (semantics.run (start Overlapped.empty Overlapped.calls) Overlapped.serial).map Overlapped.seen =
        some (["revenue", "costs"], 2, 1, [true, true]) :=
  ⟨(edits_kept_iff Overlapped.distinct).mpr (by decide), by decide⟩

end Bike4Mind.Lattice
