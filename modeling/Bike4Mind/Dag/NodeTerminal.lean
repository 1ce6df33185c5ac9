import Bike4Mind.AgentExecution.Document
import Bike4Mind.Dag.Levels
import Mathlib.Data.Finset.Card

/-! What the completion handler of a DAG node does with the other nodes, and that the parent of a validated decomposition is woken. -/

namespace Bike4Mind.Dag
open Collections AgentExecution

/-- Where some nodes are left, one of them waits for none that is left. -/
theorem first_left {input : DecomposeTaskInput} {levels : List (List String)} (validated : validateAndSort input = .ok levels)
    (left : String → Prop) (known : ∀ id, left id → id ∈ input.tasks.map (·.id)) {k : String} (some : left k) :
    ∃ task ∈ input.tasks, left task.id ∧ ∀ d ∈ task.dependsOn, d ∈ input.tasks.map (·.id) ∧ ¬left d := by
  obtain ⟨tasks, named, checked, passed, rfl⟩ := validateAndSort_ok_iff.mp validated
  obtain ⟨_, entries⟩ := byId_ok named
  obtain ⟨order, sorted, all⟩ := detectCycles_ok (closed_of entries checked) passed
  simp only [← keys_eq entries] at known ⊢
  obtain ⟨b, _, last, need⟩ := sorted.first_missing (¬left ·) (all k (known k some)) (not_not.mpr some)
  obtain ⟨task, member, rfl⟩ := List.mem_map.mp (keys_eq entries ▸ known b (not_not.mp last))
  have closed := closed_of entries checked task.id (known _ (not_not.mp last))
  rw [dependsOnOf_eq entries member] at need closed
  exact ⟨task, member, not_not.mp last, fun d depends => ⟨closed d depends, need d depends⟩⟩

section Sweep
variable (input : DecomposeTaskInput) (completedIds pendingIds isolatedFailedIds cascadeFailedIds : Finset String)

def findReadyTasks : List String :=
  (input.tasks.filter fun task => task.id ∈ pendingIds ∧ ∀ d ∈ task.dependsOn, d ∈ completedIds ∨ d ∈ isolatedFailedIds).map (·.id)

def findCascadeDoomed : List String :=
  (input.tasks.filter fun task => task.id ∈ pendingIds ∧ ∃ d ∈ task.dependsOn, d ∈ cascadeFailedIds).map (·.id)

/-- A failure reaches the node through pending ones. -/
def Doomed (id : String) : Prop :=
  ∃ failed ∈ cascadeFailedIds, Relation.TransGen (fun id d => id ∈ pendingIds ∧ DependsOn input id d) id failed

variable {input completedIds pendingIds isolatedFailedIds cascadeFailedIds} {id : String}

theorem mem_findCascadeDoomed :
    id ∈ findCascadeDoomed input pendingIds cascadeFailedIds ↔ id ∈ pendingIds ∧ ∃ d ∈ cascadeFailedIds, DependsOn input id d := by
  simp only [findCascadeDoomed, List.mem_map, List.mem_filter, decide_eq_true_eq, DependsOn]
  constructor
  · rintro ⟨task, ⟨member, waits, d, need, failed⟩, rfl⟩
    exact ⟨waits, d, failed, task, member, rfl, need⟩
  · rintro ⟨waits, d, failed, task, member, rfl, need⟩
    exact ⟨task, ⟨member, waits, d, need, failed⟩, rfl⟩

/-- The nodes that the cascade sweep marks failed, in order. -/
def cascadeSweep (input : DecomposeTaskInput) (pendingIds cascadeFailedIds : Finset String) : List String :=
  let doomed := findCascadeDoomed input pendingIds cascadeFailedIds
  if _more : doomed = [] then []
  else doomed ++ cascadeSweep input (pendingIds \ doomed.toFinset) (cascadeFailedIds ∪ doomed.toFinset)
termination_by pendingIds.card
decreasing_by
  refine Finset.card_lt_card (Finset.sdiff_ssubset (fun id inside => ?_) (List.toFinset_nonempty_iff _ |>.mpr _more))
  exact (mem_findCascadeDoomed.mp (List.mem_toFinset.mp inside)).1

theorem mem_cascadeSweep : id ∈ cascadeSweep input pendingIds cascadeFailedIds ↔ Doomed input pendingIds cascadeFailedIds id := by
  induction pendingIds, cascadeFailedIds using cascadeSweep.induct input with
  | case1 pendingIds cascadeFailedIds doomed none =>
    rw [cascadeSweep, dif_pos none]
    refine ⟨fun absurd => (List.not_mem_nil absurd).elim, fun ⟨failed, member, path⟩ => ?_⟩
    obtain ⟨b, _, waits, need⟩ := Relation.TransGen.tail'_iff.mp path
    have now : b ∈ doomed := mem_findCascadeDoomed.mpr ⟨waits, failed, member, need⟩
    rw [none] at now
    cases now
  | case2 pendingIds cascadeFailedIds doomed more ih =>
    rw [cascadeSweep, dif_neg more, List.mem_append, ih]
    constructor
    · rintro (now | ⟨failed, member, path⟩)
      · obtain ⟨waits, failed, member, need⟩ := mem_findCascadeDoomed.mp now
        exact ⟨failed, member, .single ⟨waits, need⟩⟩
      · have wider : (fun id d => id ∈ pendingIds \ doomed.toFinset ∧ DependsOn input id d) ≤ fun id d => id ∈ pendingIds ∧ DependsOn input id d :=
          fun _ _ step => ⟨(Finset.mem_sdiff.mp step.1).1, step.2⟩
        have path := Relation.TransGen.mono wider _ _ path
        rcases Finset.mem_union.mp member with old | now
        · exact ⟨failed, old, path⟩
        · obtain ⟨waits, first, member, need⟩ := mem_findCascadeDoomed.mp (List.mem_toFinset.mp now)
          exact ⟨first, member, path.tail ⟨waits, need⟩⟩
    · rintro ⟨failed, member, path⟩
      -- Each node on the way is of this pass, or leads to one that is.
      clear ih
      induction path using Relation.TransGen.head_induction_on with
      | single step => exact Or.inl (mem_findCascadeDoomed.mpr ⟨step.1, failed, member, step.2⟩)
      | @head id c step _ reached =>
        by_cases now : id ∈ doomed
        · exact Or.inl now
        · have waits : id ∈ pendingIds \ doomed.toFinset := Finset.mem_sdiff.mpr ⟨step.1, mt List.mem_toFinset.mp now⟩
          rcases reached with first | ⟨failed, member, path⟩
          · exact Or.inr ⟨c, Finset.mem_union_right _ (List.mem_toFinset.mpr first), .single ⟨waits, step.2⟩⟩
          · exact Or.inr ⟨failed, member, path.head ⟨waits, step.2⟩⟩

end Sweep

/-! ### The handler -/

section Handler
variable (dagSpec : DagSpec) (siblings : List (String × AgentExecutionStatus))

/-- The siblings whose status passes a test. -/
def idsWith (test : String → AgentExecutionStatus → Bool) : Finset String := ((siblings.filter fun sib => test sib.1 sib.2).map (·.1)).toFinset

def inputOf : DecomposeTaskInput := ⟨dagSpec.tasks.map fun task => ⟨task.id, task.dependsOn⟩⟩

/-- `specByNodeId.get(id)?.onFailure === 'isolate'` -/
def isolates (id : String) : Bool := (dagSpec.tasks.reverse.find? (·.id = id)).any (·.onFailure = .isolate)

def completedIds : Finset String := idsWith siblings fun _ status => status = .completed

def failedIds (isolated : Bool) : Finset String :=
  idsWith siblings fun id status => (status = .failed ∨ status = .aborted) ∧ isolates dagSpec id = isolated

def pendingIds : Finset String := idsWith siblings fun _ status => status = .pending

def runningIds : Finset String := idsWith siblings fun _ status => status.active ∧ status ≠ .pending

/-- The nodes a handler marks failed, those it dispatches, and whether it wakes the parent. -/
structure Handled where
  failed : List String
  dispatched : List String
  wakes : Bool

def onDagNodeTerminal : Handled :=
  let failed := cascadeSweep (inputOf dagSpec) (pendingIds siblings) (failedIds dagSpec siblings false)
  let pendingIds := pendingIds siblings \ failed.toFinset
  let ready := findReadyTasks (inputOf dagSpec) (completedIds siblings) pendingIds (failedIds dagSpec siblings true)
  { failed, dispatched := ready, wakes := pendingIds = ∅ ∧ runningIds siblings = ∅ ∧ ready = [] }

variable {dagSpec siblings} {id : String}

theorem mem_idsWith {test : String → AgentExecutionStatus → Bool} :
    id ∈ idsWith siblings test ↔ ∃ status, (id, status) ∈ siblings ∧ test id status = true := by
  simp [idsWith]

/-- With no node running, a node is completed, failed or pending. -/
theorem idle_ids (idle : runningIds siblings = ∅) (listed : id ∈ siblings.map (·.1)) :
    id ∈ completedIds siblings ∨ (∃ isolated, id ∈ failedIds dagSpec siblings isolated) ∨ id ∈ pendingIds siblings := by
  obtain ⟨⟨id, status⟩, member, rfl⟩ := List.mem_map.mp listed
  have still := Finset.eq_empty_iff_forall_notMem.mp idle
  simp only [completedIds, failedIds, pendingIds, runningIds, mem_idsWith] at still ⊢
  cases status with
  | completed => exact Or.inl ⟨_, member, rfl⟩
  | failed | aborted => exact Or.inr (Or.inl ⟨isolates dagSpec id, _, member, by simp⟩)
  | pending => exact Or.inr (Or.inr ⟨_, member, rfl⟩)
  | _ => exact absurd ⟨_, member, rfl⟩ (still _)

section Validated
variable {levels : List (List String)} (validated : validateAndSort (inputOf dagSpec) = .ok levels)
  (nodes : ∀ id, id ∈ siblings.map (·.1) ↔ id ∈ dagSpec.tasks.map (·.id)) (idle : runningIds siblings = ∅)
include validated nodes idle

theorem wakes_of_none (none : (onDagNodeTerminal dagSpec siblings).dispatched = []) : (onDagNodeTerminal dagSpec siblings).wakes = true := by
  refine decide_eq_true ⟨?_, idle, none⟩
  have names : (inputOf dagSpec).tasks.map (·.id) = dagSpec.tasks.map (·.id) := by simp [inputOf]
  simp only [← names] at nodes
  by_contra waiting
  obtain ⟨k, left⟩ := Finset.nonempty_iff_ne_empty.mpr waiting
  obtain ⟨task, member, last, need⟩ := first_left validated (· ∈ _) (fun id left => by
    obtain ⟨status, member, _⟩ := mem_idsWith.mp (Finset.mem_sdiff.mp left).1
    exact (nodes id).mp (List.mem_map_of_mem member)) left
  obtain ⟨waits, spared⟩ := Finset.mem_sdiff.mp last
  have ready : task.id ∈ (onDagNodeTerminal dagSpec siblings).dispatched := by
    refine List.mem_map.mpr ⟨task, List.mem_filter.mpr ⟨member, decide_eq_true ⟨last, fun d depends => ?_⟩⟩, rfl⟩
    have direct : DependsOn (inputOf dagSpec) task.id d := ⟨task, member, rfl, depends⟩
    rcases idle_ids idle ((nodes d).mpr (need d depends).1) with done | ⟨isolated, failed⟩ | pending
    · exact Or.inl done
    · cases isolated with
      | true => exact Or.inr failed
      | false => exact (spared (List.mem_toFinset.mpr (mem_cascadeSweep.mpr ⟨d, failed, .single ⟨waits, direct⟩⟩))).elim
    · have swept := not_not.mp (mt (fun out => Finset.mem_sdiff.mpr ⟨pending, out⟩) (need d depends).2)
      obtain ⟨failed, reached, path⟩ := mem_cascadeSweep.mp (List.mem_toFinset.mp swept)
      exact (spared (List.mem_toFinset.mpr (mem_cascadeSweep.mpr ⟨failed, reached, path.head ⟨waits, direct⟩⟩))).elim
  exact List.not_mem_nil (none ▸ ready)

end Validated

/-- A handler fails the nodes that a failure reaches and no others; when no node runs it dispatches one or wakes the parent. -/
theorem handler_never_stuck {levels : List (List String)} (validated : validateAndSort (inputOf dagSpec) = .ok levels)
    (nodes : ∀ id, id ∈ siblings.map (·.1) ↔ id ∈ dagSpec.tasks.map (·.id)) :
    (∀ id, id ∈ (onDagNodeTerminal dagSpec siblings).failed ↔
      Doomed (inputOf dagSpec) (pendingIds siblings) (failedIds dagSpec siblings false) id) ∧
    (runningIds siblings = ∅ →
      ((onDagNodeTerminal dagSpec siblings).wakes = true ↔ (onDagNodeTerminal dagSpec siblings).dispatched = [])) :=
  ⟨fun _ => mem_cascadeSweep, fun idle => ⟨fun wakes => (of_decide_eq_true wakes).2.2, wakes_of_none validated nodes idle⟩⟩

def branches : DagSpec := ⟨[⟨"search", "", "explore", [], .isolate⟩, ⟨"draft", "", "plan", ["search"], .cascade⟩], "tool"⟩

theorem branches_validated : ∃ levels, validateAndSort (inputOf branches) = .ok levels := by
  let tasks : Tasks := ((∅ : Tasks).set "search" ⟨"search", []⟩).set "draft" ⟨"draft", ["search"]⟩
  cases passed : detectCycles tasks with
  | ok _ => exact ⟨_, validateAndSort_ok_iff.mpr ⟨tasks, rfl, rfl, passed, rfl⟩⟩
  | error e =>
    obtain ⟨id, cycle⟩ := detectCycles_error (by decide) passed
    have down {a b : String} (need : Needs (dependsOnOf tasks) a b) : a = "draft" ∧ b = "search" := by
      simp only [Needs, dependsOnOf, tasks, OrderedMap.get?_set] at need
      split_ifs at need with draft search
      · exact ⟨draft, List.mem_singleton.mp need⟩
      · cases need
      · cases need
    obtain ⟨b, need, path⟩ := Relation.TransGen.head'_iff.mp cycle
    obtain ⟨rfl, rfl⟩ := down need
    rcases Relation.ReflTransGen.cases_head path with same | ⟨_, again, _⟩
    · exact absurd same (by decide)
    · exact absurd (down again).1 (by decide)

theorem branches_go_on : (onDagNodeTerminal branches [("search", .failed), ("draft", .pending)]).wakes = true ↔
    (onDagNodeTerminal branches [("search", .failed), ("draft", .pending)]).dispatched = [] := by
  obtain ⟨levels, validated⟩ := branches_validated
  exact (handler_never_stuck validated (by simp [branches])).2 (by decide)

end Handler

/-! ### Runs -/

/-- A write or a message that a handler still owes. -/
inductive Owed where
  | fail (id : String)
  | dispatch (id : String)
  | wake
  deriving DecidableEq

/-- The nodes and their live invocations, the handlers that have not read yet, and what those that have read owe. -/
structure DagWorld where
  status : String → AgentExecutionStatus
  live : List String
  due : Nat
  owed : List Owed
  messages : List String
  woken : Bool

/-- The messages once that of a node is delivered; it may come again. -/
def DagWorld.left (s : DagWorld) (id : String) (again : Bool) : List String := if again then s.messages else s.messages.erase id

section Runs
variable (dagSpec : DagSpec)

def DagWorld.siblings (s : DagWorld) : List (String × AgentExecutionStatus) := dagSpec.tasks.map fun task => (task.id, s.status task.id)

def Handled.owed (handled : Handled) : List Owed :=
  handled.failed.map .fail ++ handled.dispatched.map .dispatch ++ if handled.wakes then [.wake] else []

/-- The roots are dispatched. -/
def launched : DagWorld where
  status _ := .pending
  live := []
  due := 0
  owed := []
  messages := (dagSpec.tasks.filter (·.dependsOn = [])).map (·.id)
  woken := false

/-- A step in which a handler fails no node that is dispatched and not started. -/
inductive DagStep (s : DagWorld) : DagWorld → Prop
  | claim {id} (sent : id ∈ s.messages) (again : Bool) (waits : s.status id = .pending) :
      DagStep s { s with status := Function.update s.status id .running, live := id :: s.live, messages := s.left id again }
  | lost {id} (sent : id ∈ s.messages) (again : Bool) (taken : s.status id ≠ .pending) : DagStep s { s with messages := s.left id again }
  -- The user has aborted the node.
  | refuse {id} (sent : id ∈ s.messages) (again : Bool) :
      DagStep s { s with status := Function.update s.status id .aborted, due := s.due + 1, messages := s.left id again }
  | finish {id status} (runs : id ∈ s.live) (ended : status.active = false) :
      DagStep s { s with status := Function.update s.status id status, live := s.live.erase id, due := s.due + 1 }
  | read {due} (some : s.due = due + 1) :
      DagStep s { s with due, owed := (onDagNodeTerminal dagSpec (s.siblings dagSpec)).owed ++ s.owed }
  -- Handlers that overlap can disagree over a swept node that isolates, and one then fails what the other dispatches.
  | fail {id} (owes : .fail id ∈ s.owed) (spared : id ∉ s.messages ∧ .dispatch id ∉ s.owed) :
      DagStep s { s with status := Function.update s.status id .failed, owed := s.owed.erase (.fail id) }
  | dispatch {id} (owes : .dispatch id ∈ s.owed) :
      DagStep s { s with messages := id :: s.messages, owed := s.owed.erase (.dispatch id) }
  | wake (owes : .wake ∈ s.owed) : DagStep s { s with woken := true, owed := s.owed.erase .wake }

def Woken (s : DagWorld) : Prop := s.woken = true ∨ .wake ∈ s.owed

/-- An invocation or a handler is under way that a later read follows, or a node is about to be started. -/
def Moving (s : DagWorld) : Prop :=
  (s.live ≠ [] ∨ s.due ≠ 0) ∨ ∃ id, s.status id = .pending ∧ (id ∈ s.messages ∨ .dispatch id ∈ s.owed)

def Invoked (live : List String) (id : String) (status : AgentExecutionStatus) : Prop := status.active = true → status = .pending ∨ id ∈ live

/-- A node that has ended, or whose failure a handler owes. -/
def Ends (owed : List Owed) (id : String) (status : AgentExecutionStatus) : Prop :=
  id ∈ dagSpec.tasks.map (·.id) → status.active = false ∨ .fail id ∈ owed

structure DagInv (s : DagWorld) : Prop where
  invoked : ∀ id, Invoked s.live id (s.status id)
  moves : Woken s ∨ Moving s
  ends : Woken s → ∀ id, Ends dagSpec s.owed id (s.status id)

variable {dagSpec} {s s' : DagWorld}

theorem mem_siblings {id : String} {status : AgentExecutionStatus} :
    (id, status) ∈ s.siblings dagSpec ↔ id ∈ dagSpec.tasks.map (·.id) ∧ s.status id = status := by
  simp only [DagWorld.siblings, List.mem_map, Prod.mk.injEq]
  constructor
  · rintro ⟨task, member, rfl, same⟩
    exact ⟨⟨task, member, rfl⟩, same⟩
  · rintro ⟨⟨task, member, rfl⟩, same⟩
    exact ⟨task, member, rfl, same⟩

theorem read_ends (wakes : .wake ∈ (onDagNodeTerminal dagSpec (s.siblings dagSpec)).owed) {id : String} (member : id ∈ dagSpec.tasks.map (·.id)) :
    (s.status id).active = false ∨ .fail id ∈ (onDagNodeTerminal dagSpec (s.siblings dagSpec)).owed := by
  have wakes : (onDagNodeTerminal dagSpec (s.siblings dagSpec)).wakes = true := by simpa [Handled.owed] using wakes
  obtain ⟨left, idle, _⟩ := of_decide_eq_true wakes
  by_cases waits : s.status id = .pending
  · have pending : id ∈ pendingIds (s.siblings dagSpec) := mem_idsWith.mpr ⟨_, mem_siblings.mpr ⟨member, waits⟩, rfl⟩
    have failed := not_not.mp (mt (fun out => Finset.mem_sdiff.mpr ⟨pending, out⟩) (Finset.eq_empty_iff_forall_notMem.mp left id))
    exact Or.inr (List.mem_append_left _ (List.mem_append_left _ (List.mem_map_of_mem (List.mem_toFinset.mp failed))))
  · refine Or.inl (Bool.eq_false_iff.mpr fun active => Finset.eq_empty_iff_forall_notMem.mp idle id ?_)
    exact mem_idsWith.mpr ⟨_, mem_siblings.mpr ⟨member, rfl⟩, decide_eq_true ⟨active, waits⟩⟩

section Validated
variable {levels : List (List String)} (validated : validateAndSort (inputOf dagSpec) = .ok levels)
include validated

theorem read_moves (idle : runningIds (s.siblings dagSpec) = ∅) : .wake ∈ (onDagNodeTerminal dagSpec (s.siblings dagSpec)).owed ∨
    ∃ id, s.status id = .pending ∧ .dispatch id ∈ (onDagNodeTerminal dagSpec (s.siblings dagSpec)).owed := by
  unfold Handled.owed
  cases ready : (onDagNodeTerminal dagSpec (s.siblings dagSpec)).dispatched with
  | nil =>
    have wakes := wakes_of_none validated (fun id => by simp [DagWorld.siblings]) idle ready
    exact Or.inl (by simp [wakes])
  | cons id rest =>
    have listed : id ∈ (onDagNodeTerminal dagSpec (s.siblings dagSpec)).dispatched := ready ▸ List.mem_cons_self
    obtain ⟨task, member, rfl⟩ := List.mem_map.mp listed
    have waits := (Finset.mem_sdiff.mp (of_decide_eq_true (List.mem_filter.mp member).2).1).1
    obtain ⟨status, sibling, pending⟩ := mem_idsWith.mp waits
    exact Or.inr ⟨task.id, (mem_siblings.mp sibling).2.trans (of_decide_eq_true pending), by simp⟩

theorem DagInv.step (inv : DagInv dagSpec s) (step : DagStep dagSpec s s') : DagInv dagSpec s' := by
  obtain ⟨invoked, moves, ends⟩ := inv
  cases step with
  | @claim id sent again waits =>
    refine ⟨(Function.forall_update_iff _ _).mpr ⟨fun _ => Or.inr List.mem_cons_self, fun other _ active => ?_⟩,
      Or.inr (Or.inl (Or.inl (List.cons_ne_nil _ _))), fun woken => (Function.forall_update_iff _ _).mpr ⟨fun member => ?_, fun other _ => ends woken other⟩⟩
    · exact (invoked other active).imp_right (List.mem_cons_of_mem _)
    · exact Or.inr ((ends woken id member).resolve_left (by rw [waits]; decide))
  | @lost id sent again taken =>
    refine ⟨invoked, moves.imp_right (Or.imp_right ?_), ends⟩
    rintro ⟨other, waits, owed⟩
    refine ⟨other, waits, owed.imp_left fun sent => ?_⟩
    cases again with
    | true => exact sent
    | false => exact (List.mem_erase_of_ne fun same : other = id => taken (same ▸ waits)).mpr sent
  | refuse =>
    exact ⟨(Function.forall_update_iff _ _).mpr ⟨fun active => (by cases active), fun other _ => invoked other⟩, Or.inr (Or.inl (Or.inr (Nat.succ_ne_zero _))),
      fun woken => (Function.forall_update_iff _ _).mpr ⟨fun _ => Or.inl rfl, fun other _ => ends woken other⟩⟩
  | finish runs ended =>
    refine ⟨(Function.forall_update_iff _ _).mpr ⟨fun active => ?_, fun other apart active => ?_⟩, Or.inr (Or.inl (Or.inr (Nat.succ_ne_zero _))),
      fun woken => (Function.forall_update_iff _ _).mpr ⟨fun _ => Or.inl ended, fun other _ => ends woken other⟩⟩
    · exact absurd (ended.symm.trans active) Bool.false_ne_true
    · exact (invoked other active).imp_right (List.mem_erase_of_ne apart).mpr
  | read some =>
    refine ⟨invoked, ?_, fun woken id member => ?_⟩
    · by_cases still : s.live = []
      · have idle : runningIds (s.siblings dagSpec) = ∅ := by
          refine Finset.eq_empty_of_forall_notMem fun id running => ?_
          obtain ⟨status, sibling, active⟩ := mem_idsWith.mp running
          obtain ⟨_, rfl⟩ := mem_siblings.mp sibling
          obtain ⟨active, other⟩ := of_decide_eq_true active
          exact List.not_mem_nil (still ▸ (invoked id active).resolve_left other)
        refine (read_moves validated idle).imp (fun wakes => Or.inr (List.mem_append_left _ wakes)) ?_
        exact fun ⟨id, waits, dispatched⟩ => Or.inr ⟨id, waits, Or.inr (List.mem_append_left _ dispatched)⟩
      · exact Or.inr (Or.inl (Or.inl still))
    · rcases woken.imp_right List.mem_append.mp with woken | new | old
      · exact (ends (Or.inl woken) id member).imp_right (List.mem_append_right _)
      · exact (read_ends new member).imp_right (List.mem_append_left _)
      · exact (ends (Or.inr old) id member).imp_right (List.mem_append_right _)
  | @fail id owes spared =>
    refine ⟨(Function.forall_update_iff _ _).mpr ⟨fun active => (by cases active), fun other _ => invoked other⟩,
      moves.imp (Or.imp_right (List.mem_erase_of_ne (by simp)).mpr) (Or.imp_right ?_), fun woken => (Function.forall_update_iff _ _).mpr ⟨fun _ => Or.inl rfl, ?_⟩⟩
    · rintro ⟨other, waits, owed⟩
      have apart : other ≠ id := by
        rintro rfl
        exact owed.elim spared.1 spared.2
      exact ⟨other, (Function.update_of_ne apart ..).trans waits, owed.imp_right (List.mem_erase_of_ne (by simp)).mpr⟩
    · intro other apart member
      exact (ends (woken.imp_right List.mem_of_mem_erase) other member).imp_right (List.mem_erase_of_ne (by simpa using apart)).mpr
  | @dispatch id owes =>
    refine ⟨invoked, moves.imp (Or.imp_right (List.mem_erase_of_ne (by simp)).mpr) (Or.imp_right ?_), fun woken other member => ?_⟩
    · rintro ⟨other, waits, owed⟩
      refine ⟨other, waits, ?_⟩
      by_cases own : other = id
      · exact Or.inl (own ▸ List.mem_cons_self)
      · exact owed.imp (List.mem_cons_of_mem _) (List.mem_erase_of_ne (by simpa using own)).mpr
    · exact (ends (woken.imp_right List.mem_of_mem_erase) other member).imp_right (List.mem_erase_of_ne (by simp)).mpr
  | wake owes =>
    exact ⟨invoked, Or.inl (Or.inl rfl), fun _ id member => (ends (Or.inr owes) id member).imp_right (List.mem_erase_of_ne (by simp)).mpr⟩

theorem launched_inv (some : dagSpec.tasks ≠ []) : DagInv dagSpec (launched dagSpec) := by
  refine ⟨fun _ _ => Or.inl rfl, Or.inr (Or.inr ?_), fun woken => by simp [Woken, launched] at woken⟩
  obtain ⟨node, member⟩ := List.exists_mem_of_ne_nil _ some
  obtain ⟨task, inside, _, need⟩ := first_left validated (· ∈ (inputOf dagSpec).tasks.map (·.id)) (fun _ known => known)
    (List.mem_map_of_mem (List.mem_map_of_mem member))
  obtain ⟨root, listed, rfl⟩ := List.mem_map.mp inside
  have free : root.dependsOn = [] := List.eq_nil_iff_forall_not_mem.mpr fun d depends => (need d depends).2 (need d depends).1
  exact ⟨root.id, rfl, Or.inl (List.mem_map_of_mem (List.mem_filter.mpr ⟨listed, decide_eq_true free⟩))⟩

end Validated
end Runs

def searching : DagWorld :=
  { launched branches with status := Function.update (fun _ => .pending) "search" .running, live := ["search"], messages := [] }

end Bike4Mind.Dag
