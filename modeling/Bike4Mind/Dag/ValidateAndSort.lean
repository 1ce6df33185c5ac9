import Bike4Mind.Collections.Dependencies
import Mathlib.Data.Finset.Basic

/-! Validating a decomposition into tasks, and its execution levels. -/

namespace Bike4Mind.Dag
open Collections

structure DecomposedTask where
  id : String
  dependsOn : List String

structure DecomposeTaskInput where
  tasks : List DecomposedTask

abbrev Tasks := OrderedMap String DecomposedTask

/-- The first loop of `validateAndSort`. -/
def byId (tasks : Tasks) : List DecomposedTask → Except String Tasks
  | [] => .ok tasks
  | task :: rest =>
    if task.id ∈ tasks.keys then .error ("Duplicate task id: \"" ++ task.id ++ "\"")
    else byId (tasks.set task.id task) rest

def checkDependencies (tasks : Tasks) (taskId : String) : List String → Except String Unit
  | [] => .ok ()
  | depId :: rest =>
    if depId ∉ tasks.keys then .error ("Task \"" ++ taskId ++ "\" depends on unknown task \"" ++ depId ++ "\"")
    else if depId = taskId then .error ("Task \"" ++ taskId ++ "\" cannot depend on itself")
    else checkDependencies tasks taskId rest

/-- The second loop of `validateAndSort`. -/
def checkAll (tasks : Tasks) : List (String × DecomposedTask) → Except String Unit
  | [] => .ok ()
  | (taskId, task) :: rest =>
    match checkDependencies tasks taskId task.dependsOn with
    | .error e => .error e
    | .ok () => checkAll tasks rest

/-! ### detectCycles -/

inductive Phase where
  | enter
  | exit

/-- `stack` has its top first. -/
structure Search where
  visited : Finset String := ∅
  inStack : Finset String := ∅
  stack : List (String × Phase) := []

/-- The loop over `dependsOn` of the task `id`. -/
def pushDependencies (s : Search) (id : String) : List String → Except String Search
  | [] => .ok s
  | depId :: rest =>
    if depId ∈ s.inStack then .error ("Circular dependency detected: \"" ++ id ++ "\" → \"" ++ depId ++ "\"")
    else if depId ∈ s.visited then pushDependencies s id rest
    else pushDependencies { s with stack := (depId, .enter) :: s.stack } id rest

theorem pushDependencies_visited {s s' : Search} {id : String} {dependsOn : List String}
    (pushed : pushDependencies s id dependsOn = .ok s') : s'.visited = s.visited := by
  induction dependsOn generalizing s with
  | nil =>
    cases pushed
    rfl
  | cons depId rest ih =>
    unfold pushDependencies at pushed
    split at pushed
    · cases pushed
    · split at pushed
      · exact ih pushed
      · have same := ih pushed
        exact same

/-- The tasks that the search has not visited. -/
def unvisited (tasks : Tasks) (s : Search) : Nat := tasks.keys.countP (· ∉ s.visited)

theorem unvisited_insert {tasks : Tasks} {s s' : Search} {id : String} {task : DecomposedTask} (found : tasks.get? id = some task)
    (fresh : id ∉ s.visited) (visited : s'.visited = insert id s.visited) : unvisited tasks s' < unvisited tasks s := by
  unfold unvisited
  rw [visited]
  have present : id ∈ tasks.keys := OrderedMap.mem_keys_iff.mpr ⟨task, found⟩
  have fewer : ∀ keys : List String, keys.countP (· ∉ insert id s.visited) ≤ keys.countP (· ∉ s.visited) := by
    intro keys
    refine List.countP_mono_left fun k _ other => decide_eq_true fun old => ?_
    exact of_decide_eq_true other (Finset.mem_insert_of_mem old)
  obtain ⟨before, after, split⟩ := List.append_of_mem present
  rw [split, List.countP_append, List.countP_append, List.countP_cons, List.countP_cons]
  have left := fewer before
  have right := fewer after
  have now : decide (id ∉ insert id s.visited) = false := decide_eq_false fun absent => absent (Finset.mem_insert_self ..)
  rw [now, decide_eq_true fresh, if_neg Bool.false_ne_true, if_pos rfl]
  omega

/-- The `while` loop of `detectCycles`: an `enter` is left out for a visited task, and a task is left with its `exit`. -/
def search (tasks : Tasks) (s : Search) : Except String Search :=
  match _stacked : s.stack with
  | [] => .ok s
  | (id, .exit) :: stack => search tasks { s with inStack := s.inStack.erase id, stack }
  | (id, .enter) :: stack =>
    if id ∈ s.inStack then .error ("Circular dependency detected involving task \"" ++ id ++ "\"")
    else if _fresh : id ∈ s.visited then search tasks { s with stack }
    else
      match _found : tasks.get? id with
      | none => .error "TypeError"
      | some task =>
        match _pushed : pushDependencies ⟨insert id s.visited, insert id s.inStack, (id, .exit) :: stack⟩ id task.dependsOn with
        | .error e => .error e
        | .ok s' => search tasks s'
termination_by (unvisited tasks s, s.stack.length)
decreasing_by
  · rw [_stacked]
    exact Prod.Lex.right _ (Nat.lt_succ_self _)
  · rw [_stacked]
    exact Prod.Lex.right _ (Nat.lt_succ_self _)
  · exact Prod.Lex.left _ _ (unvisited_insert _found _fresh (pushDependencies_visited _pushed))

def detectCyclesFrom (tasks : Tasks) (s : Search) : List String → Except String Search
  | [] => .ok s
  | taskId :: rest =>
    if taskId ∈ s.visited then detectCyclesFrom tasks s rest
    else
      match search tasks { s with stack := [(taskId, .enter)] } with
      | .error e => .error e
      | .ok s => detectCyclesFrom tasks s rest

def detectCycles (tasks : Tasks) : Except String Unit := (detectCyclesFrom tasks {} tasks.keys).map fun _ => ()

/-! ### topologicalSort -/

def inDegreeOf (tasks : Tasks) : OrderedMap String Int :=
  tasks.entries.foldl (fun inDegree e => inDegree.set e.1 e.2.dependsOn.length) ∅

/-- `dependents.get(taskId) || []` -/
def dependentsOf (dependents : OrderedMap String (List String)) (taskId : String) : List String := (dependents.get? taskId).getD []

/-- Each task in the list of each of its dependencies, once for each time it names it. -/
def dependentsIn (tasks : Tasks) : OrderedMap String (List String) :=
  (tasks.entries.flatMap fun e => e.2.dependsOn.map fun depId => (depId, e.1)).foldl
    (fun dependents e => dependents.set e.1 (dependentsOf dependents e.1 ++ [e.2])) ∅

/-- The loop over a level: the degrees after it, and the next level. -/
def finishLevel (dependents : OrderedMap String (List String)) (inDegree : OrderedMap String Int) (currentLevel : List String) :
    OrderedMap String Int × List String :=
  release inDegree (currentLevel.flatMap (dependentsOf dependents))

def levelsFrom (dependents : OrderedMap String (List String)) (inDegree : OrderedMap String Int) (currentLevel : List String) :
    List (List String) :=
  if _more : currentLevel = [] then []
  else
    currentLevel ::
      levelsFrom dependents (finishLevel dependents inDegree currentLevel).1 (finishLevel dependents inDegree currentLevel).2
termination_by positives inDegree + currentLevel.length
decreasing_by
  unfold finishLevel
  rw [release_positives]
  exact Nat.lt_add_of_pos_right (List.length_pos_of_ne_nil _more)

def topologicalSort (tasks : Tasks) : List (List String) :=
  let inDegree := inDegreeOf tasks
  levelsFrom (dependentsIn tasks) inDegree (tasks.keys.filter fun id => inDegree.get? id = some 0)

def validateAndSort (input : DecomposeTaskInput) : Except String (List (List String)) := do
  let tasks ← byId ∅ input.tasks
  checkAll tasks tasks.entries
  detectCycles tasks
  return topologicalSort tasks

end Bike4Mind.Dag
