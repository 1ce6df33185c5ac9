import Bike4Mind.Dag.ValidateAndSort
import Mathlib.Data.Finset.Dedup

/-! The search of `detectCycles` ends with every task after its dependencies, or on a real cycle. -/

namespace Bike4Mind.Dag
open Collections

def dependsOnOf (tasks : Tasks) (id : String) : List String := (tasks.get? id).elim [] DecomposedTask.dependsOn

/-- The tasks that the search is in, the innermost first. -/
def exits : List (String × Phase) → List String
  | [] => []
  | (_, .enter) :: rest => exits rest
  | (id, .exit) :: rest => id :: exits rest

/-- Each entry is a dependency of the next task below it that the search is in. -/
def Linked (deps : String → List String) : List (String × Phase) → Prop
  | [] => True
  | (id, _) :: rest => (∀ inner ∈ (exits rest).head?, Needs deps inner id) ∧ Linked deps rest

/-- Once all above it is done, the dependencies of each `exit` are done. -/
def Covers (deps : String → List String) : List String → List (String × Phase) → Prop
  | _, [] => True
  | done, (id, .enter) :: rest => Covers deps (id :: done) rest
  | done, (id, .exit) :: rest => (∀ depId ∈ deps id, depId ∈ done) ∧ Covers deps (id :: done) rest

def entering (ids : List String) : List (String × Phase) := ids.map fun id => (id, .enter)

section Stacks
variable {deps : String → List String} {done done' : List String} {stack : List (String × Phase)} {ids : List String} {id : String}

theorem exits_entering : exits (entering ids ++ stack) = exits stack := by
  induction ids with
  | nil => rfl
  | cons id ids ih => exact ih

theorem Linked.path (linked : Linked deps stack) (top : ∀ inner ∈ (exits stack).head?, Needs deps inner id) {outer : String}
    (inside : outer ∈ exits stack) : Relation.TransGen (Needs deps) outer id := by
  induction stack generalizing id with
  | nil => cases inside
  | cons entry rest ih =>
    obtain ⟨next, phase⟩ := entry
    cases phase with
    | enter => exact ih linked.2 top inside
    | exit =>
      have need := top next rfl
      rcases List.mem_cons.mp inside with rfl | deeper
      · exact .single need
      · exact (ih linked.2 linked.1 deeper).tail need

theorem Linked.entering (linked : Linked deps stack) (needed : ∀ id ∈ ids, ∀ inner ∈ (exits stack).head?, Needs deps inner id) :
    Linked deps (entering ids ++ stack) := by
  induction ids with
  | nil => exact linked
  | cons id ids ih =>
    refine ⟨fun inner top => ?_, ih fun other member => needed other (List.mem_cons_of_mem _ member)⟩
    have below : (exits (Dag.entering ids ++ stack)).head? = (exits stack).head? := by rw [exits_entering]
    exact needed id List.mem_cons_self inner (below ▸ top)

theorem Covers.mono (covers : Covers deps done stack) (more : done ⊆ done') : Covers deps done' stack := by
  induction stack generalizing done done' with
  | nil => trivial
  | cons entry rest ih =>
    obtain ⟨id, phase⟩ := entry
    cases phase with
    | enter => exact ih covers (List.cons_subset_cons id more)
    | exit => exact ⟨fun depId need => more (covers.1 depId need), ih covers.2 (List.cons_subset_cons id more)⟩

theorem covers_entering (covers : ∀ done', done ⊆ done' → ids ⊆ done' → Covers deps done' stack) :
    Covers deps done (entering ids ++ stack) := by
  induction ids generalizing done with
  | nil => exact covers done (List.Subset.refl _) (List.nil_subset _)
  | cons id ids ih =>
    refine ih fun done' older new => covers done' (fun x inside => older (List.mem_cons_of_mem _ inside)) ?_
    exact List.cons_subset.mpr ⟨older List.mem_cons_self, new⟩

end Stacks

/-- Where the search is: `done` has the tasks that it has left, the latest first. -/
structure Sound (deps : String → List String) (s : Search) (done : List String) : Prop where
  sorted : Sorted deps done
  visited : ∀ id, id ∈ s.visited ↔ id ∈ s.inStack ∨ id ∈ done
  inStack : s.inStack = (exits s.stack).toFinset
  distinct : (exits s.stack).Nodup
  covers : Covers deps done s.stack
  linked : Linked deps s.stack

/-- What a search from `s` comes to. -/
def Outcome (deps : String → List String) (s : Search) : Except String Search → Prop
  | .ok s' => (∃ done, Sound deps s' done) ∧ s'.stack = [] ∧ s.visited ⊆ s'.visited ∧ ∀ entry ∈ s.stack, entry.1 ∈ s'.visited
  | .error _ => ∃ id, Relation.TransGen (Needs deps) id id

theorem pushDependencies_ok {s s' : Search} {id : String} {dependsOn : List String} (pushed : pushDependencies s id dependsOn = .ok s') :
    ∃ ids, ids ⊆ dependsOn ∧ s' = { s with stack := entering ids ++ s.stack } ∧
      ∀ depId ∈ dependsOn, depId ∈ ids ∨ depId ∈ s.visited ∧ depId ∉ s.inStack := by
  induction dependsOn generalizing s with
  | nil =>
    cases pushed
    exact ⟨[], List.nil_subset _, rfl, fun _ member => by cases member⟩
  | cons depId rest ih =>
    unfold pushDependencies at pushed
    split at pushed
    · cases pushed
    · rename_i left
      split at pushed
      · rename_i old
        obtain ⟨ids, within, rfl, all⟩ := ih pushed
        refine ⟨ids, List.subset_cons_of_subset _ within, rfl, ?_⟩
        rintro other (_ | ⟨_, later⟩)
        · exact .inr ⟨old, left⟩
        · exact all other later
      · obtain ⟨ids, within, rfl, all⟩ := ih pushed
        refine ⟨ids ++ [depId], ?_, ?_, ?_⟩
        · exact List.append_subset.mpr ⟨List.subset_cons_of_subset _ within, by simp⟩
        · simp [entering]
        · rintro other (_ | ⟨_, later⟩)
          · exact .inl (by simp)
          · exact (all other later).imp_left (List.mem_append_left _)

theorem pushDependencies_error {s : Search} {id e : String} {dependsOn : List String} (failed : pushDependencies s id dependsOn = .error e) :
    ∃ depId ∈ dependsOn, depId ∈ s.inStack := by
  induction dependsOn generalizing s with
  | nil => cases failed
  | cons depId rest ih =>
    unfold pushDependencies at failed
    split at failed
    · rename_i inside
      exact ⟨depId, List.mem_cons_self, inside⟩
    · split at failed
      · obtain ⟨other, member, inside⟩ := ih failed
        exact ⟨other, List.mem_cons_of_mem _ member, inside⟩
      · obtain ⟨other, member, inside⟩ := ih failed
        exact ⟨other, List.mem_cons_of_mem _ member, inside⟩

namespace Sound
variable {deps : String → List String} {s s' : Search} {done stack : List (String × Phase)} {id : String}
variable {done : List String}

theorem leave (sound : Sound deps s done) (stacked : s.stack = (id, .exit) :: stack) :
    Sound deps { s with inStack := s.inStack.erase id, stack } (id :: done) := by
  obtain ⟨sorted, visited, inStack, distinct, covers, linked⟩ := sound
  rw [stacked] at inStack distinct covers linked
  obtain ⟨once, distinct⟩ := List.nodup_cons.mp distinct
  refine ⟨⟨covers.1, sorted⟩, fun other => ?_, ?_, distinct, covers.2, linked.2⟩
  · rw [visited other, Finset.mem_erase, List.mem_cons]
    by_cases own : other = id
    · subst own
      have inside : other ∈ s.inStack := inStack ▸ List.mem_toFinset.mpr List.mem_cons_self
      exact ⟨fun _ => .inr (.inl rfl), fun _ => .inl inside⟩
    · exact or_congr (and_iff_right own).symm (or_iff_right own).symm
  · rw [inStack]
    ext other
    simp only [exits, List.toFinset_cons, Finset.mem_erase, Finset.mem_insert, List.mem_toFinset]
    constructor
    · rintro ⟨other, own | inside⟩
      · exact absurd own other
      · exact inside
    · intro inside
      exact ⟨fun own => once (own ▸ inside), .inr inside⟩

theorem skip (sound : Sound deps s done) (stacked : s.stack = (id, .enter) :: stack) (left : id ∉ s.inStack) (old : id ∈ s.visited) :
    Sound deps { s with stack } done := by
  obtain ⟨sorted, visited, inStack, distinct, covers, linked⟩ := sound
  rw [stacked] at inStack distinct covers linked
  have finished : id ∈ done := ((visited id).mp old).resolve_left left
  have covers : Covers deps (id :: done) stack := covers
  exact ⟨sorted, visited, inStack, distinct, covers.mono (List.cons_subset.mpr ⟨finished, List.Subset.refl _⟩), linked.2⟩

theorem enter (sound : Sound deps s done) (stacked : s.stack = (id, .enter) :: stack) (left : id ∉ s.inStack)
    (pushed : pushDependencies ⟨insert id s.visited, insert id s.inStack, (id, .exit) :: stack⟩ id (deps id) = .ok s') :
    Sound deps s' done := by
  obtain ⟨sorted, visited, inStack, distinct, covers, linked⟩ := sound
  rw [stacked] at inStack distinct covers linked
  obtain ⟨ids, within, rfl, all⟩ := pushDependencies_ok pushed
  have inside : exits (entering ids ++ (id, .exit) :: stack) = id :: exits stack := exits_entering
  have covers : Covers deps (id :: done) stack := covers
  refine ⟨sorted, fun other => ?_, ?_, ?_, ?_, ?_⟩
  · rw [Finset.mem_insert, Finset.mem_insert, visited other, or_assoc]
  · show insert id s.inStack = (exits (entering ids ++ (id, .exit) :: stack)).toFinset
    rw [inside, inStack, List.toFinset_cons]
    rfl
  · show (exits (entering ids ++ (id, .exit) :: stack)).Nodup
    rw [inside]
    refine List.nodup_cons.mpr ⟨fun again => left ?_, distinct⟩
    rw [inStack]
    exact List.mem_toFinset.mpr again
  · refine covers_entering fun done' older new => ⟨fun depId need => ?_, covers.mono (List.cons_subset_cons id older)⟩
    rcases all depId need with pushed | ⟨seen, outside⟩
    · exact new pushed
    · -- A dependency that was visited and is not in the stack has been left.
      have other : depId ≠ id ∧ depId ∉ s.inStack := by simpa using outside
      have before : depId ∈ s.visited := by simpa [other.1] using seen
      exact older (((visited depId).mp before).resolve_left other.2)
  · refine Linked.entering linked fun depId member inner top => ?_
    cases top
    exact within member

theorem cycle_entered (sound : Sound deps s done) (stacked : s.stack = (id, .enter) :: stack) (inside : id ∈ s.inStack) :
    Relation.TransGen (Needs deps) id id := by
  have linked := stacked ▸ sound.linked
  rw [sound.inStack, List.mem_toFinset, stacked] at inside
  exact linked.2.path linked.1 inside

theorem cycle_pushed (sound : Sound deps s done) (stacked : s.stack = (id, .enter) :: stack) {depId : String} (need : depId ∈ deps id)
    (inside : depId ∈ insert id s.inStack) : Relation.TransGen (Needs deps) depId depId := by
  have linked := stacked ▸ sound.linked
  rcases Finset.mem_insert.mp inside with rfl | inside
  · exact .single need
  · rw [sound.inStack, List.mem_toFinset, stacked] at inside
    exact (linked.2.path linked.1 inside).tail need

end Sound

theorem Outcome.since {deps : String → List String} {s s' : Search} {result : Except String Search} (outcome : Outcome deps s' result)
    (grown : s.visited ⊆ s'.visited) (stack : ∀ entry ∈ s.stack, entry ∈ s'.stack ∨ entry.1 ∈ s'.visited) : Outcome deps s result := by
  cases result with
  | error e => exact outcome
  | ok last =>
    obtain ⟨sound, emptied, more, all⟩ := outcome
    refine ⟨sound, emptied, fun id old => more (grown old), fun entry member => ?_⟩
    rcases stack entry member with later | seen
    · exact all entry later
    · exact more seen

theorem search_outcome {tasks : Tasks} {s : Search} {done : List String} (sound : Sound (dependsOnOf tasks) s done)
    (known : ∀ entry ∈ s.stack, entry.1 ∈ tasks.keys)
    (closed : ∀ id ∈ tasks.keys, ∀ depId ∈ dependsOnOf tasks id, depId ∈ tasks.keys) :
    Outcome (dependsOnOf tasks) s (search tasks s) := by
  fun_induction search tasks s generalizing done with
  | case1 s stacked => exact ⟨⟨done, sound⟩, stacked, Finset.Subset.refl _, fun _ member => by rw [stacked] at member; cases member⟩
  | case2 s id stack stacked ih =>
    have inside : id ∈ s.inStack := by
      rw [sound.inStack, stacked]
      exact List.mem_toFinset.mpr List.mem_cons_self
    rw [stacked] at known
    have next := ih (sound.leave stacked) fun entry member => known entry (List.mem_cons_of_mem _ member)
    refine next.since (Finset.Subset.refl _) fun entry member => ?_
    rw [stacked] at member
    rcases List.mem_cons.mp member with rfl | below
    · exact .inr ((sound.visited id).mpr (.inl inside))
    · exact .inl below
  | case3 s id stack stacked inside => exact ⟨id, sound.cycle_entered stacked inside⟩
  | case4 s id stack stacked left old ih =>
    rw [stacked] at known
    have next := ih (sound.skip stacked left old) fun entry member => known entry (List.mem_cons_of_mem _ member)
    refine next.since (Finset.Subset.refl _) fun entry member => ?_
    rw [stacked] at member
    rcases List.mem_cons.mp member with rfl | below
    · exact .inr old
    · exact .inl below
  | case5 s id stack stacked left fresh absent =>
    have present := known (id, .enter) (by rw [stacked]; exact List.mem_cons_self)
    obtain ⟨task, found⟩ := OrderedMap.mem_keys_iff.mp present
    cases absent.symm.trans found
  | case6 s id stack stacked left fresh task found e failed =>
    have deps : dependsOnOf tasks id = task.dependsOn := by rw [dependsOnOf, found]; rfl
    obtain ⟨depId, need, inside⟩ := pushDependencies_error failed
    exact ⟨depId, sound.cycle_pushed stacked (deps ▸ need) inside⟩
  | case7 s id stack stacked left fresh task found s' pushed ih =>
    have deps : dependsOnOf tasks id = task.dependsOn := by rw [dependsOnOf, found]; rfl
    have present : id ∈ tasks.keys := OrderedMap.mem_keys_iff.mpr ⟨task, found⟩
    have entered : Sound (dependsOnOf tasks) s' done := sound.enter stacked left (deps ▸ pushed)
    obtain ⟨ids, within, rfl, _⟩ := pushDependencies_ok pushed
    rw [stacked] at known
    have next := ih entered fun entry member => by
      rcases List.mem_append.mp member with new | below
      · obtain ⟨depId, named, rfl⟩ := List.mem_map.mp new
        exact closed id present depId (deps ▸ within named)
      · rcases List.mem_cons.mp below with rfl | below
        · exact present
        · exact known entry (List.mem_cons_of_mem _ below)
    refine next.since (Finset.subset_insert _ _) fun entry member => ?_
    rw [stacked] at member
    rcases List.mem_cons.mp member with rfl | below
    · exact .inr (Finset.mem_insert_self ..)
    · exact .inl (List.mem_append_right _ (List.mem_cons_of_mem _ below))

/-- Between two searches. -/
def Outside (deps : String → List String) (s : Search) : Prop := (∃ done, Sound deps s done) ∧ s.stack = []

theorem detectCyclesFrom_outcome {tasks : Tasks} {s : Search} {ids : List String} (outside : Outside (dependsOnOf tasks) s)
    (known : ids ⊆ tasks.keys) (closed : ∀ id ∈ tasks.keys, ∀ depId ∈ dependsOnOf tasks id, depId ∈ tasks.keys) :
    (∀ s', detectCyclesFrom tasks s ids = .ok s' → Outside (dependsOnOf tasks) s' ∧ s.visited ⊆ s'.visited ∧ ∀ id ∈ ids, id ∈ s'.visited) ∧
      ∀ e, detectCyclesFrom tasks s ids = .error e → ∃ id, Relation.TransGen (Needs (dependsOnOf tasks)) id id := by
  induction ids generalizing s with
  | nil =>
    refine ⟨fun s' passed => ?_, fun e failed => by cases failed⟩
    cases passed
    exact ⟨outside, Finset.Subset.refl _, fun _ member => by cases member⟩
  | cons taskId rest ih =>
    obtain ⟨present, later⟩ := List.cons_subset.mp known
    unfold detectCyclesFrom
    split
    · rename_i old
      obtain ⟨passes, fails⟩ := ih outside later
      refine ⟨fun s' passed => ?_, fails⟩
      obtain ⟨outside, grown, all⟩ := passes s' passed
      refine ⟨outside, grown, ?_⟩
      rintro id (_ | ⟨_, member⟩)
      · exact grown old
      · exact all id member
    · obtain ⟨⟨done, sorted, visited, inStack, distinct, covers, linked⟩, empty⟩ := outside
      rw [empty] at inStack
      have start : Sound (dependsOnOf tasks) { s with stack := [(taskId, .enter)] } done :=
        ⟨sorted, visited, inStack, List.nodup_nil, trivial, fun _ top => (Option.not_mem_none _ top).elim, trivial⟩
      have outcome := search_outcome start (fun entry member => by cases List.mem_singleton.mp member; exact present) closed
      split
      · rename_i e failed
        rw [failed] at outcome
        refine ⟨fun _ passed => ?_, fun _ _ => outcome⟩
        cases passed
      · rename_i next searched
        rw [searched] at outcome
        obtain ⟨sound, emptied, more, all⟩ := outcome
        obtain ⟨passes, fails⟩ := ih ⟨sound, emptied⟩ later
        refine ⟨fun s' passed => ?_, fails⟩
        obtain ⟨outside, grown, rest⟩ := passes s' passed
        refine ⟨outside, more.trans grown, ?_⟩
        rintro id (_ | ⟨_, member⟩)
        · exact grown (all _ List.mem_cons_self)
        · exact rest id member

variable {tasks : Tasks} (closed : ∀ id ∈ tasks.keys, ∀ depId ∈ dependsOnOf tasks id, depId ∈ tasks.keys)
include closed

/-- Tasks that pass have an order in which each is after its dependencies. -/
theorem detectCycles_ok {passed : Unit} (ok : detectCycles tasks = .ok passed) :
    ∃ order, Sorted (dependsOnOf tasks) order ∧ ∀ id ∈ tasks.keys, id ∈ order := by
  have start : Outside (dependsOnOf tasks) {} :=
    ⟨⟨[], trivial, fun _ => by simp, rfl, List.nodup_nil, trivial, trivial⟩, rfl⟩
  unfold detectCycles at ok
  cases searched : detectCyclesFrom tasks {} tasks.keys with
  | error e => rw [searched] at ok; cases ok
  | ok last =>
    obtain ⟨⟨⟨done, sound⟩, emptied⟩, _, all⟩ := (detectCyclesFrom_outcome start (List.Subset.refl _) closed).1 last searched
    refine ⟨done, sound.sorted, fun id member => ?_⟩
    refine ((sound.visited id).mp (all id member)).resolve_left ?_
    rw [sound.inStack, emptied]
    exact List.not_mem_nil

theorem detectCycles_error {e : String} (error : detectCycles tasks = .error e) :
    ∃ id, Relation.TransGen (Needs (dependsOnOf tasks)) id id := by
  have start : Outside (dependsOnOf tasks) {} :=
    ⟨⟨[], trivial, fun _ => by simp, rfl, List.nodup_nil, trivial, trivial⟩, rfl⟩
  unfold detectCycles at error
  cases searched : detectCyclesFrom tasks {} tasks.keys with
  | error e => exact (detectCyclesFrom_outcome start (List.Subset.refl _) closed).2 e searched
  | ok last => rw [searched] at error; cases error

end Bike4Mind.Dag
