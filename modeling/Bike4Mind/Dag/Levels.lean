import Bike4Mind.Dag.CycleSearch
import Mathlib.Data.List.Perm.Basic

/-! `validateAndSort` accepts the acyclic graphs, and puts each task one level above the highest of its dependencies. -/

namespace Bike4Mind.Dag
open Collections

/-! ### The counts before the first level -/

section Counting
variable {tasks : Tasks} {k p : String}

theorem entry_split (present : k ∈ tasks.keys) : ∃ before task after, tasks.entries = before ++ (k, task) :: after ∧
    dependsOnOf tasks k = task.dependsOn ∧ (∀ e ∈ before, e.1 ≠ k) ∧ ∀ e ∈ after, e.1 ≠ k := by
  obtain ⟨before, task, after, split, left, right⟩ := OrderedMap.entries_split present
  refine ⟨before, task, after, split, ?_, left, right⟩
  have found : tasks.get? k = some task := OrderedMap.get?_of_mem (split ▸ List.mem_append_right _ List.mem_cons_self)
  rw [dependsOnOf, found]
  rfl

theorem inDegreeOf_get? (present : k ∈ tasks.keys) : (inDegreeOf tasks).get? k = some (((dependsOnOf tasks k).length : Nat) : Int) := by
  obtain ⟨before, task, after, split, deps, left, right⟩ := entry_split present
  have other : ∀ (entries : List (String × DecomposedTask)) (degrees : OrderedMap String Int), (∀ e ∈ entries, e.1 ≠ k) →
      (entries.foldl (fun inDegree e => inDegree.set e.1 (e.2.dependsOn.length : Int)) degrees).get? k = degrees.get? k := by
    intro entries
    induction entries with
    | nil => exact fun _ _ => rfl
    | cons e rest ih =>
      intro degrees apart
      obtain ⟨first, later⟩ := List.forall_mem_cons.mp apart
      rw [List.foldl_cons, ih _ later, OrderedMap.get?_set_other (Ne.symm first)]
  unfold inDegreeOf
  rw [split, List.foldl_append, List.foldl_cons, other after _ right, OrderedMap.get?_set_self, deps]

theorem grouped_dependents (pairs : List (String × String)) (groups : OrderedMap String (List String)) :
    dependentsOf (pairs.foldl (fun dependents e => dependents.set e.1 (dependentsOf dependents e.1 ++ [e.2])) groups) p =
      dependentsOf groups p ++ (pairs.filter (·.1 = p)).map Prod.snd := by
  induction pairs generalizing groups with
  | nil => simp
  | cons e rest ih =>
    rw [List.foldl_cons, ih, dependentsOf, OrderedMap.get?_set]
    by_cases own : e.1 = p
    · simp [own]
    · simp [own, Ne.symm own, dependentsOf]

theorem dependentsIn_count (present : k ∈ tasks.keys) :
    (dependentsOf (dependentsIn tasks) p).count k = (dependsOnOf tasks k).count p := by
  obtain ⟨before, task, after, split, deps, left, right⟩ := entry_split present
  have pairs : ∀ entries : List (String × DecomposedTask),
      ((entries.flatMap fun e => e.2.dependsOn.map fun depId => (depId, e.1)).filter (·.1 = p)).map Prod.snd =
        entries.flatMap fun e => List.replicate (e.2.dependsOn.count p) e.1 := by
    intro entries
    induction entries with
    | nil => rfl
    | cons e rest ih =>
      rw [List.flatMap_cons, List.filter_append, List.map_append, ih, List.flatMap_cons]
      congr 1
      induction e.2.dependsOn with
      | nil => rfl
      | cons depId more ih =>
        by_cases own : depId = p
        · simp [own, List.replicate_succ, ← ih]
        · simp [own, ← ih]
  have elsewhere : ∀ entries : List (String × DecomposedTask), (∀ e ∈ entries, e.1 ≠ k) →
      (entries.flatMap fun e => List.replicate (e.2.dependsOn.count p) e.1).count k = 0 := by
    intro entries apart
    refine List.count_eq_zero.mpr fun inside => ?_
    obtain ⟨e, member, same⟩ := List.mem_flatMap.mp inside
    exact apart e member (List.eq_of_mem_replicate same).symm
  unfold dependentsIn
  rw [grouped_dependents, pairs, split, List.flatMap_append, List.flatMap_cons, dependentsOf, OrderedMap.get?_empty]
  simp only [Option.getD_none, List.nil_append, List.count_append, elsewhere before left, elsewhere after right, List.count_replicate_self, deps]
  omega

end Counting

/-! ### The levels -/

/-- The levels after `done`: each is the tasks that have all their dependencies before it, until no such task is left. -/
def Layered (nodes : List String) (deps : String → List String) : List String → List (List String) → Prop
  | done, [] => ∀ k ∈ nodes, k ∉ done → ∃ b ∈ deps k, b ∉ done
  | done, level :: rest => level.Nodup ∧ (∀ k, k ∈ level ↔ k ∈ nodes ∧ k ∉ done ∧ ∀ b ∈ deps k, b ∈ done) ∧
      Layered nodes deps (done ++ level) rest

theorem levelsFrom_layered {nodes : List String} {deps : String → List String} {dependents : OrderedMap String (List String)}
    {inDegree : OrderedMap String Int} {done currentLevel : List String}
    (mirror : ∀ k p, k ∈ nodes → (dependentsOf dependents p).count k = (deps k).count p)
    (keys : ∀ k degree, inDegree.get? k = some degree → k ∈ nodes) (counts : Counts nodes deps done inDegree)
    (apart : (done ++ currentLevel).Nodup) (closed : ∀ k ∈ done, ∀ b ∈ deps k, b ∈ done)
    (current : ∀ k, k ∈ currentLevel ↔ k ∈ nodes ∧ k ∉ done ∧ ∀ b ∈ deps k, b ∈ done) :
    Layered nodes deps done (levelsFrom dependents inDegree currentLevel) := by
  fun_induction levelsFrom dependents inDegree currentLevel generalizing done with
  | case1 inDegree =>
    intro k node fresh
    by_contra covered
    have all : ∀ b ∈ deps k, b ∈ done := fun b need => by_contra fun missing => covered ⟨b, need, missing⟩
    cases (current k).mpr ⟨node, fresh, all⟩
  | case2 inDegree currentLevel more ih =>
    have mirror' : ∀ k ∈ nodes, ∀ p ∈ currentLevel, (dependentsOf dependents p).count k = (deps k).count p :=
      fun k node p _ => mirror k p node
    have ready : ∀ k, k ∈ (finishLevel dependents inDegree currentLevel).2 ↔ k ∈ nodes ∧ k ∉ done ++ currentLevel ∧ ∀ b ∈ deps k, b ∈ done ++ currentLevel := by
      intro k
      constructor
      · intro member
        obtain ⟨degree, found, _⟩ := mem_release.mp member
        have node := keys k degree found
        obtain ⟨⟨b, need, missing⟩, all⟩ := (counts.mem_release apart mirror' node).mp member
        refine ⟨node, fun old => missing ?_, all⟩
        rcases List.mem_append.mp old with before | now
        · exact closed k before b need
        · exact ((current k).mp now).2.2 b need
      · rintro ⟨node, fresh, all⟩
        refine (counts.mem_release apart mirror' node).mpr ⟨?_, all⟩
        by_contra covered
        have before : ∀ b ∈ deps k, b ∈ done := fun b need => by_contra fun missing => covered ⟨b, need, missing⟩
        exact fresh (List.mem_append_right _ ((current k).mpr ⟨node, fun old => fresh (List.mem_append_left _ old), before⟩))
    refine ⟨(List.nodup_append.mp apart).2.1, current, ih ?_ (counts.release apart mirror') ?_ ?_ ready⟩
    · intro k degree found
      unfold finishLevel at found
      rw [release_degree] at found
      obtain ⟨before, found, _⟩ := Option.map_eq_some_iff.mp found
      exact keys k before found
    · refine List.nodup_append.mpr ⟨apart, release_nodup, ?_⟩
      rintro a old b new rfl
      exact ((ready a).mp new).2.1 old
    · intro k old b need
      refine List.mem_append_left _ ?_
      rcases List.mem_append.mp old with before | now
      · exact closed k before b need
      · exact ((current k).mp now).2.2 b need

theorem topologicalSort_layered (tasks : Tasks) : Layered tasks.keys (dependsOnOf tasks) [] (topologicalSort tasks) := by
  have keys : ∀ k degree, (inDegreeOf tasks).get? k = some degree → k ∈ tasks.keys := by
    have within : ∀ (entries : List (String × DecomposedTask)) (degrees : OrderedMap String Int) k,
        k ∈ (entries.foldl (fun inDegree e => inDegree.set e.1 (e.2.dependsOn.length : Int)) degrees).keys →
          k ∈ degrees.keys ∨ k ∈ entries.map Prod.fst := by
      intro entries
      induction entries with
      | nil => exact fun _ _ => .inl
      | cons e rest ih =>
        intro degrees k inside
        rcases ih _ k inside with set | later
        · rcases OrderedMap.mem_keys_set.mp set with rfl | old
          · exact .inr List.mem_cons_self
          · exact .inl old
        · exact .inr (List.mem_cons_of_mem _ later)
    intro k degree found
    exact (within _ _ k (OrderedMap.mem_keys_iff.mpr ⟨degree, found⟩)).resolve_left List.not_mem_nil
  have first : ∀ k, k ∈ tasks.keys.filter (fun id => (inDegreeOf tasks).get? id = some 0) ↔
      k ∈ tasks.keys ∧ k ∉ ([] : List String) ∧ ∀ b ∈ dependsOnOf tasks k, b ∈ ([] : List String) := by
    intro k
    rw [List.mem_filter]
    refine and_congr_right fun present => ?_
    rw [inDegreeOf_get? present]
    simp [List.eq_nil_iff_forall_not_mem]
  refine levelsFrom_layered (fun k p present => dependentsIn_count present) keys ?_ ?_ (fun _ member => by cases member) first
  · intro k present
    rw [inDegreeOf_get? present, List.countP_eq_length.mpr fun _ _ => decide_eq_true List.not_mem_nil]
  · exact OrderedMap.keys_nodup.filter _

/-- The index of the level that a task is in. -/
def levelOf (levels : List (List String)) (id : String) : Nat := levels.findIdx (id ∈ ·)

namespace Layered
variable {nodes done : List String} {deps : String → List String} {levels : List (List String)} {k b : String}

theorem nodup (layered : Layered nodes deps done levels) (distinct : done.Nodup) : (done ++ levels.flatten).Nodup := by
  induction levels generalizing done with
  | nil => simpa using distinct
  | cons level rest ih =>
    obtain ⟨once, members, layered⟩ := layered
    rw [List.flatten_cons, ← List.append_assoc]
    refine ih layered (List.nodup_append.mpr ⟨distinct, once, ?_⟩)
    rintro a old b new rfl
    exact ((members a).mp new).2.1 old

theorem within (layered : Layered nodes deps done levels) (member : k ∈ levels.flatten) : k ∈ nodes := by
  induction levels generalizing done with
  | nil => cases member
  | cons level rest ih =>
    obtain ⟨_, members, layered⟩ := layered
    rcases List.mem_append.mp (List.flatten_cons ▸ member) with now | later
    · exact ((members k).mp now).1
    · exact ih layered later

theorem complete (layered : Layered nodes deps done levels) {order : List String} (sorted : Sorted deps order)
    (ordered : ∀ k ∈ nodes, k ∈ order) (known : ∀ k ∈ nodes, ∀ b ∈ deps k, b ∈ nodes) (node : k ∈ nodes) : k ∈ done ++ levels.flatten := by
  induction levels generalizing done with
  | nil =>
    by_contra missing
    rw [List.flatten_nil, List.append_nil] at missing
    have remains : ¬(k ∈ nodes → k ∈ done) := fun inside => missing (inside node)
    obtain ⟨first, _, fresh, all⟩ := Sorted.first_missing (fun k => k ∈ nodes → k ∈ done) sorted (ordered k node) remains
    obtain ⟨inside, fresh⟩ := Classical.not_imp.mp fresh
    obtain ⟨b, need, missed⟩ := layered first inside fresh
    exact missed (all b need (known first inside b need))
  | cons level rest ih =>
    rw [List.flatten_cons, ← List.append_assoc]
    exact ih layered.2.2

theorem get? (layered : Layered nodes deps done levels) {n : Nat} {level : List String} (found : levels[n]? = some level) :
    k ∈ level ↔ k ∈ nodes ∧ k ∉ done ++ (levels.take n).flatten ∧ ∀ b ∈ deps k, b ∈ done ++ (levels.take n).flatten := by
  induction levels generalizing done n with
  | nil => cases found
  | cons first rest ih =>
    obtain ⟨_, members, layered⟩ := layered
    cases n with
    | zero =>
      cases found
      simpa using members k
    | succ n =>
      rw [List.take_succ_cons, List.flatten_cons, ← List.append_assoc]
      exact ih layered found

/-- No rounds that respect the dependencies have a node earlier; `n` of them are over. -/
theorem earliest {round : String → Nat} {n : Nat} (layered : Layered nodes deps done levels)
    (respects : ∀ k ∈ nodes, ∀ b ∈ deps k, b ∈ nodes ∧ round b < round k) (late : ∀ k ∈ nodes, k ∉ done → n ≤ round k)
    (node : k ∈ nodes) (fresh : k ∉ done) : n + levelOf levels k ≤ round k := by
  induction levels generalizing done n with
  | nil => exact late k node fresh
  | cons level rest ih =>
    obtain ⟨_, members, layered⟩ := layered
    rw [levelOf, List.findIdx_cons]
    by_cases now : k ∈ level
    · simpa [now] using late k node fresh
    · have later : ∀ k ∈ nodes, k ∉ done ++ level → n + 1 ≤ round k := by
        intro k node fresh
        obtain ⟨old, now⟩ := not_or.mp (mt List.mem_append.mpr fresh)
        by_contra early
        refine now ((members k).mpr ⟨node, old, fun b need => by_contra fun missing => early ?_⟩)
        obtain ⟨known, before⟩ := respects k node b need
        exact (late b known missing).trans_lt before
      have reached := ih layered later fun old => (List.mem_append.mp old).elim fresh now
      unfold levelOf at reached
      simp only [now, decide_false, cond_false]
      omega

end Layered

theorem mem_take_iff {levels : List (List String)} {k : String} {n : Nat} :
    k ∈ (levels.take n).flatten ↔ levelOf levels k < n ∧ k ∈ levels.flatten := by
  unfold levelOf
  induction levels generalizing n with
  | nil => simp
  | cons level rest ih =>
    cases n with
    | zero => simp
    | succ n =>
      rw [List.take_succ_cons, List.flatten_cons, List.flatten_cons, List.mem_append, List.mem_append, List.findIdx_cons, ih]
      by_cases now : k ∈ level
      · simp [now]
      · simp [now]

/-! ### What is accepted -/

theorem byId_ok {tasks result : Tasks} {l : List DecomposedTask} (ok : byId tasks l = .ok result) :
    (tasks.keys ++ l.map DecomposedTask.id).Nodup ∧ result.entries = tasks.entries ++ l.map fun task => (task.id, task) := by
  induction l generalizing tasks with
  | nil =>
    cases ok
    refine ⟨?_, by simp⟩
    rw [List.map_nil, List.append_nil]
    exact OrderedMap.keys_nodup
  | cons task rest ih =>
    unfold byId at ok
    split at ok
    · cases ok
    · rename_i fresh
      have entries : (tasks.set task.id task).entries = tasks.entries ++ [(task.id, task)] := by
        unfold OrderedMap.set
        rw [dif_neg fresh]
      obtain ⟨distinct, all⟩ := ih ok
      rw [OrderedMap.keys_set_of_not_mem fresh, List.append_assoc] at distinct
      rw [entries, List.append_assoc] at all
      exact ⟨distinct, all⟩

theorem byId_error {tasks : Tasks} {l : List DecomposedTask} {e : String} (error : byId tasks l = .error e) :
    ¬(tasks.keys ++ l.map DecomposedTask.id).Nodup := by
  induction l generalizing tasks with
  | nil => cases error
  | cons task rest ih =>
    unfold byId at error
    split at error
    · rename_i twice
      intro distinct
      exact (List.nodup_append.mp distinct).2.2 task.id twice task.id List.mem_cons_self rfl
    · rename_i fresh
      have later := ih error
      rwa [OrderedMap.keys_set_of_not_mem fresh, List.append_assoc] at later

theorem checkDependencies_ok_iff {tasks : Tasks} {taskId : String} {dependsOn : List String} :
    checkDependencies tasks taskId dependsOn = .ok () ↔ ∀ depId ∈ dependsOn, depId ∈ tasks.keys ∧ depId ≠ taskId := by
  induction dependsOn with
  | nil => simp [checkDependencies]
  | cons depId rest ih =>
    unfold checkDependencies
    rw [List.forall_mem_cons]
    split
    · rename_i unknown
      exact ⟨fun ok => (by cases ok), fun all => absurd all.1.1 unknown⟩
    · rename_i known
      split
      · rename_i own
        exact ⟨fun ok => (by cases ok), fun all => absurd own all.1.2⟩
      · rename_i other
        rw [ih, and_iff_right ⟨not_not.mp known, other⟩]

theorem checkAll_ok_iff {tasks : Tasks} {entries : List (String × DecomposedTask)} : checkAll tasks entries = .ok () ↔
    ∀ e ∈ entries, ∀ depId ∈ e.2.dependsOn, depId ∈ tasks.keys ∧ depId ≠ e.1 := by
  induction entries with
  | nil => simp [checkAll]
  | cons e rest ih =>
    obtain ⟨taskId, task⟩ := e
    rw [List.forall_mem_cons, ← ih, ← checkDependencies_ok_iff]
    rw [checkAll]
    cases checkDependencies tasks taskId task.dependsOn with
    | error e => exact ⟨fun ok => (by cases ok), fun all => (by cases all.1)⟩
    | ok passed => exact ⟨fun ok => ⟨rfl, ok⟩, fun all => all.2⟩

def DependsOn (input : DecomposeTaskInput) (id depId : String) : Prop := ∃ task ∈ input.tasks, task.id = id ∧ depId ∈ task.dependsOn

structure WellFormed (input : DecomposeTaskInput) : Prop where
  distinct : (input.tasks.map DecomposedTask.id).Nodup
  known : ∀ task ∈ input.tasks, ∀ depId ∈ task.dependsOn, depId ≠ task.id ∧ ∃ other ∈ input.tasks, other.id = depId
  acyclic : ∀ id, ¬Relation.TransGen (DependsOn input) id id

section Accepted
variable {input : DecomposeTaskInput} {tasks : Tasks}

theorem keys_eq (entries : tasks.entries = input.tasks.map fun task => (task.id, task)) : tasks.keys = input.tasks.map DecomposedTask.id := by
  unfold OrderedMap.keys
  rw [entries, List.map_map]
  rfl

theorem dependsOnOf_eq (entries : tasks.entries = input.tasks.map fun task => (task.id, task)) {task : DecomposedTask}
    (member : task ∈ input.tasks) : dependsOnOf tasks task.id = task.dependsOn := by
  have found : tasks.get? task.id = some task := OrderedMap.get?_of_mem (entries ▸ List.mem_map_of_mem member)
  rw [dependsOnOf, found]
  rfl

theorem needs_eq (entries : tasks.entries = input.tasks.map fun task => (task.id, task)) : Needs (dependsOnOf tasks) = DependsOn input := by
  ext id depId
  constructor
  · intro need
    cases found : tasks.get? id with
    | none =>
      rw [Needs, dependsOnOf, found] at need
      cases need
    | some task =>
      rw [Needs, dependsOnOf, found] at need
      have entry := OrderedMap.mem_of_get? found
      rw [entries] at entry
      obtain ⟨other, member, same⟩ := List.mem_map.mp entry
      cases same
      exact ⟨task, member, rfl, need⟩
  · rintro ⟨task, member, rfl, need⟩
    rw [Needs, dependsOnOf_eq entries member]
    exact need

theorem validateAndSort_ok_iff {levels : List (List String)} : validateAndSort input = .ok levels ↔ ∃ tasks, byId ∅ input.tasks = .ok tasks ∧
    checkAll tasks tasks.entries = .ok () ∧ detectCycles tasks = .ok () ∧ topologicalSort tasks = levels := by
  unfold validateAndSort
  cases byId ∅ input.tasks with
  | error e => exact ⟨fun ok => (by cases ok), fun all => (by obtain ⟨_, ok, _⟩ := all; cases ok)⟩
  | ok tasks =>
    simp only [Except.ok.injEq, exists_eq_left']
    show (checkAll tasks tasks.entries >>= fun _ => detectCycles tasks >>= fun _ => pure (topologicalSort tasks)) = .ok levels ↔ _
    cases checkAll tasks tasks.entries with
    | error e => exact ⟨fun ok => (by cases ok), fun all => (by cases all.1)⟩
    | ok checked =>
      cases detectCycles tasks with
      | error e => exact ⟨fun ok => (by cases ok), fun all => (by cases all.2.1)⟩
      | ok passed => exact ⟨fun ok => ⟨rfl, rfl, Except.ok.inj ok⟩, fun all => congrArg Except.ok all.2.2⟩

theorem closed_iff (entries : tasks.entries = input.tasks.map fun task => (task.id, task)) : checkAll tasks tasks.entries = .ok () ↔
    ∀ task ∈ input.tasks, ∀ depId ∈ task.dependsOn, depId ≠ task.id ∧ ∃ other ∈ input.tasks, other.id = depId := by
  rw [checkAll_ok_iff, entries, keys_eq entries, List.forall_mem_map]
  simp only [List.mem_map]
  exact forall_congr' fun task => forall_congr' fun _ => forall_congr' fun depId => forall_congr' fun _ => and_comm

theorem closed_of (entries : tasks.entries = input.tasks.map fun task => (task.id, task)) (checked : checkAll tasks tasks.entries = .ok ()) :
    ∀ id ∈ tasks.keys, ∀ depId ∈ dependsOnOf tasks id, depId ∈ tasks.keys := by
  intro id present depId need
  rw [keys_eq entries] at present ⊢
  obtain ⟨task, member, rfl⟩ := List.mem_map.mp present
  rw [dependsOnOf_eq entries member] at need
  obtain ⟨_, other, there, rfl⟩ := (closed_iff entries).mp checked task member depId need
  exact List.mem_map_of_mem there

end Accepted

section Levels
variable {nodes : List String} {deps : String → List String} {levels : List (List String)} {k : String}

theorem levelOf_eq (layered : Layered nodes deps [] levels) (listed : ∀ k ∈ nodes, k ∈ levels.flatten) (known : ∀ b ∈ deps k, b ∈ nodes)
    (node : k ∈ nodes) : levelOf levels k = ((deps k).map fun b => levelOf levels b + 1).foldr max 0 := by
  have place : ∃ level, levels[levelOf levels k]? = some level ∧ k ∈ level := by
    obtain ⟨level, inside, member⟩ := List.mem_flatten.mp (listed k node)
    have found : levelOf levels k < levels.length := List.findIdx_lt_length_of_exists ⟨level, inside, decide_eq_true member⟩
    exact ⟨_, List.getElem?_eq_getElem found, of_decide_eq_true (List.findIdx_getElem (w := found))⟩
  obtain ⟨level, found, member⟩ := place
  have before : ∀ b ∈ deps k, levelOf levels b < levelOf levels k := fun b need =>
    (mem_take_iff.mp (((layered.get? found).mp member).2.2 b need)).1
  have upper : ∀ l : List String, (∀ b ∈ l, levelOf levels b < levelOf levels k) →
      (l.map fun b => levelOf levels b + 1).foldr max 0 ≤ levelOf levels k := by
    intro l small
    induction l with
    | nil => exact Nat.zero_le _
    | cons b l ih =>
      obtain ⟨first, later⟩ := List.forall_mem_cons.mp small
      exact max_le first (ih later)
  have lower : ∀ {l : List String} {b}, b ∈ l → levelOf levels b + 1 ≤ (l.map fun b => levelOf levels b + 1).foldr max 0 := by
    intro l b inside
    induction l with
    | nil => cases inside
    | cons c l ih =>
      rcases List.mem_cons.mp inside with rfl | later
      · exact le_max_left _ _
      · exact (ih later).trans (le_max_right _ _)
  refine Nat.le_antisymm ?_ (upper (deps k) before)
  cases place : levelOf levels k with
  | zero => exact Nat.zero_le _
  | succ n =>
    -- One level lower, something it needs was missing.
    have short : n < levels.length := by
      have := (List.getElem?_eq_some_iff.mp found).choose
      omega
    have early : k ∉ levels[n] := fun inside => by
      have := ((layered.get? (List.getElem?_eq_getElem short)).mp inside).2.1
      have late : n < levelOf levels k := by omega
      have := List.not_of_lt_findIdx late
      simp [inside] at this
    have missing : ∃ b ∈ deps k, b ∉ (levels.take n).flatten := by
      by_contra covered
      refine early ((layered.get? (List.getElem?_eq_getElem short)).mpr ⟨node, ?_, fun b need => ?_⟩)
      · intro inside
        have := (mem_take_iff.mp inside).1
        omega
      · exact by_contra fun out => covered ⟨b, need, out⟩
    obtain ⟨b, need, out⟩ := missing
    have high : n ≤ levelOf levels b := by
      by_contra low
      exact out (mem_take_iff.mpr ⟨by omega, listed b (known b need)⟩)
    exact (Nat.succ_le_succ high).trans (lower need)

end Levels

/-- A call returns levels for the well-formed graphs alone; they have each task once, as low as its dependencies allow. -/
theorem validateAndSort_layers (input : DecomposeTaskInput) :
    ((∃ levels, validateAndSort input = .ok levels) ↔ WellFormed input) ∧
      ∀ levels, validateAndSort input = .ok levels → levels.flatten.Perm (input.tasks.map DecomposedTask.id) ∧
        ∀ task ∈ input.tasks, (levelOf levels task.id = 0 ↔ task.dependsOn = []) ∧
          levelOf levels task.id = (task.dependsOn.map fun depId => levelOf levels depId + 1).foldr max 0 := by
  refine ⟨⟨?_, fun formed => ?_⟩, fun levels ok => ?_⟩
  · rintro ⟨levels, ok⟩
    obtain ⟨tasks, named, checked, passed, _⟩ := validateAndSort_ok_iff.mp ok
    obtain ⟨distinct, entries⟩ := byId_ok named
    refine ⟨distinct, (closed_iff entries).mp checked, fun id cycle => ?_⟩
    obtain ⟨order, sorted, all⟩ := detectCycles_ok (closed_of entries checked) passed
    rw [← needs_eq entries] at cycle
    -- Whatever needs something is a task, and each task is in the order.
    obtain ⟨b, need, _⟩ := Relation.TransGen.head'_iff.mp cycle
    have task : id ∈ tasks.keys := by
      rw [needs_eq entries] at need
      obtain ⟨task, member, rfl, _⟩ := need
      rw [keys_eq entries]
      exact List.mem_map_of_mem member
    exact sorted.acyclic (all id task) cycle
  · cases named : byId ∅ input.tasks with
    | error e => exact absurd formed.distinct (byId_error named)
    | ok tasks =>
      obtain ⟨_, entries⟩ := byId_ok named
      have checked := (closed_iff entries).mpr formed.known
      cases passed : detectCycles tasks with
      | error e =>
        obtain ⟨id, cycle⟩ := detectCycles_error (closed_of entries checked) passed
        exact absurd (needs_eq entries ▸ cycle) (formed.acyclic id)
      | ok passed' => exact ⟨_, validateAndSort_ok_iff.mpr ⟨tasks, named, checked, passed, rfl⟩⟩
  · obtain ⟨tasks, named, checked, passed, rfl⟩ := validateAndSort_ok_iff.mp ok
    obtain ⟨_, entries⟩ := byId_ok named
    have closed := closed_of entries checked
    obtain ⟨order, sorted, all⟩ := detectCycles_ok closed passed
    have layered := topologicalSort_layered tasks
    have listed : ∀ k ∈ tasks.keys, k ∈ (topologicalSort tasks).flatten := fun k node => layered.complete sorted all closed node
    have level : ∀ task ∈ input.tasks, levelOf (topologicalSort tasks) task.id =
        (task.dependsOn.map fun depId => levelOf (topologicalSort tasks) depId + 1).foldr max 0 := by
      intro task member
      have present : task.id ∈ tasks.keys := keys_eq entries ▸ List.mem_map_of_mem member
      have eq := levelOf_eq layered listed (closed task.id present) present
      rwa [dependsOnOf_eq entries member] at eq
    refine ⟨?_, fun task member => ⟨?_, level task member⟩⟩
    · rw [← keys_eq entries]
      have distinct := layered.nodup List.nodup_nil
      exact (List.perm_ext_iff_of_nodup distinct OrderedMap.keys_nodup).mpr fun k => ⟨layered.within, listed k⟩
    · rw [level task member]
      cases task.dependsOn with
      | nil => simp
      | cons depId rest => simp

def review : Tasks := ((∅ : Tasks).set "write" ⟨"write", []⟩).set "review" ⟨"review", ["write"]⟩

end Bike4Mind.Dag
