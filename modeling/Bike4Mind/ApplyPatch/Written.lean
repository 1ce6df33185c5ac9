import Bike4Mind.ApplyPatch.Sequential
import Bike4Mind.ApplyPatch.Writing

/-!
When a patch writes what it planned. The plan keeps one change per path, written in the order the paths
were first named, so a path that several moves pass through may be unlinked by more than one change, or
after it was written. Each path is judged by its own calls: the unlinks of the moves that vacated it, before
and after its own place in the order, and its own change between them.
-/

namespace Bike4Mind.ApplyPatch
open Concurrency Collections Storage

/-! ### The calls of a plan -/

def FileOp.call? : FileOp → Option (FileCall Path String)
  | .writeFile path content => some (.write path content)
  | .unlink path => some (.unlink path)
  | .stat _ | .readFile _ | .mkdir _ => none

def Step.call? : Step → Option (FileCall Path String)
  | .touch _ => none
  | .call op => op.call?

def changeCalls (change : FileChange) : List (FileCall Path String) :=
  if change.status = .D then [.unlink change.toPath]
  else .write change.toPath change.after ::
    if change.status = .R ∧ change.fromPath ≠ change.toPath then [.unlink change.fromPath] else []

theorem changeSteps_calls {context : ToolContext} {change : FileChange} :
    (changeSteps context change).filterMap Step.call? = changeCalls change := by
  unfold changeSteps changeCalls
  split
  · rfl
  · split <;> rfl

theorem planSteps_calls {context : ToolContext} {plan : PatchPlan} :
    (planSteps context plan).filterMap Step.call? = plan.changes.flatMap changeCalls := by
  unfold planSteps
  induction plan.changes with
  | nil => rfl
  | cons change rest ih =>
    rw [List.flatMap_cons, List.flatMap_cons, List.filterMap_append, ih, changeSteps_calls]

theorem effect_call {op : FileOp} {call : FileCall Path String} (h : op.call? = some call) (files : Files) :
    op.effect files = call.apply files := by
  cases op with
  | writeFile path content | unlink path =>
    cases h
    rfl
  | _ => cases h

theorem effect_none {op : FileOp} (h : op.call? = none) (files : Files) : op.effect files = some files := by
  cases op with
  | writeFile path content | unlink path => cases h
  | _ => rfl

/-- Where no call is made to fail, the block returns exactly when its calls succeed on the files. -/
theorem runSteps_calm {steps : List Step} {touched : List Path} {fs : FileSystem} (calm : fs.fault = none) (files' : Files) :
    (∃ touched' fs', runSteps steps touched fs = ((.ok (), touched'), fs') ∧ fs'.files = files') ↔
      FileCall.applyAll fs.files (steps.filterMap Step.call?) = some files' := by
  induction steps generalizing touched fs with
  | nil =>
    simp only [runSteps, List.filterMap_nil, FileCall.applyAll, Option.some.injEq]
    constructor
    · rintro ⟨touched', fs', ran, left⟩
      cases ran
      exact left
    · exact fun same => ⟨touched, fs, rfl, same⟩
  | cons step rest ih =>
    cases step with
    | touch path => exact ih calm
    | call op =>
      have after : ∀ files, op.effect fs.files = some files →
          runSteps (.call op :: rest) touched fs = runSteps rest touched { fs with files := files, log := op :: fs.log } := by
        intro files done
        conv_lhs => unfold runSteps
        rw [FileSystem.write_calm calm, done]
      cases made : op.call? with
      | none =>
        have unmade : (Step.call op).call? = none := made
        rw [List.filterMap_cons_none unmade, after _ (effect_none made _)]
        exact ih calm
      | some call =>
        have here : (Step.call op).call? = some call := made
        rw [List.filterMap_cons_some here, FileCall.applyAll, ← effect_call made]
        cases done : op.effect fs.files with
        | none =>
          unfold runSteps
          rw [FileSystem.write_calm calm, done]
          constructor
          · rintro ⟨touched', fs', ran, _⟩
            cases ran
          · intro h
            cases h
        | some files =>
          rw [after _ done]
          exact ih calm

theorem writeChanges_calm {context : ToolContext} {plan : PatchPlan} {fs : FileSystem} (calm : fs.fault = none) (files' : Files) :
    (((writeChanges plan context).exec FileSystem.perform fs).1 = .ok () ∧
      ((writeChanges plan context).exec FileSystem.perform fs).2.files = files') ↔
      FileCall.applyAll fs.files (plan.changes.flatMap changeCalls) = some files' := by
  have steps := @runSteps_calm (planSteps context plan) [] fs calm files'
  rw [planSteps_calls] at steps
  rw [← steps]
  constructor
  · rintro ⟨returned, left⟩
    cases ran : runSteps (planSteps context plan) [] fs with
    | mk out fs' =>
      obtain ⟨reply, touched⟩ := out
      cases reply with
      | ok done =>
        rw [writeChanges_done ran] at left
        exact ⟨touched, fs', rfl, left⟩
      | error e =>
        rw [writeChanges_failed ran] at returned
        cases returned
  · rintro ⟨touched, fs', ran, left⟩
    rw [writeChanges_done ran]
    exact ⟨rfl, left⟩

/-! ### The calls on one path -/

abbrev callsOn (q : Path) (changes : List FileChange) : List (FileCall Path String) :=
  (changes.flatMap changeCalls).filter fun call => call.path = q

theorem callsOn_append {q : Path} {first rest : List FileChange} :
    callsOn q (first ++ rest) = callsOn q first ++ callsOn q rest := by
  unfold callsOn
  rw [List.flatMap_append, List.filter_append]

section Derived
variable {context : ToolContext} {renamedAway : List Path} {disk : OrderedMap Path TargetState} {p q : Path} {entry : Entry}

/-- Elsewhere, a change can only unlink the path its content came from. -/
theorem callsOn_elsewhere (other : p ≠ q) :
    callsOn q (deriveChange context renamedAway disk p entry).toList =
      if entry.renamedFrom = some q then [.unlink q] else [] := by
  unfold deriveChange
  dsimp only
  cases moved : entry.renamedFrom with
  | none =>
    have quiet : ∀ change : FileChange, change.toPath = p → change.status ≠ .R → callsOn q [change] = [] := by
      intro change here kept
      unfold callsOn changeCalls
      rw [List.flatMap_singleton]
      split
      · simp [FileCall.path, here, other]
      · rw [if_neg (fun renamed => kept renamed.1)]
        simp [FileCall.path, here, other]
    rw [if_neg (show ¬ (none : Option Path) = some q by simp)]
    dsimp only
    repeat' split
    all_goals first | exact quiet _ rfl (by simp) | rfl
  | some source =>
    unfold callsOn changeCalls
    simp only [Option.toList_some, List.flatMap_singleton, reduceCtorEq, ↓reduceIte, true_and, Option.some.injEq]
    rw [List.filter_cons_of_neg (by simp [FileCall.path, other])]
    by_cases same : source = q
    · subst same
      rw [if_pos other.symm, if_pos rfl]
      simp [FileCall.path]
    · rw [if_neg same]
      split
      · simp [FileCall.path, same]
      · rfl

theorem callsOn_others {entries : List (Path × Entry)} (others : ∀ e ∈ entries, e.1 ≠ q) :
    (∀ call ∈ callsOn q (entries.filterMap fun e => deriveChange context renamedAway disk e.1 e.2), call.unlinks = true) ∧
      (callsOn q (entries.filterMap fun e => deriveChange context renamedAway disk e.1 e.2)).length =
        entries.countP fun e => e.2.renamedFrom = some q := by
  induction entries with
  | nil => exact ⟨List.forall_mem_nil _, rfl⟩
  | cons e rest ih =>
    obtain ⟨unlinks, counted⟩ := ih fun e' member => others e' (List.mem_cons_of_mem _ member)
    have head : callsOn q ((e :: rest).filterMap fun e => deriveChange context renamedAway disk e.1 e.2) =
        callsOn q (deriveChange context renamedAway disk e.1 e.2).toList ++
          callsOn q (rest.filterMap fun e => deriveChange context renamedAway disk e.1 e.2) := by
      rw [← callsOn_append, List.filterMap_cons]
      cases deriveChange context renamedAway disk e.1 e.2 <;> rfl
    rw [head, callsOn_elsewhere (others e List.mem_cons_self), List.countP_cons]
    by_cases vacates : e.2.renamedFrom = some q
    · rw [if_pos vacates]
      refine ⟨?_, ?_⟩
      · intro call member
        rcases List.mem_append.mp member with here | later
        · cases List.mem_singleton.mp here
          rfl
        · exact unlinks call later
      · simp only [List.singleton_append, List.length_cons, counted, vacates, decide_true, ↓reduceIte]
    · rw [if_neg vacates]
      refine ⟨unlinks, ?_⟩
      simp only [List.nil_append, counted, vacates, decide_false, Bool.false_eq_true, ↓reduceIte, Nat.add_zero]

/-- A path that was moved onto is written, whatever became of the file afterwards. -/
theorem callsOn_own_renamed {source : Path} (renamed : entry.renamedFrom = some source) :
    callsOn q (deriveChange context renamedAway disk q entry).toList = [.write q entry.content] := by
  unfold deriveChange
  dsimp only
  rw [renamed]
  unfold callsOn changeCalls
  simp only [Option.toList_some, List.flatMap_singleton, reduceCtorEq, ↓reduceIte, true_and]
  rw [List.filter_cons_of_pos (by simp [FileCall.path])]
  split
  · rename_i moved
    simp [FileCall.path, moved]
  · rfl

/-- A path that no move reached is written when it ends as another file, and unlinked when it ends
missing, unless some move took its content along. -/
theorem callsOn_own_unmoved {state : TargetState} (unmoved : entry.renamedFrom = none) (recorded : disk.get? q = some state) :
    callsOn q (deriveChange context renamedAway disk q entry).toList =
      if entry.file.isSome = true ∧ entry.file ≠ state.file then [.write q entry.content]
      else if entry.file = none ∧ state.file.isSome = true ∧ q ∉ renamedAway then [.unlink q] else [] := by
  unfold deriveChange
  dsimp only
  rw [unmoved, recorded]
  obtain ⟨⟨present, content⟩, renamedFrom⟩ := entry
  obtain ⟨wasPresent, wasContent⟩ := state
  cases present with
  | false =>
    cases wasPresent with
    | false => simp [TargetState.file]
    | true =>
      by_cases away : q ∈ renamedAway
      · simp [TargetState.file, away]
      · simp [TargetState.file, away, callsOn, changeCalls, FileCall.path]
  | true =>
    cases wasPresent with
    | false => simp [TargetState.file, callsOn, changeCalls, FileCall.path]
    | true =>
      by_cases same : wasContent = content
      · simp [TargetState.file, same]
      · simp [TargetState.file, same, Ne.symm same, callsOn, changeCalls, FileCall.path]

end Derived

/-! ### The condition -/

/-- How many paths the patch names before `q` hold, by their last move, what stood at `q`. -/
def movedOutBefore (resolved : List ResolvedOp) (q : Path) : Nat :=
  ((mentioned resolved).takeWhile (· ≠ q)).countP fun p => originOf resolved p = some q

/-- The same for the paths it names after `q`. -/
def movedOutAfter (resolved : List ResolvedOp) (q : Path) : Nat :=
  ((mentioned resolved).dropWhile (· ≠ q)).tail.countP fun p => originOf resolved p = some q

/-- Something was moved onto `q`, or it ends as another file than it was. -/
def rewrites (resolved : List ResolvedOp) (files : Files) (q : Path) : Bool :=
  (originOf resolved q).isSome || ((applyOps resolved files q).isSome && applyOps resolved files q ≠ files q)

/-- `q` ends as the operations leave it: what was moved out of `q` was moved out of a file that was there,
once before `q` is written, and after it exactly when `q` ends missing. -/
def Lands (resolved : List ResolvedOp) (files : Files) (q : Path) : Prop :=
  if rewrites resolved files q = true then
    movedOutBefore resolved q ≤ (if (files q).isSome = true then 1 else 0) ∧
      movedOutAfter resolved q = if (applyOps resolved files q).isSome = true then 0 else 1
  else
    movedOutBefore resolved q + movedOutAfter resolved q ≤
      if (files q).isSome = true ∧ (applyOps resolved files q).isSome = false then 1 else 0

instance (resolved : List ResolvedOp) (files : Files) (q : Path) : Decidable (Lands resolved files q) :=
  inferInstanceAs (Decidable (if rewrites resolved files q = true then _ ∧ _ else _))

def AllLand (resolved : List ResolvedOp) (files : Files) : Prop := ∀ q ∈ mentioned resolved, Lands resolved files q

instance (resolved : List ResolvedOp) (files : Files) : Decidable (AllLand resolved files) :=
  inferInstanceAs (Decidable (∀ q ∈ mentioned resolved, Lands resolved files q))

section Plans
variable {context : ToolContext} {fs : FileSystem} {resolved : List ResolvedOp} {s : Planning}

theorem mentioned_split {first rest : List Path} {q : Path} (split : mentioned resolved = first ++ q :: rest) (fresh : q ∉ first) :
    (mentioned resolved).takeWhile (· ≠ q) = first ∧ ((mentioned resolved).dropWhile (· ≠ q)).tail = rest := by
  have passes : ∀ p ∈ first, decide (p ≠ q) = true := fun p member => decide_eq_true fun same => fresh (same ▸ member)
  rw [split, List.takeWhile_append_of_pos passes, List.dropWhile_append_of_pos passes]
  simp

/-- One path of an accepted plan ends as the operations leave it exactly when it lands. -/
theorem path_lands (viewed : Viewed fs.files (applyOps resolved fs.files) (originOf resolved) (mentioned resolved) s)
    {q : Path} (member : q ∈ mentioned resolved) :
    FileCall.onFileAll (fs.files q) (callsOn q (s.plan context).changes) = some (applyOps resolved fs.files q) ↔
      Lands resolved fs.files q := by
  obtain ⟨entry, found⟩ := OrderedMap.mem_keys_iff.mp (viewed.keys ▸ member)
  obtain ⟨state, recorded⟩ := OrderedMap.mem_keys_iff.mp (viewed.disk ▸ member)
  obtain ⟨first, rest, entries⟩ := List.append_of_mem (OrderedMap.mem_of_get? found)
  have keys : mentioned resolved = first.map Prod.fst ++ q :: rest.map Prod.fst := by
    rw [← viewed.keys]
    unfold OrderedMap.keys
    rw [entries, List.map_append, List.map_cons]
  have distinct : (first.map Prod.fst ++ q :: rest.map Prod.fst).Nodup := by
    rw [← keys, ← viewed.keys]
    exact OrderedMap.keys_nodup
  have notFirst : q ∉ first.map Prod.fst := fun there =>
    (List.nodup_append.mp distinct).2.2 q there q List.mem_cons_self rfl
  have notRest : q ∉ rest.map Prod.fst := (List.nodup_cons.mp (List.nodup_append.mp distinct).2.1).1
  obtain ⟨order₁, order₂⟩ := mentioned_split keys notFirst
  let renamedAway := s.view.values.filterMap Entry.renamedFrom
  let derive := fun e : Path × Entry => deriveChange context renamedAway s.disk e.1 e.2
  have counted : ∀ l : List (Path × Entry), (∀ e ∈ l, e ∈ s.view.entries) → (l.countP fun e => e.2.renamedFrom = some q) =
      (l.map Prod.fst).countP fun p => originOf resolved p = some q := by
    intro l inside
    rw [List.countP_map]
    apply List.countP_congr
    intro e there
    have renamed := viewed.renamed (OrderedMap.get?_of_mem (inside e there))
    simp [renamed]
  obtain ⟨unlinks₁, count₁⟩ := @callsOn_others context renamedAway s.disk q first
    fun e there same => notFirst (same ▸ List.mem_map_of_mem there)
  obtain ⟨unlinks₂, count₂⟩ := @callsOn_others context renamedAway s.disk q rest
    fun e there same => notRest (same ▸ List.mem_map_of_mem there)
  have away : entry.renamedFrom = none → (q ∈ renamedAway ↔
      (callsOn q (first.filterMap derive)).length + (callsOn q (rest.filterMap derive)).length ≠ 0) := by
    intro unmoved
    have held : q ∈ renamedAway ↔ ∃ e ∈ first ++ rest, e.2.renamedFrom = some q := by
      show q ∈ s.view.values.filterMap Entry.renamedFrom ↔ _
      unfold OrderedMap.values
      rw [entries]
      simp [unmoved, or_and_right, exists_or]
    rw [held, count₁, count₂, ← List.countP_append, ← Nat.pos_iff_ne_zero, List.countP_pos_iff]
    simp
  rw [counted first fun e there => entries ▸ List.mem_append_left _ there, ← order₁] at count₁
  rw [counted rest fun e there => entries ▸ List.mem_append_right _ (List.mem_cons_of_mem _ there), ← order₂] at count₂
  have calls : callsOn q (s.plan context).changes =
      callsOn q (first.filterMap derive) ++ (callsOn q (derive (q, entry)).toList ++ callsOn q (rest.filterMap derive)) := by
    have order : (s.plan context).changes = first.filterMap derive ++ ((derive (q, entry)).toList ++ rest.filterMap derive) := by
      show s.view.entries.filterMap derive = _
      rw [entries, List.filterMap_append, List.filterMap_cons]
      cases derive (q, entry) <;> rfl
    rw [order, callsOn_append, callsOn_append]
  have file : entry.file = applyOps resolved fs.files q := viewed.reads found
  have origin : entry.renamedFrom = originOf resolved q := viewed.renamed found
  have was : state.file = fs.files q := viewed.recorded recorded
  have content : (applyOps resolved fs.files q).isSome = true → applyOps resolved fs.files q = some entry.content := by
    intro there
    rw [← file] at there ⊢
    unfold TargetState.file at there ⊢
    split at there
    · rename_i present
      exact if_pos present
    · cases there
  rw [calls]
  unfold Lands movedOutBefore movedOutAfter
  rw [← count₁, ← count₂]
  by_cases written : rewrites resolved fs.files q = true
  · have own : callsOn q (derive (q, entry)).toList = [.write q entry.content] := by
      cases moved : entry.renamedFrom with
      | some source => exact callsOn_own_renamed moved
      | none =>
        refine (callsOn_own_unmoved moved recorded).trans (if_pos ?_)
        unfold rewrites at written
        rw [← origin, moved, ← file] at written
        rw [was]
        simpa using written
    rw [own, if_pos written]
    exact FileCall.onFileAll_write_between unlinks₁ unlinks₂ content
  · have unmoved : entry.renamedFrom = none := by
      rw [origin]
      unfold rewrites at written
      cases moved : originOf resolved q with
      | none => rfl
      | some source => exact (written (by rw [moved]; rfl)).elim
    have kept : ¬ (entry.file.isSome = true ∧ entry.file ≠ state.file) := by
      rw [file, was]
      unfold rewrites at written
      exact fun differs => written (by simp [differs.1, differs.2])
    have own := @callsOn_own_unmoved context renamedAway s.disk q entry state unmoved recorded
    rw [if_neg kept, was, file] at own
    rw [if_neg written]
    by_cases gone : applyOps resolved fs.files q = none ∧ (fs.files q).isSome = true ∧ q ∉ renamedAway
    · rw [if_pos gone] at own
      have quiet := not_not.mp ((away unmoved).not.mp gone.2.2)
      have none_first := List.eq_nil_of_length_eq_zero (Nat.eq_zero_of_add_eq_zero_right quiet)
      have none_rest := List.eq_nil_of_length_eq_zero (Nat.eq_zero_of_add_eq_zero_left quiet)
      rw [own, none_first, none_rest, gone.1]
      obtain ⟨text, there⟩ := Option.isSome_iff_exists.mp gone.2.1
      rw [there]
      simp [FileCall.onFileAll, FileCall.onFile]
    · rw [if_neg gone] at own
      rw [own, List.nil_append]
      have meant : applyOps resolved fs.files q = fs.files q ∨ applyOps resolved fs.files q = none ∧
          (callsOn q (first.filterMap derive) ++ callsOn q (rest.filterMap derive)).length ≠ 0 := by
        by_cases same : applyOps resolved fs.files q = fs.files q
        · exact Or.inl same
        · rw [file, was] at kept
          have missing : applyOps resolved fs.files q = none := by
            by_contra there
            exact kept ⟨Option.isSome_iff_ne_none.mpr there, same⟩
          have stood : (fs.files q).isSome = true := Option.isSome_iff_ne_none.mpr fun none' => same (missing.trans none'.symm)
          have taken : q ∈ renamedAway := by
            by_contra left
            exact gone ⟨missing, stood, left⟩
          rw [List.length_append]
          exact Or.inr ⟨missing, (away unmoved).mp taken⟩
      rw [FileCall.onFileAll_only_unlinks (List.forall_mem_append.mpr ⟨unlinks₁, unlinks₂⟩) meant, List.length_append]

theorem callsOn_unmentioned (viewed : Viewed fs.files (applyOps resolved fs.files) (originOf resolved) (mentioned resolved) s)
    {q : Path} (unnamed : q ∉ mentioned resolved) : callsOn q (s.plan context).changes = [] := by
  have keyed : ∀ e ∈ s.view.entries, e.1 ∈ mentioned resolved := fun e there => viewed.keys ▸ List.mem_map_of_mem there
  obtain ⟨_, counted⟩ := @callsOn_others context (s.view.values.filterMap Entry.renamedFrom) s.disk q s.view.entries
    fun e there same => unnamed (same ▸ keyed e there)
  apply List.eq_nil_of_length_eq_zero
  refine counted.trans (List.countP_eq_zero.mpr fun e there => ?_)
  rw [viewed.renamed (OrderedMap.get?_of_mem there), decide_eq_true_eq]
  exact fun origin => unnamed (viewed.sources origin)

theorem calls_land (viewed : Viewed fs.files (applyOps resolved fs.files) (originOf resolved) (mentioned resolved) s) :
    FileCall.applyAll fs.files ((s.plan context).changes.flatMap changeCalls) = some (applyOps resolved fs.files) ↔
      AllLand resolved fs.files := by
  rw [FileCall.applyAll_eq_some_iff]
  constructor
  · exact fun all q member => (path_lands viewed member).mp (all q)
  · intro lands q
    by_cases named : q ∈ mentioned resolved
    · exact (path_lands viewed named).mpr (lands q named)
    · show FileCall.onFileAll (fs.files q) (callsOn q (s.plan context).changes) = _
      rw [callsOn_unmentioned viewed named, viewed.untouched named]
      rfl

/-- The call returned, every file of the view stands as its entry says, and no other file moved. -/
def Written (s : Planning) (fs : FileSystem) (out : Except JsError Unit × FileSystem) : Prop :=
  out.1 = .ok () ∧ (∀ p entry, s.view.get? p = some entry → out.2.files p = entry.file) ∧
    ∀ p, s.view.get? p = none → out.2.files p = fs.files p

theorem written_sequential (viewed : Viewed fs.files (applyOps resolved fs.files) (originOf resolved) (mentioned resolved) s)
    {out : Except JsError Unit × FileSystem} :
    Written s fs out ↔ out.1 = .ok () ∧ out.2.files = applyOps resolved fs.files := by
  unfold Written
  refine and_congr_right fun _ => ?_
  constructor
  · rintro ⟨seen, unseen⟩
    funext p
    cases found : s.view.get? p with
    | some entry => exact (seen p entry found).trans (viewed.reads found)
    | none =>
      have unnamed : p ∉ mentioned resolved := viewed.keys ▸ OrderedMap.get?_none_iff.mp found
      exact (unseen p found).trans (viewed.untouched unnamed).symm
  · intro same
    rw [same]
    refine ⟨fun p entry found => (viewed.reads found).symm, fun p found => ?_⟩
    exact viewed.untouched (viewed.keys ▸ OrderedMap.get?_none_iff.mp found)

end Plans

/-- An accepted patch is written as planned, or as its operations say one after another, exactly when
every path it names lands. -/
theorem patch_written_iff {context : ToolContext} {resolved : List ResolvedOp} {fs fs' : FileSystem} {s : Planning}
    (planned : (planOps context resolved {}).exec FileSystem.perform fs = (.ok s, fs')) (accepted : s.problems = [])
    (calm : fs.fault = none) :
    (planPatch resolved context).exec FileSystem.perform fs = (.ok (s.plan context), fs) ∧
      (∀ out, Written s fs out ↔ out.1 = .ok () ∧ out.2.files = applyOps resolved fs.files) ∧
      (Written s fs ((writeChanges (s.plan context) context).exec FileSystem.perform fs) ↔ AllLand resolved fs.files) := by
  have viewed := view_sequential planned accepted
  have unchanged : fs' = fs := (congrArg Prod.snd planned).symm.trans (exec_readOnly planOps_readOnly fs)
  subst unchanged
  refine ⟨?_, fun out => written_sequential viewed, ?_⟩
  · show ((planOps context resolved {}).bind _).exec FileSystem.perform fs' = _
    rw [Program.exec_bind, planned]
    dsimp only
    rw [if_neg (by simp [accepted])]
    rfl
  · rw [written_sequential viewed, writeChanges_calm calm]
    exact calls_land viewed

namespace Vacated

def a : Path := ⟨"/work/a", by decide⟩
def b : Path := ⟨"/work/b", by decide⟩
def c : Path := ⟨"/work/c", by decide⟩

def context : ToolContext where
  displayPath := Path.text
  dirname _ := "/work"
  recentFiles := []
  assertUnchanged _ _ := .ok ()
  aborted := false
  describeMiss _ _ _ _ := ""

def move (source destination : Path) : ResolvedOp := ⟨.update source.text (some destination.text) [], source, some destination⟩

def fs : FileSystem where
  files p := if p = a then some "A\n" else if p = c then some "C\n" else none
  irregular _ := none
  fault := none
  log := []

/-- `a` moves to `b`, and `c` onto the vacated `a`. -/
def chain : List ResolvedOp := [move a b, move c a]

/-- `a` takes the place of a deleted `c`. -/
def replacement : List ResolvedOp := [⟨.delete "c", c, none⟩, move a c]

end Vacated

open Vacated in
theorem replacement_written : ∃ s fs', (planOps context replacement {}).exec FileSystem.perform fs = (.ok s, fs') ∧
    s.problems = [] ∧ Written s fs ((writeChanges (s.plan context) context).exec FileSystem.perform fs) := by
  have planned : ((planOps context replacement {}).exec FileSystem.perform fs).1.toOption.map Planning.problems = some [] := by
    decide +kernel
  obtain ⟨s, planned, accepted⟩ := Option.map_eq_some_iff.mp planned
  have ran := Program.exec_returned planned
  exact ⟨s, _, ran, accepted, (patch_written_iff ran accepted rfl).2.2.mpr (by decide)⟩

open Vacated in
/-- The unlink of the first move takes the file that the second one put there. -/
theorem chain_loses_a_file : ¬ ∀ (context : ToolContext) (resolved : List ResolvedOp) (fs fs' : FileSystem) (s : Planning),
    (planOps context resolved {}).exec FileSystem.perform fs = (.ok s, fs') → s.problems = [] → fs.fault = none →
    Written s fs ((writeChanges (s.plan context) context).exec FileSystem.perform fs) := by
  intro written
  have planned : ((planOps context chain {}).exec FileSystem.perform fs).1.toOption.map (fun s =>
      (s.problems, (s.view.get? a).map (fun entry => entry.file),
        ((writeChanges (s.plan context) context).exec FileSystem.perform fs).2.files a)) =
      some ([], some (some "C\n"), none) := by
    decide +kernel
  obtain ⟨s, planned, outcome⟩ := Option.map_eq_some_iff.mp planned
  simp only [Prod.mk.injEq] at outcome
  obtain ⟨accepted, viewed, lost⟩ := outcome
  obtain ⟨entry, viewed, content⟩ := Option.map_eq_some_iff.mp viewed
  have kept := (written context chain fs _ s (Program.exec_returned planned) accepted rfl).2.1 a entry viewed
  rw [lost, content] at kept
  cases kept

end Bike4Mind.ApplyPatch
