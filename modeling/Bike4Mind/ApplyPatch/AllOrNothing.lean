import Bike4Mind.ApplyPatch.Written

/-! A patch is written whole or not at all: a failed write puts every touched file back, a refused patch writes nothing. -/

namespace Bike4Mind.ApplyPatch
open Concurrency Collections Storage

/-! ### What a failed block has touched -/

/-- Every file is listed before a call may change it. -/
def Covered : List Path → List Step → Prop
  | _, [] => True
  | touched, .touch path :: rest => Covered (touched ++ [path]) rest
  | touched, .call op :: rest => (∀ path, op.target? = some path → path ∈ touched) ∧ Covered touched rest

theorem Covered.append {touched : List Path} {first rest : List Step} (h : Covered touched first) (after : ∀ more, Covered more rest) :
    Covered touched (first ++ rest) := by
  induction first generalizing touched with
  | nil => exact after touched
  | cons step first ih =>
    cases step with
    | touch path => exact ih h
    | call op => exact ⟨h.1, ih h.2⟩

theorem changeSteps_covered {context : ToolContext} {change : FileChange} {touched : List Path} :
    Covered touched (changeSteps context change) := by
  unfold changeSteps
  split
  · simp [Covered, FileOp.target?]
  · split <;> simp [Covered, FileOp.target?]

theorem planSteps_covered {context : ToolContext} {plan : PatchPlan} (touched : List Path) :
    Covered touched (planSteps context plan) := by
  unfold planSteps
  induction plan.changes generalizing touched with
  | nil => trivial
  | cons change rest ih => exact changeSteps_covered.append ih

/-- The paths that steps may list. -/
def Step.path? : Step → Option Path
  | .touch path => some path
  | .call _ => none

section Failed
variable {fs fs' : FileSystem} {steps : List Step} {touched touched' : List Path} {e : JsError}

theorem runSteps_failed (covered : Covered touched steps) (ran : runSteps steps touched fs = ((.error e, touched'), fs')) :
    fs'.fault = none ∧ (∀ p, p ∉ touched' → fs'.files p = fs.files p) ∧
      (∀ p ∈ touched', p ∈ touched ∨ p ∈ steps.filterMap Step.path?) ∧ touched ⊆ touched' := by
  induction steps generalizing touched fs with
  | nil => cases ran
  | cons step rest ih =>
    cases step with
    | touch path =>
      obtain ⟨cleared, kept, listed, grown⟩ := ih covered ran
      refine ⟨cleared, kept, fun p member => ?_, fun p member => grown (List.mem_append_left _ member)⟩
      have listing : (Step.touch path).path? = some path := rfl
      rw [List.filterMap_cons_some listing, List.mem_cons]
      rcases listed p member with before | later
      · rcases List.mem_append.mp before with before | same
        · exact Or.inl before
        · exact Or.inr (Or.inl (List.mem_singleton.mp same))
      · exact Or.inr (Or.inr later)
    | call op =>
      obtain ⟨targets, covered⟩ := covered
      have moved : ∀ p, p ∉ touched → (fs.write op).2.files p = fs.files p := by
        intro p unlisted
        exact FileSystem.write_elsewhere fun at' => unlisted (targets p at')
      have unlisting : (Step.call op).path? = none := rfl
      rw [List.filterMap_cons_none unlisting]
      unfold runSteps at ran
      cases written : fs.write op with
      | mk reply mid =>
        rw [written] at ran moved
        cases reply with
        | ok done =>
          obtain ⟨cleared, kept, listed, grown⟩ := ih covered ran
          refine ⟨cleared, fun p unlisted => ?_, listed, grown⟩
          exact (kept p unlisted).trans (moved p fun member => unlisted (grown member))
        | error e' =>
          cases ran
          exact ⟨FileSystem.write_failed written, moved, fun p member => Or.inl member, fun p member => member⟩

end Failed

/-! ### Putting files back -/

section Restored
variable {plan : PatchPlan} {fs : FileSystem}

theorem restoreFile_calm {target : Path} (calm : fs.fault = none) :
    ((restoreFile plan target).exec FileSystem.perform fs).2.fault = none ∧
      (∀ before, plan.disk.get? target = some before →
        ((restoreFile plan target).exec FileSystem.perform fs).2.files target = before.file) ∧
      ∀ p, p ≠ target → ((restoreFile plan target).exec FileSystem.perform fs).2.files p = fs.files p := by
  unfold restoreFile
  cases recorded : plan.disk.get? target with
  | none => exact ⟨calm, fun before h => (by cases h), fun p _ => rfl⟩
  | some before =>
    dsimp only
    rw [exec_caught]
    by_cases present : before.present = true
    · rw [if_pos present]
      unfold writeFile
      rw [Program.exec_perform]
      refine ⟨?_, fun state same => ?_, fun p other => ?_⟩
      · show (fs.write (.writeFile target before.content)).2.fault = none
        rw [FileSystem.write_calm calm]
        exact calm
      · cases same
        show (fs.write (.writeFile target before.content)).2.files target = _
        rw [FileSystem.write_calm calm]
        exact (Function.update_self ..).trans (if_pos present).symm
      · exact FileSystem.write_elsewhere fun same => other (Option.some.inj same).symm
    · rw [if_neg present]
      unfold unlink
      rw [Program.exec_perform]
      refine ⟨?_, fun state same => ?_, fun p other => ?_⟩
      · show (fs.write (.unlink target)).2.fault = none
        rw [FileSystem.write_calm calm]
        split <;> exact calm
      · cases same
        show (fs.write (.unlink target)).2.files target = _
        rw [FileSystem.write_calm calm]
        have gone : before.file = none := if_neg present
        rw [gone]
        cases there : fs.files target with
        | none => simp [FileOp.effect, FileCall.apply, FileCall.onFile, FileCall.path, there]
        | some content => simp [FileOp.effect, FileCall.apply, FileCall.onFile, FileCall.path, there]
      · exact FileSystem.write_elsewhere fun same => other (Option.some.inj same).symm

theorem restore_calm {targets : List Path} (calm : fs.fault = none) :
    (∀ p before, p ∈ targets → plan.disk.get? p = some before →
      ((restore plan targets).exec FileSystem.perform fs).2.files p = before.file) ∧
      ∀ p, p ∉ targets → ((restore plan targets).exec FileSystem.perform fs).2.files p = fs.files p := by
  induction targets generalizing fs with
  | nil => exact ⟨fun p before member => (by cases member), fun p _ => rfl⟩
  | cons target rest ih =>
    obtain ⟨cleared, back, elsewhere⟩ := @restoreFile_calm plan fs target calm
    obtain ⟨restored, kept⟩ := ih cleared
    rw [restore_cons]
    refine ⟨fun p before member recorded => ?_, fun p unlisted => ?_⟩
    · by_cases later : p ∈ rest
      · exact restored p before later recorded
      · rw [kept p later]
        rcases List.mem_cons.mp member with same | there
        · subst same
          exact back before recorded
        · exact (later there).elim
    · obtain ⟨other, unlisted⟩ := not_or.mp (List.mem_cons.not.mp unlisted)
      rw [kept p unlisted]
      exact elsewhere p other

end Restored

/-! ### The paths of a plan -/

section Plans
variable {context : ToolContext} {fs fs' : FileSystem} {resolved : List ResolvedOp} {s : Planning}

theorem deriveChange_paths {renamedAway : List Path} {disk : OrderedMap Path TargetState} {p : Path} {entry : Entry}
    {change : FileChange} (derived : deriveChange context renamedAway disk p entry = some change) :
    change.toPath = p ∧ (change.fromPath = p ∨ entry.renamedFrom = some change.fromPath) := by
  unfold deriveChange at derived
  dsimp only at derived
  cases moved : entry.renamedFrom with
  | some source =>
    rw [moved] at derived
    cases derived
    exact ⟨rfl, Or.inr rfl⟩
  | none =>
    rw [moved] at derived
    dsimp only at derived
    repeat' split at derived
    all_goals cases derived
    all_goals exact ⟨rfl, Or.inl rfl⟩

theorem changeSteps_paths {change : FileChange} {p : Path} (member : p ∈ (changeSteps context change).filterMap Step.path?) :
    p = change.toPath ∨ p = change.fromPath := by
  unfold changeSteps at member
  split at member
  · simp [Step.path?] at member
    exact Or.inl member
  · split at member
    · simp [Step.path?] at member
      exact member.imp id Eq.symm
    · simp [Step.path?] at member
      exact Or.inl member

theorem planSteps_paths (viewed : Viewed fs.files (applyOps resolved fs.files) (originOf resolved) (mentioned resolved) s)
    {p : Path} (member : p ∈ (planSteps context (s.plan context)).filterMap Step.path?) : p ∈ mentioned resolved := by
  unfold planSteps at member
  rw [List.filterMap_flatMap] at member
  obtain ⟨change, derived, listed⟩ := List.mem_flatMap.mp member
  obtain ⟨e, there, derived⟩ := List.mem_filterMap.mp derived
  obtain ⟨to', from'⟩ := deriveChange_paths derived
  have keyed : e.1 ∈ mentioned resolved := viewed.keys ▸ List.mem_map_of_mem there
  rcases changeSteps_paths listed with same | same
  · exact same.trans to' ▸ keyed
  · rcases from' with here | source
    · exact same.trans here ▸ keyed
    · exact same ▸ viewed.sources ((viewed.renamed (OrderedMap.get?_of_mem there)).symm.trans source)

theorem failed_write_restored (viewed : Viewed fs.files (applyOps resolved fs.files) (originOf resolved) (mentioned resolved) s)
    {e : JsError} (failed : (writeChanges (s.plan context) context).exec FileSystem.perform fs = (.error e, fs')) :
    (∀ p state, s.disk.get? p = some state → fs'.files p = state.file) ∧ ∀ p, s.disk.get? p = none → fs'.files p = fs.files p := by
  cases ran : runSteps (planSteps context (s.plan context)) [] fs with
  | mk out mid =>
    obtain ⟨reply, touched⟩ := out
    cases reply with
    | ok done =>
      rw [writeChanges_done ran] at failed
      cases failed
    | error e' =>
      rw [writeChanges_failed ran] at failed
      cases failed
      obtain ⟨calm, kept, listed, _⟩ := runSteps_failed (planSteps_covered []) ran
      obtain ⟨back, elsewhere⟩ := @restore_calm (s.plan context) mid touched.reverse calm
      refine ⟨fun p state recorded => ?_, fun p unrecorded => ?_⟩
      · by_cases changed : p ∈ touched
        · exact back p state (List.mem_reverse.mpr changed) recorded
        · rw [elsewhere p fun there => changed (List.mem_reverse.mp there), kept p changed]
          exact (viewed.recorded recorded).symm
      · have untouched : p ∉ touched := by
          intro there
          have named : p ∈ mentioned resolved := (listed p there).elim (fun h => by cases h) (planSteps_paths viewed)
          exact OrderedMap.get?_none_iff.mp unrecorded (viewed.disk.symm ▸ named)
        rw [elsewhere p fun there => untouched (List.mem_reverse.mp there), kept p untouched]

theorem planPatch_ok {plan : PatchPlan} (planned : (planPatch resolved context).exec FileSystem.perform fs = (.ok plan, fs')) :
    ∃ s, (planOps context resolved {}).exec FileSystem.perform fs = (.ok s, fs) ∧ s.problems = [] ∧ plan = s.plan context := by
  obtain ⟨s, mid, viewed, rest⟩ := Program.exec_bind_ok planned
  have same : mid = fs := (congrArg Prod.snd viewed).symm.trans (exec_readOnly planOps_readOnly fs)
  subst same
  split at rest
  · cases rest
  · rename_i none_refused
    cases rest
    exact ⟨s, viewed, List.eq_nil_of_length_eq_zero (not_not.mp none_refused), rfl⟩

/-- Planning refuses some operation of the patch: it adds to the problems, or throws. -/
def Refused (context : ToolContext) (resolved : List ResolvedOp) (fs : FileSystem) : Prop :=
  ∃ before r after s, resolved = before ++ r :: after ∧
    (planOps context before {}).exec FileSystem.perform fs = (.ok s, fs) ∧
    ∀ s', (planOp context r s).exec FileSystem.perform fs = (.ok s', fs) → s'.problems ≠ s.problems

theorem planOps_append {before after : List ResolvedOp} {s₀ : Planning}
    (planned : (planOps context before s₀).exec FileSystem.perform fs = (.ok s, fs)) :
    (planOps context (before ++ after) s₀).exec FileSystem.perform fs = (planOps context after s).exec FileSystem.perform fs := by
  induction before generalizing s₀ with
  | nil =>
    cases planned
    rfl
  | cons r rest ih =>
    obtain ⟨next, mid, stepped, continued⟩ := Program.exec_bind_ok planned
    have same : mid = fs := (congrArg Prod.snd stepped).symm.trans (exec_readOnly planOp_readOnly fs)
    subst same
    show ((planOp context r s₀).bind _).exec FileSystem.perform mid = _
    rw [Program.exec_bind, stepped]
    exact ih continued

theorem refused_unplanned (refused : Refused context resolved fs) {plan : PatchPlan} :
    (planPatch resolved context).exec FileSystem.perform fs ≠ (.ok plan, fs') := by
  intro planned
  obtain ⟨before, r, after, s, rfl, reached, refuses⟩ := refused
  obtain ⟨last, viewed, accepted, _⟩ := planPatch_ok planned
  rw [planOps_append reached] at viewed
  obtain ⟨next, mid, stepped, continued⟩ := Program.exec_bind_ok viewed
  have same : mid = fs := (congrArg Prod.snd stepped).symm.trans (exec_readOnly planOp_readOnly fs)
  subst same
  have clean : next.problems = [] := List.prefix_nil.mp (accepted ▸ planOps_problems continued)
  have before : s.problems = [] := List.prefix_nil.mp (clean ▸ planOp_problems stepped)
  exact refuses next stepped (clean.trans before.symm)

theorem refused_writes_nothing (refused : Refused context resolved fs) :
    ∃ e, (runPatch resolved context).exec FileSystem.perform fs = (.error e, fs) := by
  cases planned : (planPatch resolved context).exec FileSystem.perform fs with
  | mk reply mid =>
    cases reply with
    | ok plan => exact (refused_unplanned refused planned).elim
    | error e =>
      have same : mid = fs := (congrArg Prod.snd planned).symm.trans (exec_readOnly planPatch_readOnly fs)
      subst same
      refine ⟨e, ?_⟩
      show ((planPatch resolved context).bind _).exec FileSystem.perform mid = _
      rw [Program.exec_bind, planned]

end Plans

/-- Whichever call of an accepted plan fails, however much of a file it left, every recorded file is back
as it was and no other changed; and a patch with a refused operation makes no writing call. -/
theorem patch_all_or_nothing (context : ToolContext) (resolved : List ResolvedOp) (fs : FileSystem) :
    (∀ plan fs' e fs'', (planPatch resolved context).exec FileSystem.perform fs = (.ok plan, fs') →
      (writeChanges plan context).exec FileSystem.perform fs' = (.error e, fs'') →
      (∀ p state, plan.disk.get? p = some state → fs''.files p = state.file) ∧
        ∀ p, plan.disk.get? p = none → fs''.files p = fs.files p) ∧
      (Refused context resolved fs → ∃ e, (runPatch resolved context).exec FileSystem.perform fs = (.error e, fs)) := by
  refine ⟨fun plan fs' e fs'' planned failed => ?_, refused_writes_nothing⟩
  have same : fs' = fs := (congrArg Prod.snd planned).symm.trans (exec_readOnly planPatch_readOnly fs)
  subst same
  obtain ⟨s, viewed, accepted, rfl⟩ := planPatch_ok planned
  exact failed_write_restored (view_sequential viewed accepted) failed

namespace Torn
open Vacated

/-- The second file of the patch is half written. -/
def torn : FileSystem := { fs with fault := some (3, .torn "half") }

/-- `c` is replaced, and `a` moves to `b`. -/
def rewriting : List ResolvedOp := [⟨.delete "c", c, none⟩, ⟨.add "c" ["new"], c, none⟩, move a b]

end Torn

open Vacated Torn in
theorem torn_write_restored : ∃ plan e fs', (planPatch rewriting context).exec FileSystem.perform torn = (.ok plan, torn) ∧
    (writeChanges plan context).exec FileSystem.perform torn = (.error e, fs') ∧ fs'.files c = some "C\n" ∧ fs'.files b = none ∧
    ∃ e, (runPatch [move a c] context).exec FileSystem.perform torn = (.error e, torn) := by
  have planned : ((planPatch rewriting context).exec FileSystem.perform torn).1.toOption.map (fun plan =>
      (((writeChanges plan context).exec FileSystem.perform torn).1.toOption.isNone, plan.disk.get? c, plan.disk.get? b)) =
      some (true, some ⟨true, "C\n"⟩, some ⟨false, ""⟩) := by
    decide +kernel
  obtain ⟨plan, planned, outcome⟩ := Option.map_eq_some_iff.mp planned
  simp only [Prod.mk.injEq, Option.isNone_iff_eq_none] at outcome
  obtain ⟨failed, recorded, missing⟩ := outcome
  have planned := Program.exec_returned planned
  rw [exec_readOnly planPatch_readOnly] at planned
  cases written : (writeChanges plan context).exec FileSystem.perform torn with
  | mk reply fs' =>
    cases reply with
    | ok done =>
      rw [written] at failed
      cases failed
    | error e =>
      obtain ⟨restored, _⟩ := (patch_all_or_nothing context rewriting torn).1 plan torn e fs' planned written
      refine ⟨plan, e, fs', planned, written, restored c _ recorded, restored b _ missing, ?_⟩
      refine (patch_all_or_nothing context [move a c] torn).2 ⟨[], move a c, [], {}, rfl, rfl, fun s' stepped same => ?_⟩
      have refused : ((planOp context (move a c) {}).exec FileSystem.perform torn).1.toOption.map
          (fun s => s.problems.length) = some 1 := by decide +kernel
      rw [stepped] at refused
      have one : s'.problems.length = 1 := Option.some.inj refused
      rw [same] at one
      cases one

end Bike4Mind.ApplyPatch
