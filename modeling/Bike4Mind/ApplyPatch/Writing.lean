import Bike4Mind.ApplyPatch.Reading

/-! What `writeChanges` does: its calls in order, the files they leave and the files it has touched. -/

namespace Bike4Mind.ApplyPatch
open Concurrency Collections Storage

/-! ### The steps of a block -/

inductive Step where
  | touch (path : Path)
  | call (op : FileOp)

def changeSteps (context : ToolContext) (change : FileChange) : List Step :=
  if change.status = .D then [.touch change.toPath, .call (.unlink change.toPath)]
  else [.touch change.toPath, .call (.mkdir (context.dirname change.toPath)), .call (.writeFile change.toPath change.after)] ++
    if change.status = .R ∧ change.fromPath ≠ change.toPath then [.touch change.fromPath, .call (.unlink change.fromPath)] else []

/-- The steps up to the first call that fails. -/
def runSteps : List Step → List Path → FileSystem → (Except JsError Unit × List Path) × FileSystem
  | [], touched, fs => ((.ok (), touched), fs)
  | .touch path :: rest, touched, fs => runSteps rest (touched ++ [path]) fs
  | .call op :: rest, touched, fs =>
    match fs.write op with
    | (.ok (), fs) => runSteps rest touched fs
    | (.error e, fs) => ((.error e, touched), fs)

section Blocks
variable {α β : Type} {fs fs' : FileSystem} {touched touched' : List Path}

/-- What a block returns or throws, the files it touched, and the file system it leaves. -/
def outcome (m : Touching α) (touched : List Path) (fs : FileSystem) : Except JsError (Except JsError α × List Path) × FileSystem :=
  (m.run.run touched).exec FileSystem.perform fs

theorem outcome_attempt {op : FileOp} :
    outcome (attempt (Program.perform op)) touched fs = (.ok ((FileSystem.perform op fs).1, touched), (FileSystem.perform op fs).2) := by
  show ((Program.settle (FileSystem.perform op fs).1).bind _ |>.tryCatch _).exec FileSystem.perform (FileSystem.perform op fs).2 = _
  generalize FileSystem.perform op fs = out
  obtain ⟨reply, fs'⟩ := out
  cases reply <;> rfl

theorem outcome_bind {m : Touching α} {f : α → Touching β} {a : α} (done : outcome m touched fs = (.ok (.ok a, touched'), fs')) :
    outcome (m >>= f) touched fs = outcome (f a) touched' fs' := by
  show ((m.run.run touched).bind _).exec FileSystem.perform fs = _
  unfold outcome at done
  rw [Program.exec_bind, done]
  rfl

theorem outcome_bind_error {m : Touching α} {f : α → Touching β} {e : JsError}
    (failed : outcome m touched fs = (.ok (.error e, touched'), fs')) :
    outcome (m >>= f) touched fs = (.ok (.error e, touched'), fs') := by
  show ((m.run.run touched).bind _).exec FileSystem.perform fs = _
  unfold outcome at failed
  rw [Program.exec_bind, failed]
  rfl

/-- A block that runs some steps and then `rest`. -/
def Steps (m : Touching Unit) (steps : List Step) : Prop :=
  ∀ touched fs, outcome m touched fs = (.ok (runSteps steps touched fs).1, (runSteps steps touched fs).2)

theorem steps_return : Steps (return) [] := fun _ _ => rfl

theorem steps_touch {path : Path} : Steps (touch path) [.touch path] := fun _ _ => rfl

theorem steps_attempt {op : FileOp} {call : Async Unit}
    (performs : ∀ touched fs, outcome (attempt call) touched fs = (.ok ((fs.write op).1, touched), (fs.write op).2)) :
    Steps (attempt call) [.call op] := by
  intro touched fs
  rw [performs]
  unfold runSteps
  cases fs.write op with
  | mk reply fs' => cases reply <;> rfl

theorem steps_mkdir {directory : String} : Steps (attempt (mkdir directory)) [.call (.mkdir directory)] :=
  steps_attempt fun _ _ => outcome_attempt

theorem steps_writeFile {path : Path} {content : String} :
    Steps (attempt (writeFile path content)) [.call (.writeFile path content)] :=
  steps_attempt fun _ _ => outcome_attempt

theorem steps_unlink {path : Path} : Steps (attempt (unlink path)) [.call (.unlink path)] :=
  steps_attempt fun _ _ => outcome_attempt

theorem runSteps_append {steps rest : List Step} (done : runSteps steps touched fs = ((.ok (), touched'), fs')) :
    runSteps (steps ++ rest) touched fs = runSteps rest touched' fs' := by
  induction steps generalizing touched fs with
  | nil =>
    cases done
    rfl
  | cons step steps ih =>
    cases step with
    | touch path => exact ih done
    | call op =>
      simp only [List.cons_append, runSteps] at done ⊢
      cases written : fs.write op with
      | mk reply mid =>
        rw [written] at done
        cases reply with
        | ok _ => exact ih done
        | error e => cases done

theorem runSteps_append_error {steps rest : List Step} {e : JsError}
    (failed : runSteps steps touched fs = ((.error e, touched'), fs')) :
    runSteps (steps ++ rest) touched fs = ((.error e, touched'), fs') := by
  induction steps generalizing touched fs with
  | nil => cases failed
  | cons step steps ih =>
    cases step with
    | touch path => exact ih failed
    | call op =>
      simp only [List.cons_append, runSteps] at failed ⊢
      cases written : fs.write op with
      | mk reply mid =>
        rw [written] at failed
        cases reply with
        | ok _ => exact ih failed
        | error e => exact failed

theorem steps_append {m m' : Touching Unit} {steps steps' : List Step} (first : Steps m steps) (rest : Steps m' steps') :
    Steps (m >>= fun _ => m') (steps ++ steps') := by
  intro touched fs
  have here := first touched fs
  cases ran : runSteps steps touched fs with
  | mk out fs' =>
    obtain ⟨reply, touched'⟩ := out
    rw [ran] at here
    cases reply with
    | ok done =>
      rw [runSteps_append ran]
      exact (outcome_bind here).trans (rest touched' fs')
    | error e =>
      rw [runSteps_append_error ran]
      exact outcome_bind_error here

theorem writeChange_steps {context : ToolContext} {change : FileChange} :
    Steps (writeChange context change) (changeSteps context change) := by
  unfold writeChange changeSteps
  split
  · exact steps_append steps_touch steps_unlink
  · show Steps _ ([_] ++ ([_] ++ ([_] ++ _)))
    refine steps_append steps_touch (steps_append steps_mkdir (steps_append steps_writeFile ?_))
    split
    · exact steps_append steps_touch steps_unlink
    · exact steps_return

theorem writeAll_steps {context : ToolContext} {changes : List FileChange} :
    Steps (writeAll context changes) (changes.flatMap (changeSteps context)) := by
  induction changes with
  | nil => exact steps_return
  | cons change rest ih =>
    rw [List.flatMap_cons]
    exact steps_append writeChange_steps ih

/-! ### Restoring -/

theorem exec_caught {program : Async Unit} :
    (tryCatch program fun _ => return : Async Unit).exec FileSystem.perform fs =
      (.ok (), (program.exec FileSystem.perform fs).2) := by
  show (Program.tryCatch program _).exec FileSystem.perform fs = _
  rw [Program.exec_tryCatch]
  cases program.exec FileSystem.perform fs with
  | mk r fs' => cases r <;> rfl

theorem restoreFile_ok {plan : PatchPlan} {target : Path} :
    ((restoreFile plan target).exec FileSystem.perform fs).1 = .ok () := by
  unfold restoreFile
  split
  · rfl
  · rw [exec_caught]

theorem restore_cons {plan : PatchPlan} {target : Path} {rest : List Path} :
    (restore plan (target :: rest)).exec FileSystem.perform fs =
      (restore plan rest).exec FileSystem.perform ((restoreFile plan target).exec FileSystem.perform fs).2 := by
  show ((restoreFile plan target).bind _).exec FileSystem.perform fs = _
  rw [Program.exec_bind]
  have done := @restoreFile_ok fs plan target
  cases ran : (restoreFile plan target).exec FileSystem.perform fs with
  | mk r fs' =>
    rw [ran] at done
    cases done
    rfl

theorem restore_ok {plan : PatchPlan} {targets : List Path} :
    ((restore plan targets).exec FileSystem.perform fs).1 = .ok () := by
  induction targets generalizing fs with
  | nil => rfl
  | cons target rest ih =>
    rw [restore_cons]
    exact ih

end Blocks

/-! ### The whole of `writeChanges` -/

def planSteps (context : ToolContext) (plan : PatchPlan) : List Step := plan.changes.flatMap (changeSteps context)

section Whole
variable {context : ToolContext} {plan : PatchPlan} {fs fs' : FileSystem} {touched : List Path}

theorem writeChanges_done (ran : runSteps (planSteps context plan) [] fs = ((.ok (), touched), fs')) :
    (writeChanges plan context).exec FileSystem.perform fs = (.ok (), fs') := by
  show (((writeAll context plan.changes).run.run []).bind _).exec FileSystem.perform fs = _
  have steps := @writeAll_steps context plan.changes [] fs
  unfold outcome at steps
  unfold planSteps at ran
  rw [Program.exec_bind, steps, ran]
  rfl

theorem writeChanges_failed {e : JsError} (ran : runSteps (planSteps context plan) [] fs = ((.error e, touched), fs')) :
    (writeChanges plan context).exec FileSystem.perform fs =
      (.error (.error s!"Writing the patch failed part-way ({e.message}); every file was put back as it was."),
        ((restore plan touched.reverse).exec FileSystem.perform fs').2) := by
  show (((writeAll context plan.changes).run.run []).bind _).exec FileSystem.perform fs = _
  have steps := @writeAll_steps context plan.changes [] fs
  unfold outcome at steps
  unfold planSteps at ran
  rw [Program.exec_bind, steps, ran]
  show ((restore plan touched.reverse).bind _).exec FileSystem.perform fs' = _
  rw [Program.exec_bind]
  have done := @restore_ok fs' plan touched.reverse
  cases restored : (restore plan touched.reverse).exec FileSystem.perform fs' with
  | mk r last =>
    rw [restored] at done
    cases done
    rfl

end Whole
end Bike4Mind.ApplyPatch
