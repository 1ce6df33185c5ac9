import Mathlib.Logic.Function.Basic

/-!
Writing calls on a file system, path by path. Calls on different paths do not meet, so a sequence of
calls succeeds exactly when the calls on each path do, and every file can be judged by its own calls.
-/

namespace Storage
variable {π τ : Type}

inductive FileCall (π τ : Type) where
  | write (path : π) (content : τ)
  | unlink (path : π)

namespace FileCall

def path : FileCall π τ → π
  | .write path _ | .unlink path => path

def unlinks : FileCall π τ → Bool
  | .write .. => false
  | .unlink _ => true

/-- The file a call leaves at its own path. Unlinking a missing file fails. -/
def onFile : FileCall π τ → Option τ → Option (Option τ)
  | .write _ content, _ => some (some content)
  | .unlink _, some _ => some none
  | .unlink _, none => none

/-- What a list of calls on one path leaves there. -/
def onFileAll (file : Option τ) : List (FileCall π τ) → Option (Option τ)
  | [] => some file
  | call :: rest => (call.onFile file).bind fun file => onFileAll file rest

theorem onFileAll_append {file : Option τ} {first rest : List (FileCall π τ)} :
    onFileAll file (first ++ rest) = (onFileAll file first).bind fun mid => onFileAll mid rest := by
  induction first generalizing file with
  | nil => rfl
  | cons call first ih =>
    simp only [List.cons_append, onFileAll, Option.bind_assoc]
    congr 1
    funext mid
    exact ih

theorem onFileAll_unlinks {file : Option τ} {calls : List (FileCall π τ)} (all : ∀ call ∈ calls, call.unlinks = true) :
    onFileAll file calls =
      if calls.length = 0 then some file else if calls.length = 1 ∧ file.isSome = true then some none else none := by
  have unlink : ∀ {call : FileCall π τ} {file : Option τ}, call.unlinks = true →
      call.onFile file = if file.isSome = true then some none else none := by
    intro call file h
    cases call with
    | write path content => cases h
    | unlink path => cases file <;> rfl
  cases calls with
  | nil => rfl
  | cons call rest =>
    rw [onFileAll, unlink (all call List.mem_cons_self)]
    cases file with
    | none => simp
    | some content =>
      cases rest with
      | nil => rfl
      | cons next rest =>
        show onFileAll none (next :: rest) = _
        rw [onFileAll, unlink (all next (by simp))]
        simp

/-- A write between unlinks: one file may go before it, and it stays exactly when nothing unlinks it. -/
theorem onFileAll_write_between {file after : Option τ} {path : π} {content : τ} {before later : List (FileCall π τ)}
    (earlier : ∀ call ∈ before, call.unlinks = true) (afterwards : ∀ call ∈ later, call.unlinks = true)
    (kept : after.isSome = true → after = some content) :
    onFileAll file (before ++ .write path content :: later) = some after ↔
      before.length ≤ (if file.isSome = true then 1 else 0) ∧ later.length = if after.isSome = true then 0 else 1 := by
  have settles : onFileAll (some content) later = some after ↔ later.length = if after.isSome = true then 0 else 1 := by
    rw [onFileAll_unlinks afterwards]
    cases after with
    | none =>
      rcases later.length with _ | _ | n <;> simp
    | some text =>
      have same := kept rfl
      rw [same]
      rcases later.length with _ | _ | n <;> simp
  have tail : ∀ file : Option τ, onFileAll file (.write path content :: later) = onFileAll (some content) later := fun _ => rfl
  rw [onFileAll_append, onFileAll_unlinks earlier]
  split
  · rename_i none_before
    rw [Option.bind_some, tail, settles, none_before]
    simp
  · split
    · rename_i one
      rw [Option.bind_some, tail, settles, one.1, if_pos one.2]
      simp
    · rename_i some_before failed
      rw [Option.bind_none]
      constructor
      · intro h
        cases h
      · rintro ⟨few, _⟩
        exfalso
        split at few
        · rename_i there
          exact failed ⟨by omega, there⟩
        · omega

/-- Without a write of its own, a path meant to be unlinked elsewhere is so exactly once. -/
theorem onFileAll_only_unlinks {file after : Option τ} {calls : List (FileCall π τ)} (all : ∀ call ∈ calls, call.unlinks = true)
    (meant : after = file ∨ after = none ∧ calls.length ≠ 0) :
    onFileAll file calls = some after ↔ calls.length ≤ if file.isSome = true ∧ after.isSome = false then 1 else 0 := by
  rw [onFileAll_unlinks all]
  rcases meant with rfl | ⟨rfl, some_calls⟩
  · cases after with
    | none => rcases calls.length with _ | _ | n <;> simp
    | some text => rcases calls.length with _ | _ | n <;> simp
  · cases file with
    | none => simp [some_calls]
    | some text =>
      generalize calls.length = count at some_calls
      rcases count with _ | _ | n
      · exact (some_calls rfl).elim
      · simp
      · simp

variable [DecidableEq π]

def apply (files : π → Option τ) (call : FileCall π τ) : Option (π → Option τ) :=
  (call.onFile (files call.path)).map (Function.update files call.path)

def applyAll (files : π → Option τ) : List (FileCall π τ) → Option (π → Option τ)
  | [] => some files
  | call :: rest => (call.apply files).bind fun files => applyAll files rest

/-- A sequence of calls succeeds as a whole exactly when it does path by path. -/
theorem applyAll_eq_some_iff {files files' : π → Option τ} {calls : List (FileCall π τ)} :
    applyAll files calls = some files' ↔
      ∀ p, onFileAll (files p) (calls.filter fun call => call.path = p) = some (files' p) := by
  induction calls generalizing files with
  | nil =>
    simp only [applyAll, List.filter_nil, onFileAll, Option.some.injEq]
    exact funext_iff
  | cons call rest ih =>
    have elsewhere : ∀ p, p ≠ call.path → ((call :: rest).filter fun call => call.path = p) =
        rest.filter fun call => call.path = p := by
      intro p other
      rw [List.filter_cons_of_neg (by simpa using Ne.symm other)]
    have here : ((call :: rest).filter fun c => c.path = call.path) = call :: rest.filter fun c => c.path = call.path :=
      List.filter_cons_of_pos (by simp)
    simp only [applyAll, apply]
    cases done : call.onFile (files call.path) with
    | none =>
      simp only [Option.map_none, Option.bind_none]
      constructor
      · intro h
        cases h
      · intro all
        have broken := all call.path
        rw [here, onFileAll, done] at broken
        cases broken
    | some file =>
      simp only [Option.map_some, Option.bind_some]
      rw [ih]
      apply forall_congr'
      intro p
      by_cases same : p = call.path
      · subst same
        rw [Function.update_self, here, onFileAll, done]
        rfl
      · rw [Function.update_of_ne same, elsewhere p same]

end FileCall
end Storage
