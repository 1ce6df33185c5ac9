import Bike4Mind.ApplyPatch.Plan

/-! What planning does to the files: nothing. Planning a patch reads, and a refused patch has written nothing. -/

namespace Bike4Mind.ApplyPatch
open Concurrency Collections

abbrev ReadOnly {α : Type} (program : Async α) : Prop := Only (fun op => op.reads = true) program

section ReadOnly
variable {context : ToolContext}

theorem readOnly_stat {path : Path} : ReadOnly (stat path) := only_perform rfl

theorem readOnly_readFile {path : Path} : ReadOnly (readFile path) := only_perform rfl

theorem readTarget_readOnly {target : Path} {allowBinary : Bool} : ReadOnly (readTarget target allowBinary) := by
  refine only_bind (only_tryCatch (only_bind readOnly_stat fun _ => trivial) fun _ => trivial) fun info => ?_
  cases info with
  | none => trivial
  | some info =>
    dsimp only
    split
    · trivial
    · split
      · trivial
      · split
        · trivial
        · refine only_bind readOnly_readFile fun content => ?_
          split <;> trivial

theorem loadOtherFile_readOnly {path : Path} : ReadOnly (loadOtherFile context path) := by
  refine only_tryCatch (only_bind readOnly_stat fun info => ?_) fun _ => trivial
  split
  · trivial
  · refine only_bind readOnly_readFile fun text => ?_
    split <;> trivial

theorem loadOtherFiles_readOnly {target : Path} {paths : List Path} : ReadOnly (loadOtherFiles target context paths) := by
  induction paths with
  | nil => trivial
  | cons path rest ih =>
    unfold loadOtherFiles
    split
    · exact ih
    · exact only_bind loadOtherFile_readOnly fun other => only_bind ih fun others => trivial

theorem locate_readOnly {target : Path} {chunks : List PatchChunk} {lines : List String} :
    ReadOnly (locate context target chunks lines) := by
  unfold locate
  dsimp only
  split
  · trivial
  · refine only_bind loadOtherFiles_readOnly fun others => ?_
    split <;> trivial

theorem entryFor_readOnly {s : Planning} {target : Path} : ReadOnly (s.entryFor target) := by
  unfold Planning.entryFor
  split
  · trivial
  · exact only_bind readTarget_readOnly fun state => trivial

theorem planMove_readOnly {target moveTarget : Path} {entry : Entry} {content : String} {s : Planning} :
    ReadOnly (planMove context target moveTarget entry content s) := by
  refine only_bind entryFor_readOnly fun destination => ?_
  dsimp only
  split <;> trivial

theorem planUpdate_readOnly {target : Path} {path : String} {moveTarget : Option Path} {chunks : List PatchChunk}
    {entry : Entry} {s : Planning} : ReadOnly (planUpdate context target path moveTarget chunks entry s) := by
  unfold planUpdate
  dsimp only
  split
  · trivial
  · split
    · trivial
    · refine only_bind locate_readOnly fun applied => ?_
      split
      · trivial
      · split
        · trivial
        · split
          · exact planMove_readOnly
          · trivial

theorem planOp_readOnly {r : ResolvedOp} {s : Planning} : ReadOnly (planOp context r s) := by
  refine only_bind entryFor_readOnly fun known => ?_
  dsimp only
  split
  · trivial
  · trivial
  · exact planUpdate_readOnly

theorem planOps_readOnly {resolved : List ResolvedOp} {s : Planning} : ReadOnly (planOps context resolved s) := by
  induction resolved generalizing s with
  | nil => trivial
  | cons r rest ih => exact only_bind planOp_readOnly fun s => ih

theorem planPatch_readOnly {resolved : List ResolvedOp} : ReadOnly (planPatch resolved context) := by
  refine only_bind planOps_readOnly fun s => ?_
  split <;> trivial

end ReadOnly

theorem exec_readOnly {α : Type} {program : Async α} (only : ReadOnly program) (fs : FileSystem) :
    (program.exec FileSystem.perform fs).2 = fs :=
  Program.exec_only only (fun _ _ => FileSystem.perform_reads) fs

/-! ### What was read -/

/-- The file a recorded state stands for. -/
def TargetState.file (state : TargetState) : Option String := if state.present then some state.content else none

section Runs
variable {fs fs' : FileSystem}

theorem stat_caught {target : Path} :
    Program.exec FileSystem.perform (tryCatch (do return some (← stat target)) fun _ => return none) fs =
      (.ok (fs.statOf target).toOption, fs) := by
  show Program.exec FileSystem.perform (Program.tryCatch ((Program.settle (fs.statOf target)).bind _) _) fs = _
  cases fs.statOf target <;> rfl

theorem readTarget_exec {target : Path} {allowBinary : Bool} {state : TargetState}
    (h : (readTarget target allowBinary).exec FileSystem.perform fs = (.ok state, fs')) : state.file = fs.files target := by
  obtain ⟨info, mid, asked, rest⟩ := Program.exec_bind_ok h
  rw [stat_caught] at asked
  cases asked
  unfold FileSystem.statOf at rest
  cases irregular : fs.irregular target with
  | some kind =>
    rw [irregular] at rest
    cases kind <;> cases rest
  | none =>
    rw [irregular] at rest
    cases there : fs.files target with
    | none =>
      rw [there] at rest
      cases rest
      rfl
    | some content =>
      rw [there] at rest
      change Program.exec FileSystem.perform (if MAX_WRITE_BYTES < content.utf8ByteSize then _ else _) fs = _ at rest
      split at rest
      · cases rest
      · obtain ⟨text, last, read, rest⟩ := Program.exec_bind_ok rest
        have read := (Program.exec_perform _ _).symm.trans read
        have held : fs.textOf target = .ok text := congrArg Prod.fst read
        unfold FileSystem.textOf at held
        rw [there] at held
        cases held
        split at rest
        · cases rest
        · cases rest
          rfl

end Runs
end Bike4Mind.ApplyPatch
