import Bike4Mind.Concurrency.Atomic
import Bike4Mind.Runtime
import Bike4Mind.Storage.FileCalls

/-!
The files under `apply_patch`. Only regular files can change here: what stands at any other path is
fixed, and `mkdir` makes no file.
-/

namespace Bike4Mind.ApplyPatch
open Concurrency Storage

/-- A resolved path. It is never the empty text, so a test for its truth reads its presence. -/
structure Path where
  text : String
  nonempty : text ≠ ""
  deriving DecidableEq

structure FileInfo where
  isDirectory : Bool
  isFile : Bool
  size : Nat

inductive FileOp where
  | stat (path : Path)
  | readFile (path : Path)
  | mkdir (directory : String)
  | writeFile (path : Path) (content : String)
  | unlink (path : Path)

namespace FileOp

abbrev Value : FileOp → Type
  | .stat _ => FileInfo
  | .readFile _ => String
  | .mkdir _ | .writeFile .. | .unlink _ => Unit

def reads : FileOp → Bool
  | .stat _ | .readFile _ => true
  | .mkdir _ | .writeFile .. | .unlink _ => false

/-- The file a call may change. -/
def target? : FileOp → Option Path
  | .writeFile path _ | .unlink path => some path
  | .stat _ | .readFile _ | .mkdir _ => none

/-- The files after the call, unless it fails for lack of one. -/
def effect : FileOp → (Path → Option String) → Option (Path → Option String)
  | .writeFile path content, files => (FileCall.write path content).apply files
  | .unlink path, files => (FileCall.unlink path).apply files
  | .stat _, files | .readFile _, files | .mkdir _, files => some files

end FileOp

abbrev Async (α : Type) := Program FileOp FileOp.Value JsError α

def stat (path : Path) : Async FileInfo := Program.perform (FileOp.stat path)

def readFile (path : Path) : Async String := Program.perform (FileOp.readFile path)

def mkdir (directory : String) : Async Unit := Program.perform (FileOp.mkdir directory)

def writeFile (path : Path) (content : String) : Async Unit := Program.perform (FileOp.writeFile path content)

def unlink (path : Path) : Async Unit := Program.perform (FileOp.unlink path)

inductive Irregular where
  | directory
  | special

/-- How a call fails. A failed `writeFile` may leave the file with any text. -/
inductive Fault where
  | untouched
  | torn (content : String)

def Fault.leaves : Fault → FileOp → (Path → Option String) → Path → Option String
  | .torn content, .writeFile path _, files => Function.update files path (some content)
  | _, _, files => files

/-- `fault` is the writing call that will fail, counted from the next one. A run fails at one call, so
the first call that fails clears it. -/
structure FileSystem where
  files : Path → Option String
  irregular : Path → Option Irregular
  fault : Option (Nat × Fault)
  log : List FileOp

namespace FileSystem

def statOf (fs : FileSystem) (path : Path) : Except JsError FileInfo :=
  match fs.irregular path, fs.files path with
  | some .directory, _ => .ok ⟨true, false, 0⟩
  | some .special, _ => .ok ⟨false, false, 0⟩
  | none, some content => .ok ⟨false, true, content.utf8ByteSize⟩
  | none, none => .error (.error "ENOENT")

def textOf (fs : FileSystem) (path : Path) : Except JsError String :=
  match fs.files path with
  | some content => .ok content
  | none => .error (.error "ENOENT")

/-- One writing call. -/
def write (fs : FileSystem) (op : FileOp) : Except JsError Unit × FileSystem :=
  match fs.fault with
  | some (0, fault) =>
    (.error (.error "EIO"), { fs with files := fault.leaves op fs.files, fault := none, log := op :: fs.log })
  | upcoming =>
    match op.effect fs.files with
    | some files =>
      (.ok (), { fs with files := files, fault := upcoming.map fun f => (f.1 - 1, f.2), log := op :: fs.log })
    | none => (.error (.error "ENOENT"), { fs with fault := none, log := op :: fs.log })

def perform : (op : FileOp) → FileSystem → Except JsError op.Value × FileSystem
  | .stat path, fs => (fs.statOf path, fs)
  | .readFile path, fs => (fs.textOf path, fs)
  | .mkdir directory, fs => fs.write (.mkdir directory)
  | .writeFile path content, fs => fs.write (.writeFile path content)
  | .unlink path, fs => fs.write (.unlink path)

theorem perform_reads {op : FileOp} {fs : FileSystem} (h : op.reads = true) : (perform op fs).2 = fs := by
  cases op <;> first | rfl | cases h

theorem write_calm {fs : FileSystem} {op : FileOp} (calm : fs.fault = none) :
    fs.write op = match op.effect fs.files with
      | some files => (.ok (), { fs with files := files, log := op :: fs.log })
      | none => (.error (.error "ENOENT"), { fs with log := op :: fs.log }) := by
  unfold write
  rw [calm]
  cases op.effect fs.files with
  | some files =>
    show (_, { fs with files := files, fault := none, log := op :: fs.log }) = (_, _)
    rw [← calm]
  | none =>
    show (_, { fs with fault := none, log := op :: fs.log }) = (_, _)
    rw [← calm]

theorem write_elsewhere {fs : FileSystem} {op : FileOp} {path : Path} (elsewhere : op.target? ≠ some path) :
    (fs.write op).2.files path = fs.files path := by
  have natural : ∀ files, op.effect fs.files = some files → files path = fs.files path := by
    intro files done
    cases op with
    | writeFile target content =>
      cases done
      exact Function.update_of_ne (fun same => elsewhere (congrArg some same.symm)) _ _
    | unlink target =>
      obtain ⟨file, _, rfl⟩ := Option.map_eq_some_iff.mp done
      exact Function.update_of_ne (fun same => elsewhere (congrArg some same.symm)) _ _
    | _ =>
      cases done
      rfl
  have torn : ∀ fault : Fault, fault.leaves op fs.files path = fs.files path := by
    intro fault
    cases fault with
    | untouched => rfl
    | torn content =>
      cases op with
      | writeFile target new => exact Function.update_of_ne (fun same => elsewhere (congrArg some same.symm)) _ _
      | _ => rfl
  unfold write
  split
  · exact torn _
  · split
    · rename_i files done
      exact natural files done
    · rfl

theorem write_failed {fs fs' : FileSystem} {op : FileOp} {e : JsError} (failed : fs.write op = (.error e, fs')) :
    fs'.fault = none := by
  unfold write at failed
  split at failed
  · cases failed
    rfl
  · split at failed
    · cases failed
    · cases failed
      rfl

end FileSystem
end Bike4Mind.ApplyPatch
