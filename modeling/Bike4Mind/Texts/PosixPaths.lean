import Bike4Mind.Texts.CodeUnits

/-! The path functions of `node:path` on a POSIX host. -/

namespace Texts

def SLASH : CodeUnit := 0x2f

def isAbsolute (path : Text) : Bool := path.head? = some SLASH

/-- The last component. -/
def basename (path : Text) : Text := ((path.reverse.dropWhile (· = SLASH)).takeWhile (· ≠ SLASH)).reverse

/-- Everything before the last component. -/
def dirname (path : Text) : Text :=
  match (path.reverse.dropWhile (· = SLASH)).dropWhile (· ≠ SLASH) with
  | [] => if isAbsolute path then [SLASH] else ascii "."
  | _ :: before =>
    if before = [] then [SLASH]
    else if isAbsolute path && before.length = 1 then [SLASH, SLASH]
    else before.reverse

/-- `path.replace(/\/+$/, '')` -/
def trimSlashes (path : Text) : Text := (path.reverse.dropWhile (· = SLASH)).reverse

/-! ### `normalize` -/

def DOT : CodeUnit := 0x2e

/-- A component as it joins the ones before it, the last of them first. -/
def normalizeComponent (allowAboveRoot : Bool) (before : List Text) (component : Text) : List Text :=
  if component = [] ∨ component = [DOT] then before
  else if component = [DOT, DOT] then
    match before with
    | [] => if allowAboveRoot then [component] else []
    | last :: rest => if last = [DOT, DOT] then (if allowAboveRoot then component :: before else before) else rest
  else component :: before

def normalizeString (path : Text) (allowAboveRoot : Bool) : Text :=
  [SLASH].intercalate ((path.splitOn SLASH).foldl (normalizeComponent allowAboveRoot) []).reverse

def normalize (path : Text) : Text :=
  if path = [] then [DOT]
  else
    let trailingSeparator := path.getLast? = some SLASH
    let normal := normalizeString path (! isAbsolute path)
    if normal = [] then
      if isAbsolute path then [SLASH] else if trailingSeparator then [DOT, SLASH] else [DOT]
    else
      (if isAbsolute path then [SLASH] else []) ++ normal ++ (if trailingSeparator then [SLASH] else [])

theorem trimSlashes_split (path : Text) : ∃ slashes, path = trimSlashes path ++ slashes ∧ ∀ c ∈ slashes, c = SLASH := by
  refine ⟨(path.reverse.takeWhile (· = SLASH)).reverse, ?_, fun c member => ?_⟩
  · unfold trimSlashes
    rw [← List.reverse_append, List.takeWhile_append_dropWhile, List.reverse_reverse]
  · have slash := List.mem_takeWhile_imp (List.mem_reverse.mp member)
    simpa using slash

example : [dirname (ascii "/a/b"), dirname (ascii "/a"), dirname (ascii "//a"), dirname (ascii "a//b/"), dirname (ascii "a")] =
    ["/a", "/", "//", "a/", "."].map ascii := by decide

example : [normalize (ascii "/p/src/../a.ts"), normalize (ascii "./a//b/"), normalize (ascii "../../a"), normalize (ascii "/..")] =
    ["/p/a.ts", "a/b/", "../../a", "/"].map ascii := by decide

end Texts
