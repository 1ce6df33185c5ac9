import Bike4Mind.Texts.Accepting
import Bike4Mind.Texts.PosixPaths

/-! Permission rules over paths: how a glob is compiled, and how a rule set decides about a call that names paths. -/

namespace Bike4Mind.Permissions

open Texts

inductive PermissionList where
  | allow
  | ask
  | deny
  deriving DecidableEq

/-- What a path rule is resolved against. -/
structure PathBase where
  home : Text
  root : Option Text
  cwd : Option Text

/-! ### Globs -/

def STAR : CodeUnit := 0x2a

def QUESTION : CodeUnit := 0x3f

def notSlash (c : CodeUnit) : Bool := c ≠ SLASH

def anything : Regex CodeUnit := .star true (.unit fun _ => true)

/-- What the loop of `globToRegExp` makes of a pattern. -/
def globSource : Text → Regex CodeUnit
  | [] => .empty
  | c :: rest =>
    if c = STAR then
      match rest with
      | d :: more =>
        if d = STAR then
          match more with
          | e :: later => if e = SLASH then .seq (.optional (.seq anything (.only SLASH))) (globSource later) else .seq anything (globSource (e :: later))
          | [] => .seq anything .empty
        else .seq (.star true (.unit notSlash)) (globSource (d :: more))
      | [] => .seq (.star true (.unit notSlash)) .empty
    else if c = QUESTION then .seq (.unit notSlash) (globSource rest)
    else .seq (.only c) (globSource rest)

/-- A pattern naming a directory covers everything inside it. -/
def globPattern (glob : Text) : Text := if [SLASH] <:+ glob then glob ++ [STAR, STAR] else glob

/-- `globToRegExp`; the source is between `^` and `$`. -/
def globToRegExp (glob : Text) : Regex CodeUnit := .seq (globSource (globPattern glob)) (.optional (.seq (.only SLASH) anything))

def absolutePathGlob (spec : Text) (base : PathBase) : Option Text :=
  if ascii "//" <+: spec then some (spec.drop 1)
  else if spec = ascii "~" ∨ ascii "~/" <+: spec then some (trimSlashes base.home ++ spec.drop 1)
  else if ascii "/" <+: spec then base.root.bind fun root => if root = [] then none else some (trimSlashes root ++ spec)
  else base.cwd.bind fun cwd =>
    if cwd = [] then none
    else
      let relative := if ascii "./" <+: spec then spec.drop 2 else spec
      let anyDepth := SLASH ∉ trimSlashes relative
      some (trimSlashes cwd ++ [SLASH] ++ (if anyDepth then ascii "**/" else []) ++ relative)

def isWild (c : CodeUnit) : Bool := c = STAR || c = QUESTION

/-- The folder that everything a glob matches is in. -/
def searchRootOf (absolute : Text) : Text :=
  let before := absolute.takeWhile (! isWild ·)
  -- Before a wildcard the final component may itself be partial.
  let directory := if absolute.any isWild then dirname (before ++ ascii "x") else absolute
  if trimSlashes directory = [] then [SLASH] else trimSlashes directory

/-! ### Rules -/

structure RuleSource where
  id : Text
  label : Text
  path : Option Text := none

inductive RuleMatcher where
  | any
  | shell
  | path (spec : Text)
  | domain (host : Text) (wildcard : Bool)
  | mcp

structure ParsedRule where
  text : Text
  tools : List Text
  matcher : RuleMatcher

inductive CompiledMatcher where
  | any
  | shell
  | path (pattern : Regex CodeUnit) (searchRoot : Text)
  | domain (host : Text) (wildcard : Bool)
  | mcp

structure CompiledRule where
  text : Text
  list : PermissionList
  source : RuleSource
  tools : List Text
  matcher : CompiledMatcher

def compileRule (parsed : ParsedRule) (list : PermissionList) (source : RuleSource) (base : PathBase) : Option CompiledRule :=
  let compiled (matcher : CompiledMatcher) : CompiledRule := { text := parsed.text, list, source, tools := parsed.tools, matcher }
  match parsed.matcher with
  | .path spec => (absolutePathGlob spec base).map fun absolute => compiled (.path (globToRegExp absolute) (searchRootOf absolute))
  | .any => some (compiled .any)
  | .shell => some (compiled .shell)
  | .domain host wildcard => some (compiled (.domain host wildcard))
  | .mcp => some (compiled .mcp)

/-! ### Decisions -/

/-- A call that neither runs a script nor goes to an MCP server. -/
structure PermissionSubject where
  tool : Text
  paths : Option (List Text) := none
  recursive : Bool := false
  host : Option Text := none
  irreversible : Bool := false

inductive PermissionVerdict where
  | decided (decision : PermissionList) (rule : CompiledRule)
  | none

def PermissionVerdict.decision : PermissionVerdict → Option PermissionList
  | decided decision _ => some decision
  | none => .none

/-- What the host says about letter case and about its file system. -/
structure Host where
  ignoresCase : Bool
  toLowerCase : Text → Text
  realpathSyncNearest : Text → Option Text
  ownLocation : Text → Option Text

namespace Host
variable (host : Host)

def caseFolded (path : Text) : Text := if host.ignoresCase then host.toLowerCase path else path

def guardForm (path : Text) : Text := host.caseFolded path

end Host

def guardFormWithin (root candidate : Text) : Bool :=
  candidate = root || decide ((if [SLASH] <:+ root then root else root ++ [SLASH]) <+: candidate)

def within (host : Host) (root candidate : Text) : Bool := guardFormWithin (host.guardForm root) (host.guardForm candidate)

def isSettingsFile (path : Text) : Bool :=
  (basename path = ascii "settings.json" || basename path = ascii "settings.local.json") && basename (dirname path) = ascii ".claude"

/-- The lexical and real spellings of a path, and its own location. -/
def spellings (host : Host) (path : Text) : Option (List Text) :=
  match if isAbsolute path then host.realpathSyncNearest path else some path, host.ownLocation path with
  | some real, some own => some ([path, real, own].map host.caseFolded)
  | _, _ => none

/-- `roots` are the protected roots in guard form. -/
def isProtectedPath (host : Host) (path : Text) (roots : List Text) : Bool :=
  (spellings host path).all fun all => all.any fun spelling =>
    isSettingsFile spelling || roots.any (guardFormWithin · (host.guardForm spelling))

def hostMatches (toLowerCase : Text → Text) (host ruleHost : Text) (wildcard : Bool) : Bool :=
  if wildcard then decide (ascii "." ++ ruleHost <:+ toLowerCase host) else toLowerCase host = ruleHost

/-- Whether an allow rule covers one path. -/
def coversPath (rule : CompiledRule) (path : Text) : Bool :=
  match rule.matcher with
  | .any => true
  | .path pattern _ => pattern.test path
  | _ => false

structure PermissionRuleSet where
  host : Host
  rules : List CompiledRule
  protectedRoots : List Text := []
  unresolvedProtected : List Text := []

namespace PermissionRuleSet
variable (set : PermissionRuleSet)

/-- The rules of a tool, once for each time it is named. -/
def byTool (tool : Text) : List CompiledRule := set.rules.flatMap fun rule => (rule.tools.filter (· = tool)).map fun _ => rule

def guardRoots : List Text := set.protectedRoots.map set.host.guardForm

/-- deny and ask: the rule names any part of the call. -/
def touches (rule : CompiledRule) (subject : PermissionSubject) : Bool :=
  match rule.matcher with
  | .any => true
  | .shell => false
  | .path pattern searchRoot => (subject.paths.getD []).any fun path =>
      pattern.test path || pattern.test (path ++ ascii "/x") ||
        (subject.recursive && (within set.host path searchRoot || within set.host searchRoot path))
  | .domain ruleHost wildcard => subject.host.any fun host => hostMatches set.host.toLowerCase host ruleHost wildcard
  | .mcp => false

/-- allow: every part of the call is covered, and no floor applies. -/
def allowing (rules : List CompiledRule) (subject : PermissionSubject) : Option CompiledRule :=
  if rules = [] then none
  else if set.unresolvedProtected ≠ [] then none
  else match subject.paths with
    | some paths =>
      if paths = [] ∨ paths.any (isProtectedPath set.host · set.guardRoots) then none
      else if paths.all fun path => rules.any (coversPath · path) then
        paths.head?.bind fun path => rules.find? (coversPath · path)
      else none
    | none => rules.find? (set.touches · subject)

def evaluate (subject : PermissionSubject) : PermissionVerdict :=
  let rules := set.byTool subject.tool
  match rules.find? fun rule => rule.list = .deny && set.touches rule subject with
  | some rule => .decided .deny rule
  | none =>
    match rules.find? fun rule => rule.list = .ask && set.touches rule subject with
    | some rule => .decided .ask rule
    | none =>
      if subject.irreversible then .none
      else (set.allowing (rules.filter (·.list = .allow)) subject).elim .none (.decided .allow)

end PermissionRuleSet

end Bike4Mind.Permissions
