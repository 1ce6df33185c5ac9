import Bike4Mind.Approvals.ShellPatterns
import Bike4Mind.Collections.OrderedMap
import Bike4Mind.Collections.OrderedSet

/-! The gate that asks the user before a tool call runs, and what its standing answers cover. -/

namespace Bike4Mind.Approvals

open Collections Texts

inductive ChatApprovalDecision where
  | once
  | always
  | deny
  deriving DecidableEq

structure ChatApprovalAnswer where
  decision : ChatApprovalDecision
  optionId : Option Text := none
  value : Option Text := none
  deriving DecidableEq

inductive ApprovalSettledBy where
  | user
  | covered
  | stopped
  | conversationDeleted
  | appQuit
  | movedOn
  deriving DecidableEq

structure ApprovalSettlement where
  answer : ChatApprovalAnswer
  settledBy : ApprovalSettledBy
  asked : Bool
  deriving DecidableEq

structure ApprovalCommand where
  text : Text
  pattern : Text
  coverable : Bool
  opaqueForm : Option Text := none
  deriving DecidableEq

structure ApprovalAlways where
  toolNamespace : Text
  commands : List ApprovalCommand
  directories : List Text := []
  ungranted : List Text := []
  deriving DecidableEq

structure StandingApproval where
  optionId : Option Text
  value : Option Text
  overTaint : Bool
  deriving DecidableEq

structure StandingShell where
  patterns : List Text := []
  overTaint : List Text := []
  directories : List Text := []
  deriving DecidableEq

structure ApprovalRequestOptions where
  always : Option ApprovalAlways := none
  remember : Bool := true
  rememberable : Option (List Text) := none
  question : Bool := false
  tainted : Bool := false
  recheck : Bool := false
  deriving DecidableEq

def QUESTION_CANCELLED : Text := ascii "cancelled"

/-- A promise of `request`, with what its closure holds. -/
structure Request where
  approvalId : Text
  sessionId : Text
  key : Text
  options : ApprovalRequestOptions
  done : Bool := false
  announced : Bool := false
  deriving DecidableEq

/-- A call of the listener, or of the promise's own `resolve`. -/
inductive RequestCall where
  | requested (sessionId : Text)
  | settled (sessionId : Text)
  | resolved (settlement : ApprovalSettlement)
  deriving DecidableEq

/-- What happened to the standing answers. -/
inductive Standing where
  | kept (sessionId key : Text) (always : ApprovalAlways) (tainted : Bool)
  | revoked (sessionId key : Text)
  | forgotten (sessionId : Text)
  | disposed
  deriving DecidableEq

/-- Requests are known by their place; `calls` and `history` only record. -/
structure ApprovalGate where
  requests : List Request := []
  pending : OrderedMap Text Nat := ∅
  standing : OrderedMap Text (OrderedMap Text StandingApproval) := ∅
  standingShell : OrderedMap Text (OrderedMap Text StandingShell) := ∅
  rechecking : List Nat := []
  calls : List (Nat × RequestCall) := []
  history : List Standing := []

/-- An `optionId` that is neither absent nor empty. -/
def optionChosen (optionId : Option Text) : Option Text := optionId.filter (· ≠ [])

def standingKey (key : Text) (optionId : Option Text) : Text :=
  match optionChosen optionId with
  | some optionId => key ++ ascii "#" ++ optionId
  | none => key

/-- The namespace and the unit between it and a pattern. -/
def namespaced (toolNamespace : Text) : Text := toolNamespace ++ [0]

/-- Whether an answer becomes a standing one. -/
def ApprovalRequestOptions.keeps (options : ApprovalRequestOptions) (answer : ChatApprovalAnswer) : Bool :=
  options.remember && options.always.all (·.ungranted.isEmpty) && decide (answer.decision = .always) &&
    options.rememberable.all fun allowed => (optionChosen answer.optionId).any (· ∈ allowed)

def withCommand (overTaint : Bool) (toolNamespace : Text) (standing : StandingShell) (command : ApprovalCommand) : StandingShell :=
  let entry := namespaced toolNamespace ++ command.pattern
  { standing with
    patterns := insertNew standing.patterns entry
    overTaint := if overTaint && hasBoundedTaintPrefix command.pattern then insertNew standing.overTaint entry else standing.overTaint }

namespace ApprovalGate

def isStanding (g : ApprovalGate) (sessionId key : Text) (optionIds : List Text) : Option StandingApproval :=
  match g.standing.get? sessionId with
  | none => none
  | some keys =>
    if optionIds = [] then keys.get? key
    else optionIds.findSome? fun optionId => keys.get? (standingKey key (some optionId))

/-- Whether a key is `key`, or `key` with an option. -/
def revokes (key stored : Text) : Bool := stored = key || decide (key ++ ascii "#" <+: stored)

def revoke (g : ApprovalGate) (sessionId key : Text) : Bool × ApprovalGate :=
  match g.standing.get? sessionId with
  | none => (false, { g with history := g.history ++ [.revoked sessionId key] })
  | some keys =>
    let removed := keys.keys.filter (revokes key)
    let shells := g.standingShell.get? sessionId
    let any := shells.any (key ∈ ·.keys) || removed ≠ []
    (any, { g with
        standing := g.standing.set sessionId (removed.foldl OrderedMap.erase keys)
        standingShell := shells.elim g.standingShell fun byKey => g.standingShell.set sessionId (byKey.erase key)
        history := g.history ++ [.revoked sessionId key] })

/-- The patterns of a session that a later call may rest on. -/
def own (g : ApprovalGate) (sessionId toolNamespace : Text) (tainted : Bool) : List Text :=
  let entries := ((g.standingShell.get? sessionId).elim [] (·.values)).flatMap fun entry => if tainted then entry.overTaint else entry.patterns
  (entries.filter (namespaced toolNamespace).isPrefixOf).map (·.drop (toolNamespace.length + 1))

def coversCommands (g : ApprovalGate) (sessionId : Text) (always : ApprovalAlways) (tainted : Bool) : Bool :=
  (g.standingShell.get? sessionId).isSome && always.commands ≠ [] &&
    always.commands.all fun command => command.coverable && !(tainted && command.opaqueForm.any (· ≠ [])) &&
      (g.own sessionId always.toolNamespace tainted).any (patternMatches · command.text)

def remember (g : ApprovalGate) (sessionId key : Text) (answer : ChatApprovalAnswer) (overTaint : Bool) : ApprovalGate :=
  let keys := (g.standing.get? sessionId).getD ∅
  let replayed : StandingApproval := ⟨optionChosen answer.optionId, answer.value, overTaint || (keys.get? key).any (·.overTaint)⟩
  { g with standing := g.standing.set sessionId (keys.set key replayed) }

def rememberShell (g : ApprovalGate) (sessionId key : Text) (always : ApprovalAlways) (overTaint : Bool) : ApprovalGate :=
  let byKey := (g.standingShell.get? sessionId).getD ∅
  let standing := always.commands.foldl (withCommand overTaint always.toolNamespace) ((byKey.get? key).getD {})
  { g with
    standingShell := g.standingShell.set sessionId
      (byKey.set key { standing with directories := always.directories.foldl insertNew standing.directories })
    history := g.history ++ [.kept sessionId key always overTaint] }

/-- What a kept answer is remembered as. -/
def keepAnswer (g : ApprovalGate) (r : Request) (answer : ChatApprovalAnswer) : ApprovalGate :=
  let remembered := g.remember r.sessionId (standingKey r.key answer.optionId) answer r.options.tainted
  match r.options.always with
  | some always => remembered.rememberShell r.sessionId r.key always r.options.tainted
  | none => remembered

def call (g : ApprovalGate) (place : Nat) (made : RequestCall) : ApprovalGate := { g with calls := g.calls ++ [(place, made)] }

/-- A request that is open no more. -/
def close (g : ApprovalGate) (place : Nat) (r : Request) : ApprovalGate :=
  { g with requests := g.requests.set place { r with done := true }, pending := g.pending.erase r.approvalId }

def keepIf (g : ApprovalGate) (r : Request) (answer : ChatApprovalAnswer) : ApprovalGate :=
  if r.options.keeps answer then g.keepAnswer r answer else g

def tellSettled (g : ApprovalGate) (place : Nat) (r : Request) : ApprovalGate :=
  if r.announced then g.call place (.settled r.sessionId) else g

/-- What the promise resolves with. -/
def settlement (r : Request) (answer : ChatApprovalAnswer) (settledBy : ApprovalSettledBy) : ApprovalSettlement :=
  ⟨if answer.decision = .always ∧ r.options.keeps answer = false then { answer with decision := .once } else answer, settledBy, r.announced⟩

/-- The `settle` of a request. -/
def settle (g : ApprovalGate) (place : Nat) (answer : ChatApprovalAnswer) (settledBy : ApprovalSettledBy) : ApprovalGate :=
  match g.requests[place]? with
  | none => g
  | some r =>
    if r.done then g
    else (((g.close place r).keepIf r answer).tellSettled place r).call place (.resolved (settlement r answer settledBy))

/-- `approvalId` is what `randomUUID` gave. -/
def request (g : ApprovalGate) (approvalId sessionId key : Text) (aborted : Bool) (options : ApprovalRequestOptions) : ApprovalGate :=
  let place := g.requests.length
  let asked : Request := { approvalId, sessionId, key, options }
  let filed := { g with pending := g.pending.set approvalId place }
  if aborted then { filed with requests := g.requests ++ [asked] }.settle place { decision := .deny } .stopped
  else { filed with requests := g.requests ++ [{ asked with announced := true }] }.call place (.requested sessionId)

def resolve (g : ApprovalGate) (approvalId : Text) (answer : ChatApprovalAnswer) : ApprovalGate :=
  match g.pending.get? approvalId with
  | some place => g.settle place answer .user
  | none => g

/-- The signal of a request fires. -/
def abort (g : ApprovalGate) (place : Nat) : ApprovalGate := g.settle place { decision := .deny } .stopped

/-- `settleCovered` up to its first await. -/
def settleCovered (g : ApprovalGate) (sessionId : Option Text) : ApprovalGate :=
  let candidates := g.pending.values.filter fun place => g.requests[place]?.any fun r =>
    r.options.recheck && sessionId.all (r.sessionId = ·)
  { g with rechecking := g.rechecking ++ candidates }

/-- A recheck that `settleCovered` awaits comes back. -/
def rechecked (g : ApprovalGate) (place : Nat) (answer : Option ChatApprovalAnswer) : ApprovalGate :=
  if place ∈ g.rechecking then
    let waited := { g with rechecking := g.rechecking.erase place }
    answer.elim waited (waited.settle place · .covered)
  else g

/-- Each of these requests settled in turn. -/
def settleAll (g : ApprovalGate) (places : List Nat) (answer : ChatApprovalAnswer) (settledBy : ApprovalSettledBy) : ApprovalGate :=
  places.foldl (fun g place => g.settle place answer settledBy) g

def inSession (g : ApprovalGate) (sessionId : Text) (place : Nat) : Bool := g.requests[place]?.any (·.sessionId = sessionId)

def cancelQuestions (g : ApprovalGate) (sessionId : Text) : ApprovalGate :=
  g.settleAll (g.pending.values.filter fun place => g.inSession sessionId place && g.requests[place]?.any (·.options.question))
    { decision := .deny, optionId := some QUESTION_CANCELLED } .movedOn

/-- Everything that a session has standing dropped. -/
def forgetStanding (g : ApprovalGate) (sessionId : Text) : ApprovalGate :=
  { g with
    standing := g.standing.erase sessionId
    standingShell := g.standingShell.erase sessionId
    history := g.history ++ [.forgotten sessionId] }

def forgetSession (g : ApprovalGate) (sessionId : Text) : ApprovalGate :=
  (g.forgetStanding sessionId).settleAll (g.pending.values.filter (g.inSession sessionId)) { decision := .deny } .conversationDeleted

def dispose (g : ApprovalGate) : ApprovalGate :=
  let settled := g.settleAll g.pending.values { decision := .deny } .appQuit
  { settled with pending := ∅, standing := ∅, standingShell := ∅, history := settled.history ++ [.disposed] }

end ApprovalGate

/-! ### Runs -/

inductive GateStep where
  | request (approvalId sessionId key : Text) (aborted : Bool) (options : ApprovalRequestOptions)
  | resolve (approvalId : Text) (answer : ChatApprovalAnswer)
  | abort (place : Nat)
  | settleCovered (sessionId : Option Text)
  | rechecked (place : Nat) (answer : Option ChatApprovalAnswer)
  | cancelQuestions (sessionId : Text)
  | revoke (sessionId key : Text)
  | forgetSession (sessionId : Text)
  | dispose

namespace GateStep

def apply (g : ApprovalGate) : GateStep → ApprovalGate
  | request approvalId sessionId key aborted options => g.request approvalId sessionId key aborted options
  | resolve approvalId answer => g.resolve approvalId answer
  | abort place => g.abort place
  | settleCovered sessionId => g.settleCovered sessionId
  | rechecked place answer => g.rechecked place answer
  | cancelQuestions sessionId => g.cancelQuestions sessionId
  | revoke sessionId key => (g.revoke sessionId key).2
  | forgetSession sessionId => g.forgetSession sessionId
  | dispose => g.dispose

/-- The id that a step draws. -/
def drawn : GateStep → Option Text
  | request approvalId .. => some approvalId
  | _ => none

def asked : GateStep → Option ApprovalRequestOptions
  | request _ _ _ _ options => some options
  | _ => none

end GateStep

def runGate (steps : List GateStep) : ApprovalGate := steps.foldl GateStep.apply {}

end Bike4Mind.Approvals
