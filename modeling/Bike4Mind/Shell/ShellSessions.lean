import Bike4Mind.Collections.OrderedMap
import Bike4Mind.Runtime
import Bike4Mind.Texts.CodeUnits
import Mathlib.Data.Nat.Digits.Defs

/-! Background shell sessions: their lifecycle and the buffers that polls read from. -/

namespace Bike4Mind.Shell
open Collections Texts

inductive ShellSessionStatus where
  | running
  | exited
  | killed
  | timedOut
  deriving DecidableEq

def isTerminal (status : ShellSessionStatus) : Bool := status ≠ .running

/-- The public snapshot of a session. -/
structure ShellSession where
  id : String
  command : String
  cwd : String
  status : ShellSessionStatus
  exitCode : Option Int
  startTime : Time
  endTime : Option Time := none
  pid : Option Nat
  totalOutputChars : Nat

structure ShellOutputSlice where
  output : Text
  offset : Nat
  truncated : Bool
  status : ShellSessionStatus
  exitCode : Option Int

structure ShellSessionManagerOptions where
  maxOutputChars : Nat := 256 * 1024
  maxSessions : Nat := 50
  maxRunning : Nat := 10
  retentionMs : Int := 30 * 60 * 1000

/-- The snapshot and the retained output; `childEnded` is whether the child has an exit code or a signal code. -/
structure InternalSession where
  snapshot : ShellSession
  buffer : Text
  childEnded : Bool

inductive GroupSignal where
  | SIGINT
  | SIGTERM
  | SIGKILL
  deriving DecidableEq

/-- `id`s refer to sessions by their place in `objects`, where the handlers of a child find theirs even after eviction. -/
structure ShellSessionManager where
  options : ShellSessionManagerOptions
  sessions : OrderedMap String Nat := ∅
  objects : List InternalSession := []
  emitted : List ShellSession := []
  signalled : List (Nat × GroupSignal) := []

/-! ### Ids -/

def digit36 (d : Nat) : Char := "0123456789abcdefghijklmnopqrstuvwxyz".toList.getD d '0'

/-- `n.toString(36)` -/
def base36 (n : Nat) : List Char := if n = 0 then ['0'] else ((Nat.digits 36 n).map digit36).reverse

def intBase36 (n : Int) : List Char := if n < 0 then '-' :: base36 n.natAbs else base36 n.natAbs

def sessionId (sequence : Nat) (now : Time) : String := String.ofList ("sh-".toList ++ base36 sequence ++ '-' :: intBase36 now)

/-! ### Output and status of one session -/

def InternalSession.append (maxOutputChars : Nat) (chunk : Text) (session : InternalSession) : InternalSession :=
  let combined := session.buffer ++ chunk
  { session with
    snapshot := { session.snapshot with totalOutputChars := session.snapshot.totalOutputChars + chunk.length }
    buffer := if maxOutputChars < combined.length then combined.drop (combined.length - maxOutputChars) else combined }

def InternalSession.transition (status : ShellSessionStatus) (exitCode : Option Int) (now : Time) (session : InternalSession) :
    InternalSession :=
  { session with
    snapshot := { session.snapshot with
      status
      exitCode
      endTime := if isTerminal status then some now else session.snapshot.endTime } }

namespace ShellSessionManager

def append (m : ShellSessionManager) (i : Nat) (chunk : Text) : ShellSessionManager :=
  { m with objects := m.objects.modify i (InternalSession.append m.options.maxOutputChars chunk) }

def emit (m : ShellSessionManager) (i : Nat) : ShellSessionManager :=
  { m with emitted := m.emitted ++ (m.objects[i]?.map InternalSession.snapshot).toList }

def transition (m : ShellSessionManager) (i : Nat) (status : ShellSessionStatus) (exitCode : Option Int) (now : Time) : ShellSessionManager :=
  { m with objects := m.objects.modify i (InternalSession.transition status exitCode now) }.emit i

def status? (m : ShellSessionManager) (i : Nat) : Option ShellSessionStatus := m.objects[i]?.map (·.snapshot.status)

def signalGroup (m : ShellSessionManager) (i : Nat) (signal : GroupSignal) : ShellSessionManager :=
  match m.objects[i]?.bind (·.snapshot.pid) with
  | none => m
  | some _ => { m with signalled := m.signalled ++ [(i, signal)] }

def terminate (m : ShellSessionManager) (i : Nat) (status : ShellSessionStatus) (now : Time) : ShellSessionManager :=
  (m.transition i status none now).signalGroup i .SIGTERM

/-- The timer of `terminate`. -/
def escalate (m : ShellSessionManager) (i : Nat) : ShellSessionManager :=
  if m.objects[i]?.any (!·.childEnded) then m.signalGroup i .SIGKILL else m

/-! ### What the child does -/

def onData (m : ShellSessionManager) (i : Nat) (decoded : Text) : ShellSessionManager := m.append i decoded

/-- `exit`, when the child gets its exit or signal code. -/
def onExit (m : ShellSessionManager) (i : Nat) : ShellSessionManager :=
  { m with objects := m.objects.modify i fun session => { session with childEnded := true } }

def onClose (m : ShellSessionManager) (i : Nat) (tail : Text) (exitCode : Option Int) (now : Time) : ShellSessionManager :=
  let m := if tail = [] then m else m.append i tail
  if (m.status? i).any isTerminal then m else m.transition i .exited exitCode now

def shellError (message : Text) : Text := ascii "\n[shell error] " ++ message ++ ascii "\n"

def stdinError (message : Text) : Text := ascii "\n[stdin error] " ++ message ++ ascii "\n"

def onError (m : ShellSessionManager) (i : Nat) (message : Text) (now : Time) : ShellSessionManager :=
  let m := m.append i (shellError message)
  if (m.status? i).any isTerminal then m else m.transition i .killed none now

def onStdinError (m : ShellSessionManager) (i : Nat) (code : String) (message : Text) : ShellSessionManager :=
  if code = "EPIPE" then m else m.append i (stdinError message)

/-! ### What callers do -/

def isTerminalEntry (m : ShellSessionManager) (i : Nat) : Bool := (m.status? i).any isTerminal

def endTimeOf (m : ShellSessionManager) (i : Nat) : Time := ((m.objects[i]?.bind (·.snapshot.endTime))).getD 0

/-- The second half of `evictIfNeeded`: the oldest terminal sessions go until the cap is met. -/
def evictOldest (maxSessions : Nat) : OrderedMap String Nat → List (String × Nat) → OrderedMap String Nat
  | sessions, [] => sessions
  | sessions, (id, _) :: rest =>
    if sessions.entries.length < maxSessions then sessions else evictOldest maxSessions (sessions.erase id) rest

def evictIfNeeded (m : ShellSessionManager) (now : Time) : ShellSessionManager :=
  let cutoff := now - m.options.retentionMs
  let expired := m.sessions.entries.filter fun e => m.isTerminalEntry e.2 && decide (m.endTimeOf e.2 < cutoff)
  let sessions := expired.foldl (fun sessions e => sessions.erase e.1) m.sessions
  if sessions.entries.length < m.options.maxSessions then { m with sessions }
  else
    let terminalOldestFirst := (sessions.entries.filter fun e => m.isTerminalEntry e.2).mergeSort
      fun a b => decide (m.endTimeOf a.2 ≤ m.endTimeOf b.2)
    { m with sessions := evictOldest m.options.maxSessions sessions terminalOldestFirst }

def runningCount (m : ShellSessionManager) : Nat := m.sessions.entries.countP fun e => !m.isTerminalEntry e.2

/-- `evictedAt`, `namedAt` and `startedAt` are the three readings of the clock; `none` is `TooManyShellSessionsError`. -/
def spawn (m : ShellSessionManager) (command cwd : String) (pid : Option Nat) (evictedAt namedAt startedAt : Time) :
    Option ShellSession × ShellSessionManager :=
  let m := m.evictIfNeeded evictedAt
  if m.options.maxRunning ≤ m.runningCount then (none, m)
  else
    let snapshot : ShellSession :=
      { id := sessionId (m.objects.length + 1) namedAt
        command, cwd, pid
        status := .running
        exitCode := none
        startTime := startedAt
        totalOutputChars := 0 }
    let m := { m with sessions := m.sessions.set snapshot.id m.objects.length, objects := m.objects ++ [(⟨snapshot, [], false⟩ : InternalSession)] }
    (some snapshot, m.emit (m.objects.length - 1))

/-- The session under `id`, unless there is none or it is terminal. -/
def running? (m : ShellSessionManager) (id : String) : Option Nat := (m.sessions.get? id).filter fun i => !m.isTerminalEntry i

def INTERRUPT_CHAR : CodeUnit := 0x03

def writeStdin (m : ShellSessionManager) (id : String) (chars : Text) : Bool × ShellSessionManager :=
  match m.running? id with
  | none => (false, m)
  | some i => (true, if INTERRUPT_CHAR ∈ chars then m.signalGroup i .SIGINT else m)

def kill (m : ShellSessionManager) (id : String) (now : Time) : Bool × ShellSessionManager :=
  match m.running? id with
  | none => (false, m)
  | some i => (true, m.terminate i .killed now)

def markTimedOut (m : ShellSessionManager) (id : String) (now : Time) : Bool × ShellSessionManager :=
  match m.running? id with
  | none => (false, m)
  | some i => (true, m.terminate i .timedOut now)

def killAll (m : ShellSessionManager) (now : Time) : ShellSessionManager :=
  m.sessions.values.foldl (fun m i => if m.isTerminalEntry i then m else m.terminate i .killed now) m

def getOutput (m : ShellSessionManager) (id : String) (sinceOffset : Option Nat) : Option ShellOutputSlice :=
  match (m.sessions.get? id).bind fun i => m.objects[i]? with
  | none => none
  | some { snapshot, buffer, .. } =>
    let bufferStart := snapshot.totalOutputChars - buffer.length
    let requested := sinceOffset.getD bufferStart
    let clamped := max requested bufferStart
    some
      { output := buffer.drop (clamped - bufferStart)
        offset := snapshot.totalOutputChars
        truncated := requested < bufferStart
        status := snapshot.status
        exitCode := snapshot.exitCode }

end ShellSessionManager

/-- What callers and children do; a child is named by the place of its session. -/
inductive ShellAction where
  | spawn (command cwd : String) (pid : Option Nat) (evictedAt namedAt startedAt : Time)
  | data (i : Nat) (decoded : Text)
  | exit (i : Nat)
  | close (i : Nat) (tail : Text) (exitCode : Option Int) (now : Time)
  | error (i : Nat) (message : Text) (now : Time)
  | stdinError (i : Nat) (code : String) (message : Text)
  | escalate (i : Nat)
  | writeStdin (id : String) (chars : Text)
  | kill (id : String) (now : Time)
  | markTimedOut (id : String) (now : Time)
  | killAll (now : Time)

def ShellSessionManager.step (m : ShellSessionManager) : ShellAction → ShellSessionManager
  | .spawn command cwd pid evictedAt namedAt startedAt => (m.spawn command cwd pid evictedAt namedAt startedAt).2
  | .data i decoded => m.onData i decoded
  | .exit i => m.onExit i
  | .close i tail exitCode now => m.onClose i tail exitCode now
  | .error i message now => m.onError i message now
  | .stdinError i code message => m.onStdinError i code message
  | .escalate i => m.escalate i
  | .writeStdin id chars => (m.writeStdin id chars).2
  | .kill id now => (m.kill id now).2
  | .markTimedOut id now => (m.markTimedOut id now).2
  | .killAll now => m.killAll now

def ShellSessionManager.run (m : ShellSessionManager) (actions : List ShellAction) : ShellSessionManager :=
  actions.foldl ShellSessionManager.step m

end Bike4Mind.Shell
