import Bike4Mind.Concurrency.Protocol
import Bike4Mind.Runtime
import Mathlib.Data.List.Sort

/-! One channel of the Hearth log in its database, the calls that append to it and the catch-up of one actor. -/

namespace Bike4Mind.Hearth
open Concurrency

inductive HearthEventKind where
  | message | edit | reaction | artifact | presence | delegation | questUpdate | gateRequest | gateResolve | system
  deriving DecidableEq

inductive HumanFormat where
  | md | text
  deriving DecidableEq

structure HearthHumanBody where
  text : String
  format : HumanFormat
  deriving DecidableEq

/-- The payload is kept as written. -/
structure HearthMachineBody where
  schema : String
  payload : String
  deriving DecidableEq

structure HearthEventRefs where
  threadRootId : Option String := none
  replyToId : Option String := none
  questId : Option String := none
  externalId : Option String := none
  deriving DecidableEq

inductive HearthEventOrigin where
  | session | apiKey | gateway
  deriving DecidableEq

structure AppendEventInput where
  actorId : String
  kind : HearthEventKind
  human : HearthHumanBody
  machine : Option HearthMachineBody := none
  refs : HearthEventRefs := {}
  origin : HearthEventOrigin
  deriving DecidableEq

structure HearthEvent extends AppendEventInput where
  id : String
  seq : Nat
  createdAt : Time
  deriving DecidableEq

/-- What happened on the channel that its readers can tell. -/
inductive Event where
  | inserted (e : HearthEvent)
  | expired (e : HearthEvent)
  | returned (batch : List HearthEvent)
  deriving DecidableEq

structure World where
  nextSeq : Option Nat
  events : List HearthEvent
  -- The cursor document of the actor, once there is one.
  cursor : Option Nat
  log : List Event

def World.empty : World where
  nextSeq := some 0
  events := []
  cursor := none
  log := []

inductive Op where
  | findByExternalId (externalId : String)
  | incrementNextSeq
  | create (input : AppendEventInput) (seq : Nat)
  | getCursor
  | eventsSince (sinceSeq : Nat) (limit : Option Nat)
  | setCursor (seq : Nat)

@[reducible] def Op.Value : Op → Type
  | findByExternalId _ => Option HearthEvent
  | incrementNextSeq => Option Nat
  | create _ _ => HearthEvent
  | getCursor => Nat
  | eventsSince _ _ => List HearthEvent
  | setCursor _ => Unit

/-- What the driver draws for a new document. -/
structure Draw where
  id : String := ""
  createdAt : Time := 0
  deriving DecidableEq

def E11000 : JsError := .duplicateKey "E11000 duplicate key error"

namespace World

def record (w : World) (e : Event) : World := { w with log := e :: w.log }

/-- The unique indexes on `(channelId, seq)` and on `(channelId, refs.externalId)` admit the document. -/
def admits (w : World) (input : AppendEventInput) (seq : Nat) : Bool :=
  !w.events.any fun e => e.seq == seq || (e.refs.externalId.isSome && e.refs.externalId == input.refs.externalId)

def insert (w : World) (e : HearthEvent) : World := { w with events := w.events ++ [e], log := .inserted e :: w.log }

def bySeq (e e' : HearthEvent) : Prop := e.seq ≤ e'.seq

instance : DecidableRel bySeq := fun e e' => inferInstanceAs (Decidable (e.seq ≤ e'.seq))

/-- `limit(0)` is no limit. -/
def limited (limit : Option Nat) (events : List HearthEvent) : List HearthEvent :=
  match limit with
  | none | some 0 => events
  | some n => events.take n

def since (w : World) (sinceSeq : Nat) (limit : Option Nat) : List HearthEvent :=
  limited limit ((w.events.filter (sinceSeq < ·.seq)).insertionSort bySeq)

def exec (w : World) (op : Op) (draw : Draw) : Except JsError op.Value × World :=
  match op with
  | .findByExternalId externalId => (.ok (w.events.find? (·.refs.externalId == some externalId)), w)
  | .incrementNextSeq => (.ok (w.nextSeq.map (· + 1)), { w with nextSeq := w.nextSeq.map (· + 1) })
  | .create input seq =>
    if w.admits input seq then
      let e : HearthEvent := { toAppendEventInput := input, id := draw.id, seq := seq, createdAt := draw.createdAt }
      (.ok e, w.insert e)
    else (.error E11000, w)
  | .getCursor => (.ok (w.cursor.getD 0), w)
  | .eventsSince sinceSeq limit => (.ok (w.since sinceSeq limit), w.record (.returned (w.since sinceSeq limit)))
  | .setCursor seq => (.ok (), { w with cursor := some (max (w.cursor.getD 0) seq) })

/-- The reaper removes a presence event. -/
def expire (w : World) (e : HearthEvent) : Option World :=
  if e ∈ w.events ∧ e.kind = .presence then some { w with events := w.events.filter (· ≠ e), log := .expired e :: w.log } else none

end World

/-! ### The calls -/

abbrev Call (α : Type) := Program Op Op.Value JsError α

def findByExternalId (externalId : String) : Call (Option HearthEvent) := .perform (Op.findByExternalId externalId)
def incrementNextSeq : Call (Option Nat) := .perform Op.incrementNextSeq
def create (input : AppendEventInput) (seq : Nat) : Call HearthEvent := .perform (Op.create input seq)
def getCursor : Call Nat := .perform Op.getCursor
def eventsSince (sinceSeq : Nat) (limit : Option Nat) : Call (List HearthEvent) := .perform (Op.eventsSince sinceSeq limit)
def setCursor (seq : Nat) : Call Unit := .perform (Op.setCursor seq)

def channelNotFound : JsError := .error "Hearth channel not found"

/-- The handler of a rejected insert. -/
def raceWinner (input : AppendEventInput) (err : JsError) : Call HearthEvent :=
  match err, input.refs.externalId with
  | .duplicateKey _, some externalId =>
    if externalId = "" then throw err
    else do
      match ← findByExternalId externalId with
      | some winner => return winner
      | none => throw err
  | _, _ => throw err

def allocateAndInsert (input : AppendEventInput) : Call HearthEvent := do
  match ← incrementNextSeq with
  | none => throw channelNotFound
  | some seq => tryCatch (create input seq) (raceWinner input)

def appendEvent (input : AppendEventInput) : Call HearthEvent :=
  match input.refs.externalId with
  | none | some "" => allocateAndInsert input
  | some externalId => do
    match ← findByExternalId externalId with
    | some existing => return existing
    | none => allocateAndInsert input

structure CatchupOptions where
  advance : Bool := true
  limit : Option Nat := none

def catchup (options : CatchupOptions) : Call (List HearthEvent) := do
  let cursor ← getCursor
  let events ← eventsSince cursor options.limit
  match options.advance, events.getLast? with
  | true, some last =>
    setCursor last.seq
    return events
  | _, _ => return events

/-- One catch-up after the other, with the given limits. -/
def catchups : List (Option Nat) → Call (List (List HearthEvent))
  | [] => return []
  | limit :: rest => do
    let events ← catchup { limit }
    let later ← catchups rest
    return events :: later

inductive Outcome where
  | appended (input : AppendEventInput) (e : HearthEvent)
  | caughtUp (batches : List (List HearthEvent))

/-- The writers of the channel and the actor that catches up. -/
inductive Party where
  | writer (i : Nat)
  | reader
  deriving DecidableEq

def thread (inputs : Nat → AppendEventInput) (limits : List (Option Nat)) : Party → Call Outcome
  | .writer i => (appendEvent (inputs i)).bind fun e => .pure (.appended (inputs i) e)
  | .reader => (catchups limits).bind fun batches => .pure (.caughtUp batches)

def semantics : Semantics Party World Op Op.Value JsError Draw HearthEvent where
  exec _ w op draw := some (w.exec op draw)
  env w e := w.expire e

abbrev Configuration := Config Party World Op Op.Value JsError Outcome

def start (inputs : Nat → AppendEventInput) (limits : List (Option Nat)) : Configuration where
  store := .empty
  threads := thread inputs limits

end Bike4Mind.Hearth
