import Bike4Mind.Collections.Tally

/-! The slots for concurrent calls to the Anthropic API, and the line of those who wait for one. -/

namespace Bike4Mind.Semaphore
open Collections

def MAX_CONCURRENT_ANTHROPIC_CALLS : Int := 15

def MAX_QUEUED_PER_TENANT : Nat := 100

def DEFAULT_ACQUIRE_TIMEOUT_MS : Nat := 5 * 60 * 1000

/-- Waiters without a tenant key share one bucket. -/
def ANON_TENANT : String := ""

/-- An `AbortSignal`, by its identity. -/
abbrev Signal := Nat

/-- `signal.reason` -/
inductive AbortReason where
  | error (message : String)
  | other
  deriving DecidableEq

inductive AcquireError where
  -- `SemaphoreBusyError`, whose status is 429
  | semaphoreBusy (message : String)
  | abortReason (message : String)
  | abortError (message : String)
  deriving DecidableEq

structure AcquireSlotOptions where
  tenantKey : Option String := none
  signal : Option Signal := none
  timeoutMs : Option Nat := none

/-- An acquire in line; `call` stands for its promise, which `resolve` and `settle` close over. -/
structure Waiter where
  key : String
  call : Nat
  deriving DecidableEq

/-- What became of the promise of an acquire; `released` is the flag of the handle it was resolved with. -/
inductive SlotPromise where
  | pending
  | fulfilled (released : Bool)
  | rejected (error : AcquireError)
  deriving DecidableEq

structure Acquire where
  key : String
  promise : SlotPromise
  deriving DecidableEq

/-- The caller has a slot that it has not given back. -/
def Acquire.holds (acquire : Acquire) : Bool := acquire.promise = .fulfilled false

inductive SlotEvent where
  | queued (call : Nat) (key : String)
  | granted (call : Nat) (key : String)
  | rejected (call : Nat)
  | released (call : Nat)
  deriving DecidableEq

/-- The module's variables, the timers and listeners it has armed, and every acquire so far, with what happened, newest first. -/
structure Slots where
  totalActive : Int := 0
  activeByTenant : OrderedMap String Int := ∅
  waiters : List Waiter := []
  timers : List (Nat × Nat) := []
  listeners : List (Signal × Nat) := []
  aborted : List (Signal × AbortReason) := []
  acquires : List Acquire := []
  history : List SlotEvent := []

namespace Slots

def getTenantActiveCount (s : Slots) (key : String) : Int := s.activeByTenant.count key

def incActive (s : Slots) (key : String) : Slots :=
  { s with activeByTenant := s.activeByTenant.set key ((s.activeByTenant.get? key).getD 0 + 1), totalActive := s.totalActive + 1 }

def decActive (s : Slots) (key : String) : Slots :=
  let remaining := (s.activeByTenant.get? key).getD 0 - 1
  { s with
    activeByTenant := if remaining ≤ 0 then s.activeByTenant.erase key else s.activeByTenant.set key remaining
    totalActive := s.totalActive - 1 }

/-- The loop of `pickFairWaiterIndex` from index `i` on. -/
def pickFrom (active : String → Int) : (i : Nat) → (best : Option (Nat × Int)) → List Waiter → Option (Nat × Int)
  | _, best, [] => best
  | i, best, waiter :: rest =>
    if best.all fun b => active waiter.key < b.2 then pickFrom active (i + 1) (some (i, active waiter.key)) rest
    else pickFrom active (i + 1) best rest

def pickFairWaiterIndex (s : Slots) : Option Nat := (pickFrom s.getTenantActiveCount 0 none s.waiters).map Prod.fst

/-- `clearTimeout` and `removeEventListener` -/
def settle (s : Slots) (call : Nat) : Slots :=
  { s with timers := s.timers.filter (·.1 ≠ call), listeners := s.listeners.filter (·.2 ≠ call) }

/-- A promise that is settled stays as it is. -/
def settlePromise (s : Slots) (call : Nat) (promise : SlotPromise) : List Acquire :=
  match s.acquires[call]? with
  | some ⟨key, .pending⟩ => s.acquires.set call ⟨key, promise⟩
  | _ => s.acquires

/-- `resolve(makeRelease(key))` -/
def resolve (s : Slots) (waiter : Waiter) : Slots :=
  { s with acquires := s.settlePromise waiter.call (.fulfilled false), history := .granted waiter.call waiter.key :: s.history }

def reject (s : Slots) (call : Nat) (error : AcquireError) : Slots :=
  { s with acquires := s.settlePromise call (.rejected error), history := .rejected call :: s.history }

def admitNext (s : Slots) : Slots :=
  if MAX_CONCURRENT_ANTHROPIC_CALLS ≤ s.totalActive then s
  else match s.pickFairWaiterIndex with
    | none => s
    | some i => match s.waiters[i]? with
      | none => s
      | some waiter => (({ s with waiters := s.waiters.eraseIdx i }.settle waiter.call).incActive waiter.key).resolve waiter

/-- A call of the handle that `call` was resolved with. -/
def release (s : Slots) (call : Nat) : Slots :=
  match s.acquires[call]? with
  | some ⟨key, .fulfilled false⟩ =>
    ({ s with
      acquires := s.acquires.set call ⟨key, .fulfilled true⟩
      history := .released call :: s.history }.decActive key).admitNext
  | _ => s

def abortError : AbortReason → AcquireError
  | .error message => .abortReason message
  | .other => .abortError "The operation was aborted"

def removeAndReject (s : Slots) (call : Nat) (error : AcquireError) : Slots :=
  ({ s with waiters := s.waiters.eraseP (·.call = call) }.settle call).reject call error

/-- The `abort` event of `signal`: each of its listeners runs once, unless it has been removed by then. -/
def abort (s : Slots) (signal : Signal) (reason : AbortReason) : Slots :=
  if s.aborted.any (·.1 = signal) then s
  else ((s.listeners.filter (·.1 = signal)).map Prod.snd).foldl
    (fun s call => if (signal, call) ∈ s.listeners then s.removeAndReject call (abortError reason) else s)
    { s with aborted := (signal, reason) :: s.aborted }

/-- The timer of `call` fires, if it is still armed. -/
def timeout (s : Slots) (call : Nat) : Slots :=
  match s.timers.find? (·.1 = call) with
  | some (_, timeoutMs) => s.removeAndReject call (.semaphoreBusy s!"Timed out after {timeoutMs}ms waiting for an Anthropic slot")
  | none => s

def queuedForTenant (s : Slots) (key : String) : Nat := s.waiters.countP (·.key = key)

/-- An acquire that is rejected at once. -/
def refuse (s : Slots) (key : String) (error : AcquireError) : Slots :=
  { s with acquires := s.acquires ++ [⟨key, .rejected error⟩], history := .rejected s.acquires.length :: s.history }

def queueFull (waiting : Nat) : AcquireError :=
  .semaphoreBusy s!"Anthropic request queue is full for this tenant ({waiting} already waiting); try again shortly"

def acquireSlot (s : Slots) (opts : AcquireSlotOptions) : Slots :=
  let key := opts.tenantKey.getD ANON_TENANT
  match opts.signal.bind fun signal => s.aborted.find? (·.1 = signal) with
  | some (_, reason) => s.refuse key (abortError reason)
  | none =>
    if s.totalActive < MAX_CONCURRENT_ANTHROPIC_CALLS ∧ s.waiters = [] then
      { s.incActive key with
        acquires := s.acquires ++ [⟨key, .fulfilled false⟩]
        history := .granted s.acquires.length key :: s.history }
    else if MAX_QUEUED_PER_TENANT ≤ s.queuedForTenant key then
      s.refuse key (queueFull (s.queuedForTenant key))
    else
      { s with
        timers := s.timers ++ [(s.acquires.length, opts.timeoutMs.getD DEFAULT_ACQUIRE_TIMEOUT_MS)]
        waiters := s.waiters ++ [⟨key, s.acquires.length⟩]
        listeners := s.listeners ++ (opts.signal.map fun signal => (signal, s.acquires.length)).toList
        acquires := s.acquires ++ [⟨key, .pending⟩]
        history := .queued s.acquires.length key :: s.history }

end Slots

inductive SlotAction where
  | acquireSlot (opts : AcquireSlotOptions)
  | release (call : Nat)
  | abort (signal : Signal) (reason : AbortReason)
  | timeout (call : Nat)

def Slots.step (s : Slots) : SlotAction → Slots
  | .acquireSlot opts => s.acquireSlot opts
  | .release call => s.release call
  | .abort signal reason => s.abort signal reason
  | .timeout call => s.timeout call

def Slots.run (actions : List SlotAction) : Slots := actions.foldl Slots.step {}

end Bike4Mind.Semaphore
