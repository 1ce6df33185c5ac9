import Bike4Mind.GenerationJobs.Engine

/-!
One stored job, any number of calls working on it, and a clock that only moves forward. The log is
history: every operation performed, who performed it, and whether its write took effect.
-/

namespace Bike4Mind.GenerationJobs
open Concurrency Credits

/-- How the outside world settles one await. A rejected write may have been applied all the same. -/
inductive Choice where
  | resolves
  | answers (result : StepResult)
  | denies (denial : Option String)
  | found (present : Bool)
  | loads (organization : Option Organization)
  | holds (balance : Option ℚ)
  | rejects (error : JsError) (applied : Bool)

def Choice.rejected : Choice → Bool
  | .rejects .. => true
  | _ => false

structure Entry where
  worker : Nat
  op : Op
  choice : Choice
  landed : Bool

structure World where
  /-- The id that every call works on, and the document under it. -/
  jobId : String
  job : Option Job
  /-- Another stored job of the same owner, for the unique index on the idempotency key. -/
  keyHolder : Option Job := none
  clock : Time
  /-- Newest first. -/
  log : List Entry := []

/-- The operations that write the job, as the repository defines them. -/
def Op.write? : Op → Option Write
  | .acquireLease read leaseUntil => some (Repository.acquireLease read leaseUntil)
  | .markSubmitAttempted at' markRunning => some (Repository.markSubmitAttempted at' markRunning)
  | .commit update guard => some (Repository.commit update guard)
  | .requestCancel beforeSubmitOnly => some (Repository.requestCancel beforeSubmitOnly)
  | .claimTerminalHandling at' => some (Repository.claimTerminalHandling at')
  | .markTerminalHandled at' => some (Repository.markTerminalHandled at')
  | .settlement (.recordSettlement credits) => some (Repository.recordSettlement credits)
  | _ => none

namespace World

def holderOfKey (w : World) (key : String) : Option Job :=
  w.keyHolder.filter (·.idempotencyKey == some key)

/-- `createJob` inserts the document unless its id or its idempotency key is taken. -/
def inserted (w : World) (input : Job) : Option Job :=
  if input.id == w.jobId && w.job.isNone && (input.idempotencyKey.bind w.holderOfKey).isNone then
    some { input with updatedAt := w.clock }
  else none

/-- The document the operation writes, if it writes one. -/
def written (w : World) : Op → Option Job
  | .createJob input => w.inserted input
  | op => op.write?.bind fun write => write.matched w.clock w.job

def apply (w : World) (op : Op) : World := { w with job := (w.written op).or w.job }

def record (w : World) (i : Nat) (op : Op) (x : Choice) (landed : Bool) : World :=
  { w with log := ⟨i, op, x, landed⟩ :: w.log }

/-- What the operation resolves to. -/
def value (w : World) : (op : Op) → Choice → Option op.Value
  | .now, .resolves => some w.clock
  | .findById, .resolves => some w.job
  | .findByIdempotencyKey key, .resolves =>
    some ((w.job.filter (·.idempotencyKey == some key)).or (w.holderOfKey key))
  | .createJob input, .resolves => w.inserted input
  | .acquireLease now leaseUntil, .resolves => some (w.written (.acquireLease now leaseUntil))
  | .markSubmitAttempted at' markRunning, .resolves => some (w.written (.markSubmitAttempted at' markRunning))
  | .commit update guard, .resolves => some (w.written (.commit update guard))
  | .requestCancel beforeSubmitOnly, .resolves => some (w.written (.requestCancel beforeSubmitOnly))
  | .claimTerminalHandling at', .resolves => some (w.written (.claimTerminalHandling at')).isSome
  | .aiAccessDenial _, .denies denial => some denial
  | .submitOutcome, .answers result | .poll _, .answers result | .store _, .answers result => some result
  | .settlement (.credit (.findUser _)), .found present => some present
  | .settlement (.credit (.findOrganization _)), .loads organization => some organization
  | .settlement (.credit (.incrementCredits ..)), .holds balance => some balance
  | .settlement (.credit (.deductCredits ..)), .resolves | .settlement (.credit .assertBillable), .resolves
  | .settlement (.credit (.assertNewAccountSpendWithinCap ..)), .resolves
  | .settlement (.credit (.onInsufficientCredits ..)), .resolves | .settlement .releaseJobHold, .resolves
  | .settlement (.settleJobHold _), .resolves | .settlement (.recordSettlement _), .resolves
  | .settlement (.recordUsage ..), .resolves | .markTerminalHandled _, .resolves | .enqueue _, .resolves
  | .notify _, .resolves | .submit _, .resolves | .cancelAtProvider _, .resolves | .onTerminal _, .resolves
  | .onTerminalReturned, .resolves => some ()
  | _, _ => none

def exec (i : Nat) (w : World) (op : Op) : Choice → Option (Except JsError op.Value × World)
  | .rejects error false => some (.error error, w.record i op (.rejects error false) false)
  | .rejects error true =>
    some (.error error, (w.apply op).record i op (.rejects error true) (w.written op).isSome)
  | x => (w.value op x).map fun v => (.ok v, (w.apply op).record i op x (w.written op).isSome)

def holding (job : Job) (clock : Time) : World where
  jobId := job.id
  job := some job
  clock := clock

inductive Move where
  | tick (elapsed : Nat)
  | otherJobCreated (job : Job)

def move (w : World) : Move → Option World
  | .tick elapsed => some { w with clock := w.clock + elapsed }
  | .otherJobCreated other =>
    if w.keyHolder.isNone && other.id != w.jobId &&
        w.job.all (fun own => own.idempotencyKey.isNone || own.idempotencyKey != other.idempotencyKey) then
      some { w with keyHolder := some other }
    else none

end World

def semantics : Semantics Nat World Op Op.Value JsError Choice World.Move where
  exec := World.exec
  env := World.move

inductive Outcome where
  | step (outcome : StepOutcome)
  | fail (outcome : FailOutcome)
  | cancel (outcome : CancelRequestOutcome)

inductive Call where
  | step (remainingMs : Option Int)
  | failBeforeStart (error : JobError)
  | requestCancel (kind : JobKind)

def Engine.program (E : Engine) : Call → Async Outcome
  | .step remainingMs => do return .step (← E.step remainingMs)
  | .failBeforeStart error => do return .fail (← E.failBeforeStart error)
  | .requestCancel kind => do return .cancel (← E.requestCancel kind)

abbrev JobConfig := Config Nat World Op Op.Value JsError Outcome
abbrev JobAction := Action Nat Choice World.Move

/-- Every call about to start on the stored job. -/
def Engine.start (E : Engine) (job : Job) (clock : Time) (calls : Nat → Call) : JobConfig where
  store := .holding job clock
  threads i := E.program (calls i)

/-! ### What one operation does -/

/-- The whole effect of an operation: a write that took effect, or nothing but a log entry. -/
theorem exec_cases {i : Nat} {w w' : World} {op : Op} {x : Choice} {reply : Except JsError op.Value}
    (h : World.exec i w op x = some (reply, w')) :
    w'.clock = w.clock ∧ w'.keyHolder = w.keyHolder ∧
      ((w'.job = w.job ∧ w'.log = ⟨i, op, x, false⟩ :: w.log) ∨
        ∃ job', w.written op = some job' ∧ w'.job = some job' ∧ w'.log = ⟨i, op, x, true⟩ :: w.log) := by
  have applied : ∀ y, w' = (w.apply op).record i op y (w.written op).isSome → y = x →
      w'.clock = w.clock ∧ w'.keyHolder = w.keyHolder ∧
      ((w'.job = w.job ∧ w'.log = ⟨i, op, x, false⟩ :: w.log) ∨
        ∃ job', w.written op = some job' ∧ w'.job = some job' ∧ w'.log = ⟨i, op, x, true⟩ :: w.log) := by
    rintro y rfl rfl
    refine ⟨rfl, rfl, ?_⟩
    cases written : w.written op with
    | none => exact Or.inl ⟨by simp [World.record, World.apply, written], rfl⟩
    | some job' => exact Or.inr ⟨job', rfl, by simp [World.record, World.apply, written], rfl⟩
  unfold World.exec at h
  split at h
  · cases h
    exact ⟨rfl, rfl, Or.inl ⟨rfl, rfl⟩⟩
  · cases h
    exact applied _ rfl rfl
  · obtain ⟨v, _, same⟩ := Option.map_eq_some_iff.mp h
    cases same
    exact applied _ rfl rfl

theorem exec_ok {i : Nat} {w w' : World} {op : Op} {x : Choice} {v : op.Value}
    (h : World.exec i w op x = some (.ok v, w')) :
    w.value op x = some v ∧ w' = (w.apply op).record i op x (w.written op).isSome := by
  unfold World.exec at h
  split at h
  · cases h
  · cases h
  · obtain ⟨v', found, same⟩ := Option.map_eq_some_iff.mp h
    cases same
    exact ⟨found, rfl⟩

end Bike4Mind.GenerationJobs
