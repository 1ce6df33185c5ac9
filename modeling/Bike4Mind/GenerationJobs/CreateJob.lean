import Bike4Mind.GenerationJobs.TerminalHandling

/-!
Creating a job that already owns its credit hold. A `createJob` error is ambiguous, and the hold
follows the job: it is given back only when no stored job carries it, or by the terminal handling of
a job that no worker has started.
-/

namespace Bike4Mind.GenerationJobs
open Concurrency Credits

inductive Created where
  | job (job : Job) (created : Bool)
  | idempotencyKeyReused

inductive CreateRecovery where
  | landed (job : Job)
  | replay (result : Created)
  | failed

def isDuplicateKeyError : JsError → Bool
  | .duplicateKey _ => true
  | _ => false

def replayOrReject (existing : Job) (kind : JobKind) (request : String) : Created :=
  if existing.kind = kind ∧ existing.payload.request = request then .job existing false else .idempotencyKeyReused

def expectKind (job : Job) (kind : JobKind) : Async Job :=
  if job.kind = kind then pure job else throw (.error "expected a generation job of another kind")

/-- Its own error never masks the one of the path that is already failing. -/
def runCleanup {α : Type} (cleanup : Async α) : Async (Option α) :=
  tryCatch (do return some (← cleanup)) fun _ => return none

def creditAwaits : CreditHoldAdapters Async :=
  .ofCalls fun op => call (.settlement (.credit op))

def releaseHold (job : Job) : Async Unit := do
  if let some hold := job.creditHold then
    let _ ← runCleanup (releaseCreditHold hold creditAwaits)

/-- An empty key is falsy. -/
def Job.key? (job : Job) : Option String := job.idempotencyKey.filter (· ≠ "")

def findKeyHolder (key : String) : Async (Option Job) :=
  tryCatch (call (.findByIdempotencyKey key)) fun _ => return none

/-- `none` when the lookup failed. -/
def findLanded : Async (Option (Option Job)) :=
  tryCatch (do return some (← call .findById)) fun _ => return none

def resolveById (job : Job) : Async CreateRecovery := do
  match ← findLanded with
  -- Unknown: the hold is kept, since refunding a job that exists would mint credits.
  | none => return .failed
  | some (some landed) => return .landed (← expectKind landed job.kind)
  | some none =>
    releaseHold job
    return .failed

def recoverFailedCreate (error : JsError) (job : Job) : Async CreateRecovery :=
  match job.key? with
  | none => resolveById job
  | some key =>
    if isDuplicateKeyError error then do
      let some winner ← findKeyHolder key
        | resolveById job
      if winner.id = job.id then
        return .landed (← expectKind winner job.kind)
      else
        releaseHold job
        return .replay (replayOrReject winner job.kind job.payload.request)
    else resolveById job

def ENQUEUE_FAILED : JobError := ⟨.enqueueFailed, "The job could not be queued"⟩

/-- No message will reach the job, so it is failed here, unless a worker already started it. -/
def enqueueCreated (E : Engine) (job : Job) : Async Created := do
  tryCatch (call (.enqueue 0)) fun error => do
    let outcome ← runCleanup (E.failBeforeStart ENQUEUE_FAILED)
    match outcome with
    | some .skipped => return
    | _ => throw error
  return .job job true

/-- Its first half: the persisted job, or the job of another request that is replayed instead. `job` is the
document to persist, under the id the caller generated. -/
def persistJob (job : Job) : Async (Created ⊕ Job) :=
  tryCatch (do
      let created ← call (.createJob job)
      return .inr (← expectKind created job.kind)) fun error => do
    match ← recoverFailedCreate error job with
    | .replay result => return .inl result
    | .failed => throw error
    | .landed landed => return .inr landed

def persistAndEnqueueJob (E : Engine) (job : Job) : Async Created := do
  match ← persistJob job with
  | .inl replayed => return replayed
  | .inr persisted => enqueueCreated E persisted

abbrev CreationConfig := Config Nat World Op Op.Value JsError (Created ⊕ Outcome)

/-- One call creates the job, and any number of others work on it once it is there. -/
def Engine.create (E : Engine) (input : Job) (creator : Nat) (calls : Nat → Call) (other : Option Job) (clock : Time) :
    CreationConfig where
  store := { jobId := input.id, job := none, keyHolder := other, clock := clock }
  threads i :=
    if i = creator then do return .inl (← persistAndEnqueueJob E input)
    else do return .inr (← E.program (calls i))

/-! ### The life of a creation -/

/-- Where a call stands: one that works on the job, or the one that creates it. -/
inductive CreatePhase (ψ : Type) where
  | worker (p : Phase ψ)
  | unsaved
  | rejected
  | unknown
  | absent
  | refunded
  | saved
  | failing (p : Phase ψ)

def refund (hold : CreditHold) : Op :=
  .settlement (.credit (.incrementCredits hold.ownerType hold.ownerId hold.reservedCredits))

variable {ψ : Type} {E : Engine} {P : SettlementProtocol ψ} {input : Job} {hold : CreditHold}

inductive Creates (E : Engine) (P : SettlementProtocol ψ) (input : Job) (hold : CreditHold) :
    Protocol (CreatePhase ψ) Op Op.Value JsError
  | worker {p op reply q} (lives : Lives E P p op reply q) : Creates E P input hold (.worker p) op reply (.worker q)
  | created {job : Job} : Creates E P input hold .unsaved (.createJob input) (.ok job) .saved
  | mismatched {job : Job} : Creates E P input hold .unsaved (.createJob input) (.ok job) .rejected
  | ambiguous {e} : Creates E P input hold .unsaved (.createJob input) (.error e) .rejected
  | keyOurs {key} {winner : Job} (ours : winner.id = input.id) :
      Creates E P input hold .rejected (.findByIdempotencyKey key) (.ok (some winner)) .saved
  | keyTaken {key} {winner : Job} (carried : input.idempotencyKey = some key) (other : winner.id ≠ input.id) :
      Creates E P input hold .rejected (.findByIdempotencyKey key) (.ok (some winner)) .absent
  | keyFree {key} : Creates E P input hold .rejected (.findByIdempotencyKey key) (.ok none) .rejected
  | keyFailed {key e} : Creates E P input hold .rejected (.findByIdempotencyKey key) (.error e) .rejected
  | landed {job : Job} : Creates E P input hold .rejected .findById (.ok (some job)) .saved
  | absent : Creates E P input hold .rejected .findById (.ok none) .absent
  | unknown {e} : Creates E P input hold .rejected .findById (.error e) .unknown
  | refunded {reply} : Creates E P input hold .absent (refund hold) reply .refunded
  | enqueued : Creates E P input hold .saved (.enqueue 0) (.ok ()) .saved
  | unqueued {e} : Creates E P input hold .saved (.enqueue 0) (.error e)
      (.failing (.idle (.failBeforeStart ENQUEUE_FAILED)))
  | failing {p op reply q} (lives : Lives E P p op reply q) : Creates E P input hold (.failing p) op reply (.failing q)

/-- The creating call has nothing left to decide about the hold. -/
def CreatePhase.ended : CreatePhase ψ → Bool
  | .refunded | .saved | .unknown | .failing _ => true
  | _ => false

section Programs

theorem expectKind_follows {job : Job} {kind : JobKind} {p : CreatePhase ψ} {post : Except JsError Job → CreatePhase ψ → Prop}
    (expected : post (.ok job) p) (other : post (.error (.error "expected a generation job of another kind")) p) :
    Follows (Creates E P input hold) post (expectKind job kind) p := by
  unfold expectKind
  split
  · exact expected
  · exact other

theorem releaseHold_follows (held : input.creditHold = some hold) (positive : 0 < hold.reservedCredits) :
    Follows (Creates E P input hold) (fun r q => r = .ok () ∧ q = .refunded) (releaseHold input) .absent := by
  unfold releaseHold
  rw [held]
  dsimp only
  unfold releaseCreditHold
  rw [if_neg (not_le.mpr positive)]
  intro reply
  refine ⟨.refunded, .refunded, ?_⟩
  cases reply <;> exact ⟨rfl, rfl⟩

variable {β : Type} {post : Except JsError β → CreatePhase ψ → Prop}

theorem findLanded_then {f : Option (Option Job) → Async β}
    (landed : ∀ job, Follows (Creates E P input hold) post (f (some (some job))) .saved)
    (absent : Follows (Creates E P input hold) post (f (some none)) .absent)
    (unknown : Follows (Creates E P input hold) post (f none) .unknown) :
    Follows (Creates E P input hold) post (findLanded.bind f) .rejected := by
  intro reply
  rcases reply with e | (_ | job)
  · exact ⟨_, .unknown, unknown⟩
  · exact ⟨_, .absent, absent⟩
  · exact ⟨_, .landed, landed job⟩

theorem findKeyHolder_then {key : String} {f : Option Job → Async β} (carried : input.idempotencyKey = some key)
    (ours : ∀ winner : Job, winner.id = input.id → Follows (Creates E P input hold) post (f (some winner)) .saved)
    (taken : ∀ winner : Job, winner.id ≠ input.id → Follows (Creates E P input hold) post (f (some winner)) .absent)
    (free : Follows (Creates E P input hold) post (f none) .rejected) :
    Follows (Creates E P input hold) post ((findKeyHolder key).bind f) .rejected := by
  intro reply
  rcases reply with e | (_ | winner)
  · exact ⟨_, .keyFailed, free⟩
  · exact ⟨_, .keyFree, free⟩
  · by_cases same : winner.id = input.id
    · exact ⟨_, .keyOurs same, ours winner same⟩
    · exact ⟨_, .keyTaken carried same, taken winner same⟩

/-- The phases a recovery ends in. -/
def Recovered : Except JsError CreateRecovery → CreatePhase ψ → Prop
  | .ok (.landed _), q => q = .saved
  | _, q => q.ended = true

theorem resolveById_follows (held : input.creditHold = some hold) (positive : 0 < hold.reservedCredits) :
    Follows (Creates E P input hold) Recovered (resolveById input) .rejected := by
  refine findLanded_then (fun job => ?_) ?_ rfl
  · exact follows_bind (expectKind_follows rfl rfl)
  · refine follows_bind (follows_mono (releaseHold_follows held positive) ?_)
    rintro r q ⟨rfl, rfl⟩
    exact (rfl : (CreatePhase.refunded : CreatePhase ψ).ended = true)

theorem recoverFailedCreate_follows {error : JsError} (held : input.creditHold = some hold)
    (positive : 0 < hold.reservedCredits) :
    Follows (Creates E P input hold) Recovered (recoverFailedCreate error input) .rejected := by
  unfold recoverFailedCreate
  split
  · exact resolveById_follows held positive
  · rename_i key carried
    have carried : input.idempotencyKey = some key := (Option.filter_eq_some_iff.mp carried).1
    split
    · refine findKeyHolder_then carried (fun winner ours => ?_) (fun winner taken => ?_) (resolveById_follows held positive)
      · dsimp only
        rw [if_pos ours]
        exact follows_bind (expectKind_follows rfl rfl)
      · dsimp only
        rw [if_neg taken]
        refine follows_bind (follows_mono (releaseHold_follows held positive) ?_)
        rintro r q ⟨rfl, rfl⟩
        exact (rfl : (CreatePhase.refunded : CreatePhase ψ).ended = true)
    · exact resolveById_follows held positive

/-- `failBeforeStart` of the creating call is lived as any other. -/
theorem failing_follows {program : Async β} {p : Phase ψ} {any : Except JsError β → Phase ψ → Prop}
    (h : Follows (Lives E P) any program p) :
    Follows (Creates E P input hold) (fun _ q => ∃ p, q = .failing p) program (.failing p) :=
  follows_mono (follows_map CreatePhase.failing (fun _ _ _ _ lives => .failing lives) h) fun _ _ ⟨p, same, _⟩ => ⟨p, same⟩

theorem cleanup_follows (keeps : ∀ kind handler, E.handlers kind = some handler → handler.Keeps P) :
    Follows (Creates E P input hold) (fun _ q => ∃ p, q = .failing p) (runCleanup (E.failBeforeStart ENQUEUE_FAILED))
      (.failing (.idle (.failBeforeStart ENQUEUE_FAILED))) := by
  refine follows_tryCatch (follows_bind (follows_mono (failing_follows (failBeforeStart_follows keeps)) ?_))
  rintro (e | outcome) q failing <;> exact failing

theorem enqueueCreated_follows {job : Job} (keeps : ∀ kind handler, E.handlers kind = some handler → handler.Keeps P) :
    Follows (Creates E P input hold) (fun _ q => q.ended = true) (enqueueCreated E job) .saved := by
  unfold enqueueCreated
  intro reply
  cases reply with
  | ok v => exact ⟨_, .enqueued, rfl⟩
  | error e =>
    refine ⟨_, .unqueued, follows_bind (follows_bind (follows_mono (cleanup_follows keeps) ?_))⟩
    rintro (e | (_ | (_ | _))) q ⟨p, rfl⟩ <;> exact (rfl : (CreatePhase.failing p).ended = true)

/-- The phases in which the document is persisted, or the hold is settled. -/
def Persisted : Except JsError (Created ⊕ Job) → CreatePhase ψ → Prop
  | .ok (.inr _), q => q = .saved
  | _, q => q.ended = true

theorem persistJob_follows (held : input.creditHold = some hold) (positive : 0 < hold.reservedCredits) :
    Follows (Creates E P input hold) Persisted (persistJob input) .unsaved := by
  have recovered : ∀ e, Follows (Creates E P input hold) Persisted (do match ← recoverFailedCreate e input with
      | .replay result => return .inl result
      | .failed => throw e
      | .landed landed => return .inr landed) .rejected := by
    intro e
    refine follows_bind (follows_mono (recoverFailedCreate_follows held positive) ?_)
    rintro (e | (landed | result | _)) q recovered <;> exact recovered
  refine follows_tryCatch (follows_then (fun job => ?_) (fun e => ⟨_, .ambiguous, recovered e⟩))
  by_cases same : job.kind = input.kind
  · refine ⟨_, .created, ?_⟩
    unfold expectKind
    rw [if_pos same]
    rfl
  · refine ⟨_, .mismatched, ?_⟩
    unfold expectKind
    rw [if_neg same]
    exact recovered _

theorem persistAndEnqueueJob_follows (held : input.creditHold = some hold) (positive : 0 < hold.reservedCredits)
    (keeps : ∀ kind handler, E.handlers kind = some handler → handler.Keeps P) :
    Follows (Creates E P input hold) (fun _ q => q.ended = true) (persistAndEnqueueJob E input) .unsaved := by
  refine follows_bind (follows_mono (persistJob_follows held positive) ?_)
  rintro (e | (replayed | persisted)) q reached
  · exact reached
  · exact reached
  · obtain rfl : q = .saved := reached
    exact enqueueCreated_follows keeps

end Programs
end Bike4Mind.GenerationJobs
