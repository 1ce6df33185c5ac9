import Bike4Mind.GenerationJobs.Lifecycle

/-!
What an operation writes, field by field, and which calls write at all: the facts every invariant of
the store is checked with.
-/

namespace Bike4Mind.GenerationJobs
open Concurrency

/-- The part of a job that its steps write. Terminal marks, settlement and cancel requests are kept
apart: they have guards of their own. -/
structure Work where
  state : JobState
  payload : Payload
  progress : Option ℚ
  pollCount : Nat
  attempts : Nat
  submitAttemptedAt : Option Time
  leaseUntil : Option Time
  nextPollAt : Option Time
  error : Option JobError
  rawProviderError : Option String

def Job.work (job : Job) : Work where
  state := job.state
  payload := job.payload
  progress := job.progress
  pollCount := job.pollCount
  attempts := job.attempts
  submitAttemptedAt := job.submitAttemptedAt
  leaseUntil := job.leaseUntil
  nextPollAt := job.nextPollAt
  error := job.error
  rawProviderError := job.rawProviderError

namespace World

def work? (w : World) : Option Work := w.job.map Job.work
def state? (w : World) : Option JobState := w.work?.map Work.state
def lease? (w : World) : Option Time := w.work?.bind Work.leaseUntil

variable {w w' : World} {job : Job}

theorem state_of_job (stored : w.job = some job) : w.state? = some job.state := by
  simp [state?, work?, stored, Job.work]

theorem lease_of_job (stored : w.job = some job) : w.lease? = job.leaseUntil := by
  simp [lease?, work?, stored, Job.work]

theorem work_of_job (stored : w.job = some job) : w.work? = some job.work := by
  simp [work?, stored]

theorem state_of_work (same : w'.work? = w.work?) : w'.state? = w.state? := by rw [state?, state?, same]

theorem lease_of_work (same : w'.work? = w.work?) : w'.lease? = w.lease? := by rw [lease?, lease?, same]

/-- The write takes effect: its filter matches and it is not lost on the way. -/
def Lands (w : World) (op : Op) (x : Choice) : Bool :=
  (w.written op).isSome && match x with
    | .rejects _ applied => applied
    | x => (w.value op x).isSome

end World

variable {i : Nat} {w w' : World} {op : Op} {x : Choice} {reply : Except JsError op.Value}

/-- What one operation of one call leaves behind. -/
inductive Effect (i : Nat) (w w' : World) (op : Op) (x : Choice) : Prop
  | missed (job : w'.job = w.job) (log : w'.log = ⟨i, op, x, false⟩ :: w.log)
  | wrote (job' : Job) (written : w.written op = some job') (job : w'.job = some job')
      (log : w'.log = ⟨i, op, x, true⟩ :: w.log) (lands : w.Lands op x = true)

theorem exec_effect (h : World.exec i w op x = some (reply, w')) : Effect i w w' op x ∧ w'.clock = w.clock := by
  obtain ⟨clock, _, effect⟩ := exec_cases h
  refine ⟨?_, clock⟩
  rcases effect with ⟨job, log⟩ | ⟨job', written, job, log⟩
  · exact .missed job log
  · refine .wrote job' written job log ?_
    cases x with
    | rejects error applied =>
      cases applied with
      | true => simp [World.Lands, written]
      | false =>
        cases h
        simp [World.record] at log
    | _ =>
      obtain ⟨v, found, _⟩ := Option.map_eq_some_iff.mp h
      simp [World.Lands, written, found]

theorem exec_resolved (h : World.exec i w op .resolves = some (reply, w')) : ∃ v, reply = .ok v := by
  unfold World.exec at h
  obtain ⟨v, _, same⟩ := Option.map_eq_some_iff.mp h
  exact ⟨v, (Prod.mk.inj same).1.symm⟩

theorem lands_exec (lands : w.Lands op x = true) : ∃ reply w' job', World.exec i w op x = some (reply, w') ∧
    w.written op = some job' ∧ w'.job = some job' := by
  obtain ⟨writes, settles⟩ := Bool.and_eq_true_iff.mp lands
  obtain ⟨job', written⟩ := Option.isSome_iff_exists.mp writes
  have after : ∀ y landed, ((w.apply op).record i op y landed).job = some job' := by
    intro y landed
    simp [World.record, World.apply, written]
  cases x with
  | rejects error applied =>
    subst settles
    exact ⟨_, _, job', rfl, written, after _ _⟩
  | _ =>
    obtain ⟨v, found⟩ := Option.isSome_iff_exists.mp settles
    exact ⟨.ok v, _, job', by simp only [World.exec, found, Option.map_some]; rfl, written, after _ _⟩

theorem World.move_some {e : World.Move} (h : w.move e = some w') :
    w'.job = w.job ∧ w'.log = w.log ∧ w.clock ≤ w'.clock := by
  cases e with
  | tick elapsed =>
    cases h
    exact ⟨rfl, rfl, by simp⟩
  | otherJobCreated other =>
    simp only [World.move] at h
    split at h
    · cases h
      exact ⟨rfl, rfl, le_refl _⟩
    · cases h

theorem exec_named (h : World.exec i w op x = some (reply, w')) : w'.jobId = w.jobId ∧ w'.keyHolder = w.keyHolder := by
  unfold World.exec at h
  split at h
  · cases h
    exact ⟨rfl, rfl⟩
  · cases h
    exact ⟨rfl, rfl⟩
  · obtain ⟨v, _, same⟩ := Option.map_eq_some_iff.mp h
    cases same
    exact ⟨rfl, rfl⟩

theorem exec_unwritten (h : World.exec i w op x = some (reply, w')) (unwritten : w.written op = none) :
    w'.job = w.job := by
  obtain ⟨effect, _⟩ := exec_effect h
  cases effect with
  | missed job log => exact job
  | wrote job' written job log lands =>
    rw [unwritten] at written
    cases written

theorem exec_log (h : World.exec i w op x = some (reply, w')) : ∃ landed, w'.log = ⟨i, op, x, landed⟩ :: w.log := by
  obtain ⟨_, _, ⟨_, log⟩ | ⟨_, _, _, log⟩⟩ := exec_cases h
  · exact ⟨false, log⟩
  · exact ⟨true, log⟩

/-! ### The writes, one by one -/

theorem written_acquire {now token : Time} {job' : Job} (h : w.written (.acquireLease now token) = some job') :
    ∃ job, w.job = some job ∧ job.unleased now = true ∧ (job.state.terminal = false ∨ job.terminalHandledAt = none) ∧
      job' = { job with leaseUntil := some token, updatedAt := w.clock } := by
  obtain ⟨job, stored, passes, rfl⟩ := matched_some h
  obtain ⟨free, leasable⟩ := Bool.and_eq_true_iff.mp passes
  exact ⟨job, stored, free, by simpa using leasable, rfl⟩

theorem written_mark {at' : Time} {markRunning : Bool} {job' : Job}
    (h : w.written (.markSubmitAttempted at' markRunning) = some job') :
    ∃ job, w.job = some job ∧ job.cancelRequested = false ∧
      job' = { job with
        submitAttemptedAt := some at'
        state := if markRunning then .running else job.state
        updatedAt := w.clock } := by
  obtain ⟨job, stored, passes, rfl⟩ := matched_some h
  exact ⟨job, stored, by simpa [Repository.markSubmitAttempted] using passes, rfl⟩

theorem written_commit {update : Commit} {guard : CommitGuard} {job' : Job}
    (h : w.written (.commit update guard) = some job') :
    ∃ job, w.job = some job ∧ guard.filter job = true ∧
      job' = { update.apply job with leaseUntil := none, updatedAt := w.clock } := by
  obtain ⟨job, stored, passes, rfl⟩ := matched_some h
  exact ⟨job, stored, passes, rfl⟩

theorem written_requestCancel {beforeSubmitOnly : Bool} {job' : Job}
    (h : w.written (.requestCancel beforeSubmitOnly) = some job') :
    ∃ job, w.job = some job ∧ (Repository.requestCancel beforeSubmitOnly).filter job = true ∧
      job' = { job with cancelRequested := true, updatedAt := w.clock } := by
  obtain ⟨job, stored, passes, rfl⟩ := matched_some h
  exact ⟨job, stored, passes, rfl⟩

theorem written_claim {at' : Time} {job' : Job} (h : w.written (.claimTerminalHandling at') = some job') :
    ∃ job, w.job = some job ∧ job.state.terminal = true ∧ job.terminalHandlingClaimedAt = none ∧
      job' = { job with terminalHandlingClaimedAt := some at', updatedAt := w.clock } := by
  obtain ⟨job, stored, passes, rfl⟩ := matched_some h
  obtain ⟨terminal, unclaimed⟩ := Bool.and_eq_true_iff.mp passes
  exact ⟨job, stored, terminal, by simpa using unclaimed, rfl⟩

theorem written_handled {at' : Time} {job' : Job} (h : w.written (.markTerminalHandled at') = some job') :
    ∃ job, w.job = some job ∧ job' = { job with terminalHandledAt := some at', updatedAt := w.clock } := by
  obtain ⟨job, stored, _, rfl⟩ := matched_some h
  exact ⟨job, stored, rfl⟩

theorem written_recordSettlement {credits : ℚ} {job' : Job}
    (h : w.written (.settlement (.recordSettlement credits)) = some job') :
    ∃ job, w.job = some job ∧ job' = { job with settledCredits := some credits, updatedAt := w.clock } := by
  obtain ⟨job, stored, _, rfl⟩ := matched_some h
  exact ⟨job, stored, rfl⟩

/-- The repository's writes that answer with the document they wrote. -/
inductive Documents : (op : Op) → (Option Job → op.Value) → Prop
  | acquireLease {now token} : Documents (.acquireLease now token) id
  | markSubmitAttempted {at' markRunning} : Documents (.markSubmitAttempted at' markRunning) id
  | commit {update guard} : Documents (.commit update guard) id
  | requestCancel {beforeSubmitOnly} : Documents (.requestCancel beforeSubmitOnly) id

theorem exec_document {document : Option Job → op.Value} {job' : Option Job} (documents : Documents op document)
    (h : World.exec i w op x = some (.ok (document job'), w')) :
    w.written op = job' ∧ w'.log = ⟨i, op, x, job'.isSome⟩ :: w.log ∧ w'.job = job'.or w.job := by
  obtain ⟨found, rfl⟩ := exec_ok h
  have answered : w.written op = job' := by
    cases documents <;> cases x <;> first | exact Option.some.inj found | cases found
  simp [World.record, World.apply, answered]

/-- The operations that write the work of a job. -/
def Op.works : Op → Bool
  | .createJob _ | .acquireLease .. | .markSubmitAttempted .. | .commit .. => true
  | _ => false

def Op.creates : Op → Bool
  | .createJob _ => true
  | _ => false

def Op.cancels : Op → Bool
  | .requestCancel _ => true
  | _ => false

def Op.claims : Op → Bool
  | .claimTerminalHandling _ => true
  | _ => false

def Op.submits : Op → Bool
  | .submit _ => true
  | _ => false

def Op.marksHandled : Op → Bool
  | .markTerminalHandled _ => true
  | _ => false

/-- What an operation leaves of a job when it writes it. -/
structure Framed (op : Op) (job job' : Job) : Prop where
  id : job'.id = job.id
  kind : job'.kind = job.kind
  key : job'.idempotencyKey = job.idempotencyKey
  hold : job'.creditHold = job.creditHold
  work : op.works = false → job'.work = job.work
  cancelRequested : op.cancels = false → job'.cancelRequested = job.cancelRequested
  claimedAt : op.claims = false → job'.terminalHandlingClaimedAt = job.terminalHandlingClaimedAt
  handledAt : op.marksHandled = false → job'.terminalHandledAt = job.terminalHandledAt

theorem written_framed {job' : Job} (h : w.written op = some job') (updates : op.creates = false) :
    ∃ job, w.job = some job ∧ Framed op job job' := by
  cases op with
  | createJob input => cases updates
  | acquireLease now token =>
    obtain ⟨job, stored, _, _, rfl⟩ := written_acquire h
    exact ⟨job, stored, rfl, rfl, rfl, rfl, by simp [Op.works], fun _ => rfl, fun _ => rfl, fun _ => rfl⟩
  | markSubmitAttempted at' markRunning =>
    obtain ⟨job, stored, _, rfl⟩ := written_mark h
    exact ⟨job, stored, rfl, rfl, rfl, rfl, by simp [Op.works], fun _ => rfl, fun _ => rfl, fun _ => rfl⟩
  | commit update guard =>
    obtain ⟨job, stored, _, rfl⟩ := written_commit h
    exact ⟨job, stored, rfl, rfl, rfl, rfl, by simp [Op.works], fun _ => rfl, fun _ => rfl, fun _ => rfl⟩
  | requestCancel beforeSubmitOnly =>
    obtain ⟨job, stored, _, rfl⟩ := written_requestCancel h
    exact ⟨job, stored, rfl, rfl, rfl, rfl, fun _ => rfl, by simp [Op.cancels], fun _ => rfl, fun _ => rfl⟩
  | claimTerminalHandling at' =>
    obtain ⟨job, stored, _, _, rfl⟩ := written_claim h
    exact ⟨job, stored, rfl, rfl, rfl, rfl, fun _ => rfl, fun _ => rfl, by simp [Op.claims], fun _ => rfl⟩
  | markTerminalHandled at' =>
    obtain ⟨job, stored, rfl⟩ := written_handled h
    exact ⟨job, stored, rfl, rfl, rfl, rfl, fun _ => rfl, fun _ => rfl, fun _ => rfl, by simp [Op.marksHandled]⟩
  | settlement op =>
    cases op with
    | recordSettlement credits =>
      obtain ⟨job, stored, rfl⟩ := written_recordSettlement h
      exact ⟨job, stored, rfl, rfl, rfl, rfl, fun _ => rfl, fun _ => rfl, fun _ => rfl, fun _ => rfl⟩
    | _ => cases h
  | _ => cases h

theorem written_create {input job' : Job} (h : w.written (.createJob input) = some job') : w.job = none := by
  by_contra present
  obtain ⟨stored, present⟩ := Option.ne_none_iff_exists'.mp present
  simp [World.written, World.inserted, present] at h

theorem exec_work (h : World.exec i w op x = some (reply, w')) (idle : op.works = false) : w'.work? = w.work? := by
  obtain ⟨effect, _⟩ := exec_effect h
  cases effect with
  | missed job log => rw [World.work?, World.work?, job]
  | wrote job' written job log lands =>
    obtain ⟨before, stored, framed⟩ := written_framed written (by cases op <;> first | rfl | cases idle)
    rw [World.work_of_job job, World.work_of_job stored, framed.work idle]

/-! ### Phases along a step -/

section Phases
variable {ψ : Type} {E : Engine} {P : SettlementProtocol ψ} {p : Phase ψ}

def Op.settling : Op → Bool
  | .settlement _ => true
  | _ => false

theorem lives_op {q : Phase ψ} (lives : Lives E P p op reply q) (own : op.settling = false) :
    Permits E p op ∧ q = p.after P op reply := by
  cases lives with
  | op permitted => exact ⟨permitted, rfl⟩
  | settlement => cases own

def Op.acquires : Op → Bool
  | .acquireLease .. => true
  | _ => false

/-- A call gets its token from `acquireLease` alone, and keeps it until it gives it up. -/
theorem after_token (permitted : Permits E p op) (grants : op.acquires = false) :
    (p.after P op reply).token? = none ∨ (p.after P op reply).token? = p.token? := by
  cases permitted with
  | inert h => exact Or.inr (by rw [after_inert h])
  | now => cases p <;> cases reply <;> exact Or.inr rfl
  | acquireLease => cases grants
  | failBeforeStart h => cases reply with
    | error e => exact Or.inl rfl
    | ok v => cases v with
      | none => exact Or.inl rfl
      | some job => rw [after_committed]; split <;> exact Or.inl rfl
  | requestCancel found => rcases reply with e | (_ | job) <;> exact Or.inl rfl
  | release | giveUp | refuse | answer | close =>
    rcases reply with e | (_ | job)
    · exact Or.inl rfl
    · exact Or.inl rfl
    · rw [after_committed]; split <;> exact Or.inl rfl
  | markSubmitAttempted => rcases reply with e | (_ | job) <;> first | exact Or.inl rfl | exact Or.inr rfl
  | submit | submitOutcome | poll | store => cases reply <;> exact Or.inr rfl
  | claimLeased | claimTerminated => rcases reply with e | (_ | _) <;> first | exact Or.inl rfl | exact Or.inr rfl
  | onTerminal | onTerminalReturned => cases reply <;> first | exact Or.inl rfl | exact Or.inr rfl
  | @markTerminalHandled lease => cases reply <;> cases lease <;> first | exact Or.inl rfl | exact Or.inr rfl

theorem after_working (permitted : Permits E p op) (grants : op.acquires = false) :
    (p.after P op reply).working? = none ∨ (p.after P op reply).working? = p.working? := by
  cases permitted with
  | inert h => exact Or.inr (by rw [after_inert h])
  | now => cases p <;> cases reply <;> exact Or.inr rfl
  | acquireLease => cases grants
  | requestCancel found => rcases reply with e | (_ | job) <;> exact Or.inl rfl
  | failBeforeStart | release | giveUp | refuse | answer | close =>
    rcases reply with e | (_ | job)
    · exact Or.inl rfl
    · exact Or.inl rfl
    · rw [after_committed]; split <;> exact Or.inl rfl
  | markSubmitAttempted found pending unsubmitted wanted =>
    rcases reply with e | (_ | job)
    · exact Or.inl rfl
    all_goals exact Or.inr (by unfold Phase.after; simp [Phase.working?, pending, JobState.terminal])
  | poll state | store state =>
    cases reply <;> exact Or.inr (by unfold Phase.after; simp [Phase.working?, state, JobState.terminal])
  | submit | submitOutcome => cases reply <;> exact Or.inr rfl
  | claimLeased terminal => rcases reply with e | (_ | _) <;> exact Or.inl rfl
  | claimTerminated => rcases reply with e | (_ | _) <;> exact Or.inl rfl
  | onTerminal | onTerminalReturned => cases reply <;> exact Or.inl rfl
  | @markTerminalHandled lease => cases reply <;> cases lease <;> exact Or.inl rfl

end Phases
end Bike4Mind.GenerationJobs
