import Bike4Mind.GenerationJobs.System

/-!
The life of one call on a job, phase by phase, and the proof that the engine's programs live it.
Everything later says about interleavings rests on `Permits`: what a call in each phase may write.
-/

namespace Bike4Mind.GenerationJobs
open Concurrency Credits

/-- Where a call stands. `ψ` is what a protocol of the handler's terminal handling remembers. -/
inductive Phase (ψ : Type) where
  | idle (call : Call)
  | timed (call : Call) (now : Time)
  | skipped
  | leased (token now : Time) (job : Job)
  | refused (token : Time) (job : Job)
  | attempted (token : Time) (job : Job)
  | submitted (token : Time) (job : Job)
  | answered (token : Time) (job : Job) (result : StepResult)
  | terminated (job : Job)
  | claimed (lease : Option Time) (job : Job)
  | handling (lease : Option Time) (job : Job) (settled : ψ)
  | returned (lease : Option Time)
  | closing (token : Time)
  | cancelSet
  | done
  | thrown

/-- What the handler's terminal handling may await, from the job it is given. -/
structure SettlementProtocol (ψ : Type) where
  start : Job → ψ
  next : Protocol ψ SettlementOp SettlementOp.Value JsError

/-- Terminal handling about which nothing is asked. -/
def anySettlement : SettlementProtocol Unit where
  start _ := ()
  next _ _ _ _ := True

def Handler.Keeps {ψ : Type} (handler : Handler) (P : SettlementProtocol ψ) : Prop :=
  ∀ job, Follows P.next (fun _ _ => True) (handler.onTerminal job) (P.start job)

theorem keeps_any (handler : Handler) : handler.Keeps anySettlement := by
  intro job
  have all : ∀ program : Settlement Unit, Follows anySettlement.next (fun _ _ => True) program () := by
    intro program
    induction program with
    | pure a => trivial
    | throw e => trivial
    | await op next ih => exact fun reply => ⟨(), trivial, ih reply⟩
  exact all _

/-! ### The commits of a step -/

structure Terminates (s : JobState) (update : Commit) : Prop where
  state : update.state = some s
  terminal : s.terminal = true
  poll : update.nextPollAt = some none
  submit : update.submitAttemptedAt = none

structure Advances (update : Commit) : Prop where
  state : ∀ s, update.state = some s → s.terminal = false
  poll : ∃ t, update.nextPollAt = some (some t)

/-- A commit that takes a submit attempt back. -/
structure Clears (update : Commit) : Prop where
  state : update.state = some .pending
  submit : update.submitAttemptedAt = some none

/-- The commits that `apply` makes of a handler's result. -/
inductive Applies (job : Job) (result : StepResult) (update : Commit) : Prop where
  | terminates (s : JobState) (h : Terminates s update)
  | advances (h : Advances update) (kept : update.submitAttemptedAt = none)
  | retries (h : Advances update) (clears : Clears update) (pending : job.state = .pending)
      (reason : String) (retry : result = .retry reason)

/-- A cancel accepted before the call's lease was granted, and before any submit. -/
def Job.cancelPending (job : Job) : Bool :=
  job.cancelRequested && job.state == .pending && job.submitAttemptedAt.isNone

variable {ψ : Type}

namespace Phase

/-- The lease a call holds or still believes it holds. -/
def token? : Phase ψ → Option Time
  | .leased token .. | .refused token _ | .attempted token _ | .submitted token _ | .answered token ..
  | .closing token => some token
  | .claimed lease _ | .handling lease .. | .returned lease => lease
  | .idle _ | .timed .. | .skipped | .terminated _ | .cancelSet | .done | .thrown => none

/-- The job a call leased and may still commit a new state for. -/
def working? : Phase ψ → Option (Time × Job)
  | .leased token _ job => if job.state.terminal then none else some (token, job)
  | .refused token job | .attempted token job | .submitted token job | .answered token job _ => some (token, job)
  | _ => none

end Phase

/-- Operations that neither write the job nor move a call to another phase. -/
def Op.inert : Op → Bool
  | .findById | .findByIdempotencyKey _ | .enqueue _ | .notify _ | .aiAccessDenial _ | .cancelAtProvider _ => true
  | _ => false

/-- Which operation a call may perform in which phase. -/
inductive Permits (E : Engine) : Phase ψ → Op → Prop
  | inert {p op} (h : op.inert = true) : Permits E p op
  | now {p} : Permits E p .now
  | acquireLease {remainingMs now} : Permits E (.timed (.step remainingMs) now) (.acquireLease now (now + E.leaseMs))
  | failBeforeStart {error now update} (terminates : Terminates .failed update) :
      Permits E (.timed (.failBeforeStart error) now) (.commit update (.unstarted now))
  | requestCancel {kind handler} (found : E.handlers kind = some handler) :
      Permits E (.idle (.requestCancel kind)) (.requestCancel (handler.submitMode == .sync))
  | release {token now job} (idle : E.handlers job.kind = none ∨ (job.state.terminal = false ∧ job.cancelPending = false)) :
      Permits E (.leased token now job) (.commit {} (.lease token))
  | giveUp {token now job s update} (live : job.state.terminal = false) (terminates : Terminates s update)
      (failed : s = .failed ∨ s = .cancelled) (cancelled : job.cancelPending = true → s = .cancelled) :
      Permits E (.leased token now job) (.commit update (.lease token))
  | refuse {token job update} (terminates : Terminates .cancelled update) :
      Permits E (.refused token job) (.commit update (.lease token))
  | markSubmitAttempted {token now job handler at'} (found : E.handlers job.kind = some handler)
      (pending : job.state = .pending) (unsubmitted : job.submitAttemptedAt = none)
      (wanted : job.cancelRequested = false) :
      Permits E (.leased token now job) (.markSubmitAttempted at' (handler.submitMode == .sync))
  | submit {token job} : Permits E (.attempted token job) (.submit job)
  | submitOutcome {token job} : Permits E (.submitted token job) .submitOutcome
  | poll {token now job} (running : job.state = .running) : Permits E (.leased token now job) (.poll job)
  | store {token now job} (storing : job.state = .storing) : Permits E (.leased token now job) (.store job)
  | answer {token job result update} (applies : Applies job result update) :
      Permits E (.answered token job result) (.commit update (.lease token))
  | claimLeased {token now job at'} (terminal : job.state.terminal = true) :
      Permits E (.leased token now job) (.claimTerminalHandling at')
  | claimTerminated {job at'} : Permits E (.terminated job) (.claimTerminalHandling at')
  | onTerminal {lease job} : Permits E (.claimed lease job) (.onTerminal job)
  | onTerminalReturned {lease job settled} : Permits E (.handling lease job settled) .onTerminalReturned
  | markTerminalHandled {lease at'} : Permits E (.returned lease) (.markTerminalHandled at')
  | close {token} : Permits E (.closing token) (.commit {} (.lease token))

def closingPhase : Option Time → Phase ψ
  | some token => .closing token
  | none => .done

/-- The phase a reply leads to. A call whose await rejects ends, except where the source catches. -/
def Phase.after (P : SettlementProtocol ψ) : Phase ψ → (op : Op) → Except JsError op.Value → Phase ψ
  | .idle call, .now, .ok now => .timed call now
  | .idle _, .requestCancel _, .ok (some _) => .cancelSet
  | _, .requestCancel _, .error _ => .thrown
  | .timed _ now, .acquireLease _ token, .ok (some job) => .leased token now job
  | _, .acquireLease .., .ok _ => .skipped
  | _, .acquireLease .., .error _ => .thrown
  | .leased token _ job, .markSubmitAttempted .., .ok (some _) => .attempted token job
  | .leased token _ job, .markSubmitAttempted .., .ok none => .refused token job
  | _, .markSubmitAttempted .., .error _ => .thrown
  | .attempted token job, .submit _, .ok _ => .submitted token job
  | .attempted token job, .submit _, .error _ =>
    .answered token job (orphaned "The provider submit ended with an unknown outcome")
  | .submitted token job, .submitOutcome, .ok result => .answered token job result
  | .submitted token job, .submitOutcome, .error _ =>
    .answered token job (orphaned "The provider submit ended with an unknown outcome")
  | .leased token _ job, .poll _, .ok result | .leased token _ job, .store _, .ok result => .answered token job result
  | .leased token _ job, .poll _, .error e | .leased token _ job, .store _, .error e =>
    .answered token job (.retry e.message)
  | _, .commit update _, .ok (some job) => if update.nextPollAt = some none then .terminated job else .done
  | _, .commit .., .ok none => .done
  | _, .commit .., .error _ => .thrown
  | .leased token _ job, .claimTerminalHandling _, .ok true => .claimed (some token) job
  | .leased token _ _, .claimTerminalHandling _, .ok false => .closing token
  | .terminated job, .claimTerminalHandling _, .ok true => .claimed none job
  | _, .claimTerminalHandling _, .ok _ => .done
  | _, .claimTerminalHandling _, .error _ => .thrown
  | .claimed lease job, .onTerminal _, .ok _ => .handling lease job (P.start job)
  | _, .onTerminal _, _ => .thrown
  | .handling lease _ _, .onTerminalReturned, .ok _ => .returned lease
  | _, .onTerminalReturned, _ => .thrown
  | .returned lease, .markTerminalHandled _, .ok _ => closingPhase lease
  | _, .markTerminalHandled _, _ => .thrown
  | p, _, _ => p

theorem after_committed {P : SettlementProtocol ψ} {p : Phase ψ} {update : Commit} {guard : CommitGuard} {job : Job} :
    p.after P (.commit update guard) (.ok (some job)) = if update.nextPollAt = some none then .terminated job else .done := by
  cases p <;> rfl

/-- The protocol of a call on a job. -/
inductive Lives (E : Engine) (P : SettlementProtocol ψ) : Protocol (Phase ψ) Op Op.Value JsError
  | op {p op reply} (permitted : Permits E p op) : Lives E P p op reply (p.after P op reply)
  | settlement {lease job settled settled'} {op : SettlementOp} {reply : Except JsError op.Value}
      (h : P.next settled op reply settled') :
      Lives E P (.handling lease job settled) (.settlement op) reply (.handling lease job settled')

def Finished : Except JsError StepOutcome → Phase ψ → Prop
  | .ok _, p => p = .skipped ∨ p = .done
  | .error _, _ => True

/-- What a finished call has been through. -/
def Ended : Except JsError Outcome → Phase ψ → Prop
  | .ok (.step outcome), p => Finished (.ok outcome) p
  | .ok (.cancel (.requested _)), p => p = .cancelSet
  | .ok (.cancel _), p => ∃ call, p = .idle call
  | _, _ => True

/-! ### The programs follow the protocol -/

section Programs
variable {E : Engine} {P : SettlementProtocol ψ} {p : Phase ψ} {β : Type} {post : Except JsError β → Phase ψ → Prop}

theorem after_inert {op : Op} (inert : op.inert = true) (reply : Except JsError op.Value) : p.after P op reply = p := by
  cases op <;> simp only [Op.inert, Bool.false_eq_true] at inert <;> cases p <;> rfl

theorem inert_then {op : Op} {f : op.Value → Async β} (inert : op.inert = true)
    (resolved : ∀ v, Follows (Lives E P) post (f v) p) (rejected : ∀ e, post (.error e) p) :
    Follows (Lives E P) post ((call op).bind f) p := by
  have stays : ∀ reply, Lives E P p op reply p := fun reply => by
    simpa only [after_inert inert] using @Lives.op ψ E P p op reply (.inert inert)
  exact follows_then (fun v => ⟨p, stays _, resolved v⟩) (fun e => ⟨p, stays _, rejected e⟩)

theorem after_now (busy : ∀ call, p ≠ .idle call) (reply : Except JsError Time) : p.after P .now reply = p := by
  cases p <;> first | rfl | exact (busy _ rfl).elim

theorem now_then {f : Time → Async β} (busy : ∀ call, p ≠ .idle call) (resolved : ∀ now, Follows (Lives E P) post (f now) p)
    (rejected : ∀ e, post (.error e) p) : Follows (Lives E P) post ((call .now).bind f) p := by
  have stays : ∀ reply, Lives E P p .now reply p := fun reply => by
    simpa only [after_now busy] using @Lives.op ψ E P p .now reply .now
  exact follows_then (fun now => ⟨p, stays _, resolved now⟩) (fun e => ⟨p, stays _, rejected e⟩)

theorem safeNotify_then {job : Job} {f : Unit → Async β} (h : Follows (Lives E P) post (f ()) p) :
    Follows (Lives E P) post ((safeNotify job).bind f) p := by
  intro reply
  refine ⟨_, .op (.inert rfl), ?_⟩
  rw [after_inert rfl]
  cases reply <;> exact h

theorem cancelIfRunning_then {job : Job} {f : Unit → Async β} (h : Follows (Lives E P) post (f ()) p) :
    Follows (Lives E P) post ((cancelIfRunning job).bind f) p := by
  unfold cancelIfRunning
  split
  · intro reply
    refine ⟨_, .op (.inert rfl), ?_⟩
    rw [after_inert rfl]
    cases reply <;> exact h
  · exact h

theorem settlement_follows {lease : Option Time} {job : Job} {settled : ψ} {program : Settlement Unit}
    (h : Follows P.next (fun _ _ => True) program settled) :
    Follows (Lives E P) (fun _ q => ∃ settled', q = .handling lease job settled')
      (program.embed Op.settlement (fun _ => rfl)) (.handling lease job settled) := by
  induction program generalizing settled with
  | pure a => exact ⟨settled, rfl⟩
  | throw e => exact ⟨settled, rfl⟩
  | await op next ih =>
    intro reply
    obtain ⟨settled', permitted, continued⟩ := h reply
    exact ⟨_, .settlement permitted, ih reply continued⟩

theorem runOnTerminal_then {handler : Handler} {job : Job} {lease : Option Time} {f : Unit → Async β}
    (keeps : handler.Keeps P) (h : Follows (Lives E P) post (f ()) (.returned lease))
    (rejected : ∀ e q, post (.error e) q) :
    Follows (Lives E P) post ((runOnTerminal handler job).bind f) (.claimed lease job) := by
  apply follows_bind
  refine follows_then (fun _ => ⟨_, .op .onTerminal, ?_⟩) (fun e => ⟨_, .op .onTerminal, rejected e _⟩)
  apply follows_bind
  refine follows_mono (settlement_follows (keeps job)) ?_
  rintro (e | _) q ⟨settled, rfl⟩
  · exact rejected e _
  · exact follows_perform fun
      | .ok _ => ⟨_, .op .onTerminalReturned, h⟩
      | .error e => ⟨_, .op .onTerminalReturned, rejected e _⟩

theorem finishTerminal_follows {handler : Handler} {job : Job} {lease : Option Time} (keeps : handler.Keeps P)
    (permitted : ∀ at', Permits E p (.claimTerminalHandling at'))
    (busy : ∀ call, p ≠ .idle call)
    (won : ∀ at', p.after P (.claimTerminalHandling at') (.ok true) = .claimed lease job)
    (lost : ∀ at', p.after P (.claimTerminalHandling at') (.ok false) = closingPhase lease) :
    Follows (Lives E P) Finished (finishTerminal job handler lease) p := by
  refine now_then busy (fun claimedAt => ?_) (fun _ => trivial)
  refine follows_then (fun claimed => ⟨_, .op (permitted _), ?_⟩) (fun e => ⟨_, .op (permitted _), trivial⟩)
  cases claimed with
  | false =>
    rw [lost]
    cases lease with
    | none => exact Or.inr rfl
    | some token =>
      refine follows_then (fun released => ⟨_, .op .close, ?_⟩) (fun e => ⟨_, .op .close, trivial⟩)
      cases released <;> exact Or.inr rfl
  | true =>
    rw [won]
    refine runOnTerminal_then keeps ?_ (fun _ _ => trivial)
    refine now_then (by simp) (fun handledAt => ?_) (fun _ => trivial)
    refine follows_then (fun _ => ⟨_, .op .markTerminalHandled, ?_⟩) (fun e => ⟨_, .op .markTerminalHandled, trivial⟩)
    cases lease with
    | none => exact safeNotify_then (Or.inr rfl)
    | some token =>
      refine follows_then (fun released => ⟨_, .op .close, ?_⟩) (fun e => ⟨_, .op .close, trivial⟩)
      cases released <;> exact safeNotify_then (Or.inr rfl)

/-- A commit that ends the job, from any phase that permits it. -/
theorem toTerminal_follows {handler : Handler} {token : Time} {update : Commit} {s : JobState} (keeps : handler.Keeps P)
    (state : update.state = some s) (terminal : s.terminal = true) (submit : update.submitAttemptedAt = none)
    (permitted : ∀ u, Terminates s u → Permits E p (.commit u (.lease token))) :
    Follows (Lives E P) Finished (toTerminal handler token update) p := by
  have permitted := permitted { update with nextPollAt := some none } ⟨state, terminal, rfl, submit⟩
  refine follows_then (fun committed => ⟨_, .op permitted, ?_⟩) (fun e => ⟨_, .op permitted, trivial⟩)
  cases committed with
  | none => exact Or.inr (by cases p <;> rfl)
  | some job =>
    have ended : p.after P (.commit { update with nextPollAt := some none } (.lease token)) (.ok (some job)) =
        .terminated job := by cases p <;> rfl
    rw [ended]
    exact finishTerminal_follows keeps (fun _ => .claimTerminated) (by simp) (fun _ => rfl) (fun _ => rfl)

theorem advance_follows {token : Time} {update : Commit} {delaySeconds : Nat} (busy : ∀ call, p ≠ .idle call)
    (state : ∀ s, update.state = some s → s.terminal = false)
    (permitted : ∀ u, Advances u → u.submitAttemptedAt = update.submitAttemptedAt → u.state = update.state →
      Permits E p (.commit u (.lease token))) :
    Follows (Lives E P) Finished (advance token update delaySeconds) p := by
  refine now_then busy (fun now => ?_) (fun _ => trivial)
  have permitted := permitted { update with nextPollAt := some (some (now + delaySeconds * 1000)) }
    ⟨state, _, rfl⟩ rfl rfl
  refine follows_then (fun committed => ⟨_, .op permitted, ?_⟩) (fun e => ⟨_, .op permitted, trivial⟩)
  cases committed with
  | none => exact Or.inr (by cases p <;> rfl)
  | some job =>
    have ended : p.after P (.commit { update with nextPollAt := some (some (now + delaySeconds * 1000)) }
        (.lease token)) (.ok (some job)) = .done := by cases p <;> rfl
    rw [ended]
    exact inert_then rfl (fun _ => safeNotify_then (Or.inr rfl)) (fun _ => trivial)

theorem apply_follows {job : Job} {handler : Handler} {token : Time} {result : StepResult} (keeps : handler.Keeps P)
    (busy : ∀ call, p ≠ .idle call) (permitted : ∀ u, Applies job result u → Permits E p (.commit u (.lease token))) :
    Follows (Lives E P) Finished (apply job handler token result) p := by
  have advances : ∀ u, Advances u → u.submitAttemptedAt = none → Permits E p (.commit u (.lease token)) :=
    fun u h kept => permitted u (.advances h kept)
  have terminates : ∀ s u, Terminates s u → Permits E p (.commit u (.lease token)) :=
    fun s u h => permitted u (.terminates s h)
  unfold apply
  cases result with
  | running payload => exact advance_follows busy (by simp [JobState.terminal]) fun u h kept _ => advances u h kept
  | storing payload => exact advance_follows busy (by simp [JobState.terminal]) fun u h kept _ => advances u h kept
  | pollAgain progress => exact advance_follows busy (by simp) fun u h kept _ => advances u h kept
  | succeeded payload => exact toTerminal_follows keeps rfl rfl rfl (terminates _)
  | blocked error raw payload => exact toTerminal_follows keeps rfl rfl rfl (terminates _)
  | failed error raw => exact cancelIfRunning_then (toTerminal_follows keeps rfl rfl rfl (terminates _))
  | retry reason =>
    dsimp only
    split
    · exact cancelIfRunning_then (toTerminal_follows keeps rfl rfl rfl (terminates _))
    · split
      · rename_i pending
        exact advance_follows busy (by simp [JobState.terminal]) fun u h submit state =>
          permitted u (.retries h ⟨state, submit⟩ pending reason rfl)
      · exact advance_follows busy (by simp) fun u h kept _ => advances u h kept

theorem callSubmit_then {job : Job} {token : Time} {f : StepResult → Async β}
    (h : ∀ result, Follows (Lives E P) post (f result) (.answered token job result)) :
    Follows (Lives E P) post ((callSubmit job).bind f) (.attempted token job) := by
  apply follows_bind
  apply follows_tryCatch
  refine follows_then (fun _ => ⟨_, .op .submit, ?_⟩) (fun e => ⟨_, .op .submit, h _⟩)
  exact follows_perform fun
    | .ok result => ⟨_, .op .submitOutcome, h result⟩
    | .error e => ⟨_, .op .submitOutcome, h _⟩

theorem submit_follows {job : Job} {handler : Handler} {token now : Time} (keeps : handler.Keeps P)
    (found : E.handlers job.kind = some handler) (pending : job.state = .pending)
    (unsubmitted : job.submitAttemptedAt = none) (wanted : job.cancelRequested = false) :
    Follows (Lives E P) Finished (submit job handler token) (.leased token now job) := by
  refine now_then (by simp) (fun attemptedAt => ?_) (fun _ => trivial)
  have permitted : @Permits ψ E (.leased token now job)
      (.markSubmitAttempted attemptedAt (handler.submitMode == .sync)) :=
    .markSubmitAttempted found pending unsubmitted wanted
  refine follows_then (fun attempted => ⟨_, .op permitted, ?_⟩) (fun e => ⟨_, .op permitted, trivial⟩)
  cases attempted with
  | none => exact toTerminal_follows keeps rfl rfl rfl fun _ => .refuse
  | some attempted =>
    have called : Follows (Lives E P) Finished ((callSubmit job).bind (apply job handler token)) (.attempted token job) :=
      callSubmit_then fun result => apply_follows keeps (by simp) fun _ => .answer
    dsimp only
    split
    · exact safeNotify_then called
    · exact called

theorem runStep_then {job : Job} {token now : Time} {f : StepResult → Async β}
    (live : job.state.terminal = false) (started : job.state ≠ .pending)
    (h : ∀ result, Follows (Lives E P) post (f result) (.answered token job result)) :
    Follows (Lives E P) post ((runStep job).bind f) (.leased token now job) := by
  apply follows_bind
  apply follows_tryCatch
  split
  · rename_i running
    exact follows_perform fun
      | .ok result => ⟨_, .op (.poll (beq_iff_eq.mp running)), h result⟩
      | .error e => ⟨_, .op (.poll (beq_iff_eq.mp running)), h _⟩
  · rename_i notRunning
    have storing : job.state = .storing := by
      cases state : job.state <;> simp_all [JobState.terminal]
    exact follows_perform fun
      | .ok result => ⟨_, .op (.store storing), h result⟩
      | .error e => ⟨_, .op (.store storing), h _⟩

theorem cancelPending_state {job : Job} (h : job.cancelPending = true) :
    job.cancelRequested = true ∧ job.state = .pending ∧ job.submitAttemptedAt = none := by
  simpa [Job.cancelPending, and_assoc] using h

theorem not_cancelPending {job : Job} (checked : ¬ (job.cancelRequested && job.state != .storing) = true) :
    job.cancelPending = false := by
  rw [Bool.eq_false_iff]
  intro pending
  obtain ⟨requested, state, _⟩ := cancelPending_state pending
  exact checked (by simp [requested, state])

theorem stepLeased_follows {job : Job} {handler : Handler} {token now : Time} (keeps : handler.Keeps P)
    (found : E.handlers job.kind = some handler) (live : job.state.terminal = false) :
    Follows (Lives E P) Finished (stepLeased job handler token now) (.leased token now job) := by
  unfold stepLeased
  split
  · rename_i orphan
    have submitted : job.submitAttemptedAt.isSome = true := by
      unfold isOrphanedSubmit at orphan
      exact (Bool.and_eq_true_iff.mp orphan).1
    refine cancelIfRunning_then (toTerminal_follows keeps rfl rfl rfl fun u h => .giveUp live h (Or.inl rfl) ?_)
    intro cancelled
    rw [(cancelPending_state cancelled).2.2] at submitted
    cases submitted
  rename_i notOrphan
  split
  · exact cancelIfRunning_then (toTerminal_follows keeps rfl rfl rfl fun u h => .giveUp live h (Or.inr rfl) fun _ => rfl)
  rename_i notCancelled
  have cancelled : job.cancelPending = true → JobState.failed = .cancelled := by
    rw [not_cancelPending notCancelled]
    intro h
    cases h
  split
  · have permitted : @Permits ψ E (.leased token now job) (.commit {} (.lease token)) :=
      .release (Or.inr ⟨live, not_cancelPending notCancelled⟩)
    refine follows_then (fun released => ⟨_, .op permitted, ?_⟩) (fun e => ⟨_, .op permitted, trivial⟩)
    cases released <;> exact Or.inr rfl
  split
  · exact cancelIfRunning_then (toTerminal_follows keeps rfl rfl rfl fun u h => .giveUp live h (Or.inl rfl) cancelled)
  split
  · rename_i pending
    have pending : job.state = .pending := beq_iff_eq.mp pending
    refine inert_then rfl (fun denial => ?_) (fun _ => trivial)
    cases denial with
    | some denial => exact toTerminal_follows keeps rfl rfl rfl fun u h => .giveUp live h (Or.inl rfl) cancelled
    | none =>
      refine submit_follows keeps found pending ?_ ?_
      · simpa [isOrphanedSubmit, pending] using notOrphan
      · simpa [pending] using notCancelled
  · rename_i notPending
    exact runStep_then live (by simpa using notPending) fun result => apply_follows keeps (by simp) fun _ => .answer

theorem step_follows {remainingMs : Option Int} (keeps : ∀ kind handler, E.handlers kind = some handler → handler.Keeps P) :
    Follows (Lives E P) Finished (E.step remainingMs) (.idle (.step remainingMs)) := by
  unfold Engine.step
  split
  · trivial
  refine follows_then (fun now => ⟨_, .op .now, ?_⟩) (fun e => ⟨_, .op .now, trivial⟩)
  refine follows_then (fun job => ⟨_, .op .acquireLease, ?_⟩) (fun e => ⟨_, .op .acquireLease, trivial⟩)
  cases job with
  | none => exact Or.inl rfl
  | some job =>
    dsimp only
    split
    · rename_i handler found
      split
      · rename_i terminal
        exact finishTerminal_follows (keeps _ _ found) (fun _ => .claimLeased terminal) (fun _ => nofun)
          (fun _ => rfl) (fun _ => rfl)
      · rename_i live
        exact stepLeased_follows (keeps _ _ found) found (Bool.eq_false_iff.mpr live)
    · rename_i unknown
      have missing : E.handlers job.kind = none := Option.eq_none_iff_forall_ne_some.mpr unknown
      exact follows_then (fun _ => ⟨_, .op (.release (Or.inl missing)), trivial⟩)
        (fun e => ⟨_, .op (.release (Or.inl missing)), trivial⟩)

theorem failBeforeStart_follows {error : JobError}
    (keeps : ∀ kind handler, E.handlers kind = some handler → handler.Keeps P) :
    Follows (Lives E P) (fun _ _ => True) (E.failBeforeStart error) (.idle (.failBeforeStart error)) := by
  unfold Engine.failBeforeStart
  refine follows_then (fun now => ⟨_, .op .now, ?_⟩) (fun e => ⟨_, .op .now, trivial⟩)
  have permitted : @Permits ψ E (.timed (.failBeforeStart error) now)
      (.commit { state := some .failed, error := some error, nextPollAt := some none } (.unstarted now)) :=
    .failBeforeStart ⟨rfl, rfl, rfl, rfl⟩
  refine follows_then (fun committed => ⟨_, .op permitted, ?_⟩) (fun e => ⟨_, .op permitted, trivial⟩)
  cases committed with
  | none => trivial
  | some job =>
    dsimp only
    split
    · rename_i handler found
      refine follows_bind (follows_mono (finishTerminal_follows (keeps _ _ found) (fun _ => .claimTerminated)
        (fun _ => nofun) (fun _ => rfl) (fun _ => rfl)) ?_)
      rintro (e | _) q _ <;> trivial
    · trivial

/-- A `requested` outcome comes with a landed write; the other two with none. -/
theorem requestCancel_follows {kind : JobKind} :
    Follows (Lives E P) (fun r q => Ended (match r with | .ok o => .ok (.cancel o) | .error e => .error e) q)
      (E.requestCancel kind) (.idle (.requestCancel kind)) := by
  unfold Engine.requestCancel
  split
  swap
  · trivial
  rename_i handler found
  have permitted := @Permits.requestCancel ψ E kind handler found
  refine follows_then (fun requested => ⟨_, .op permitted, ?_⟩) (fun e => ⟨_, .op permitted, trivial⟩)
  cases requested with
  | some requested => exact inert_then rfl (fun _ => rfl) (fun _ => trivial)
  | none =>
    refine inert_then rfl (fun job => ?_) (fun _ => trivial)
    cases job with
    | none => exact ⟨_, rfl⟩
    | some job =>
      dsimp only
      split
      · refine follows_then (fun retried => ⟨_, .op permitted, ?_⟩) (fun e => ⟨_, .op permitted, trivial⟩)
        cases retried with
        | some retried => exact inert_then rfl (fun _ => rfl) (fun _ => trivial)
        | none => exact ⟨_, rfl⟩
      · split <;> exact ⟨_, rfl⟩

theorem program_follows (keeps : ∀ kind handler, E.handlers kind = some handler → handler.Keeps P) (call : Call) :
    Follows (Lives E P) Ended (E.program call) (.idle call) := by
  cases call with
  | step remainingMs =>
    refine follows_bind (follows_mono (step_follows keeps) ?_)
    rintro (e | outcome) q ended
    · trivial
    · exact ended
  | failBeforeStart error =>
    refine follows_bind (follows_mono (failBeforeStart_follows keeps) ?_)
    rintro (e | outcome) q _ <;> trivial
  | requestCancel kind =>
    refine follows_bind (follows_mono requestCancel_follows ?_)
    rintro (e | outcome) q ended
    · trivial
    · exact ended

end Programs
end Bike4Mind.GenerationJobs
