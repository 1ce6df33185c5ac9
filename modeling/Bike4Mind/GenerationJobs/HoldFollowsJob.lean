import Bike4Mind.GenerationJobs.HoldAccounting

/-!
The hold follows the job. Whatever becomes of the insert, of the lookups and of the queue message,
the creating call gives its hold back at most once, and only when no stored job will settle it.
-/

namespace Bike4Mind.GenerationJobs
open Concurrency Credits

/-- Some step would still take the job up, or settle it. -/
def Job.processable (job : Job) : Bool := !job.state.terminal || job.terminalHandlingClaimedAt.isNone

/-- The engine's part of a phase. Until it fails the job, the creating call is idle to the engine. -/
def CreatePhase.engine {ψ : Type} : CreatePhase ψ → Phase ψ
  | .worker p | .failing p => p
  | _ => .idle (.failBeforeStart ENQUEUE_FAILED)

/-- What an engine call is past its claim, it handles a terminal job that nobody else will claim. -/
structure Attended {ψ : Type} (w : World) (ph : Nat → Phase ψ) : Prop extends OpenedTerminal w ph where
  claimed : Once Op.startsTerminal Phase.claimant w ph
  unleased : w.job = none → ∀ i, (ph i).token? = none

section Step
variable {ψ : Type} {E : Engine} {P : SettlementProtocol ψ} {input : Job} {creator i : Nat} {hold : CreditHold}
variable {w w' : World} {op : Op} {x : Choice} {reply : Except JsError op.Value} {ph : Nat → Phase ψ}

/-- An operation of the creation proper. -/
def Op.creating : Op → Bool
  | .createJob _ | .settlement _ => true
  | _ => false

theorem creates_engine {p q : CreatePhase ψ} (step : Creates E P input hold p op reply q) :
    Lives E P p.engine op reply q.engine ∨ (op.creating = true ∧ q.engine = p.engine) := by
  cases step with
  | worker lives | failing lives => exact Or.inl lives
  | created | mismatched | ambiguous => exact Or.inr ⟨rfl, rfl⟩
  | refunded => exact Or.inr ⟨rfl, rfl⟩
  | keyOurs | keyTaken | keyFree | keyFailed | landed | absent | unknown | enqueued | unqueued =>
    exact Or.inl (.op (.inert rfl))

theorem attended_lives {q : Phase ψ} (inv : Attended w ph) (fenced : Fenced i w op x)
    (executed : World.exec i w op x = some (reply, w')) (lives : Lives E P (ph i) op reply q) :
    Attended w' (Function.update ph i q) := by
  refine ⟨openedTerminal_step inv.toOpenedTerminal fenced executed lives,
    once_step starts_onceable inv.claimed executed lives, fun absent k => ?_⟩
  have updates : op.creates = false := by
    cases op with
    | createJob created => exact (create_refused (lives_op lives rfl).1).elim
    | _ => rfl
  have before := inv.unleased ((presence_exec executed updates).mp absent)
  by_cases own : k = i
  · subst own
    rw [Function.update_self]
    cases acquires : op.acquires with
    | true =>
      cases op with
      | acquireLease now token =>
        obtain ⟨permitted, rfl⟩ := lives_op lives rfl
        obtain ⟨_, timed, _⟩ := acquire_timed permitted
        rcases acquire_outcome (P := P) executed timed with ⟨gone, _⟩ | ⟨job, _, _, stored, _⟩
        · exact gone
        · rw [stored] at absent
          cases absent
      | _ => cases acquires
    | false =>
      rcases (lives_frame lives acquires).1 with gone | kept
      · exact gone
      · exact kept.trans (before k)
  · rw [Function.update_of_ne own]
    exact before k

theorem creating_quiet (executed : World.exec i w op x = some (reply, w')) (creating : op.creating = true) :
    (∀ k, held? w'.log k = held? w.log k) ∧ leaseHolder w'.log = leaseHolder w.log ∧
      w'.times Op.startsTerminal = w.times Op.startsTerminal ∧ (w'.work? = w.work? ∨ w.job = none) := by
  obtain ⟨landed, log⟩ := exec_log executed
  have times := times_exec executed Op.startsTerminal
  cases op with
  | createJob input =>
    refine ⟨fun k => by simp [log, held?], by simp [log, leaseHolder], times, ?_⟩
    obtain ⟨effect, _⟩ := exec_effect executed
    cases effect with
    | missed same log => exact Or.inl (by rw [World.work?, World.work?, same])
    | wrote job' written same log lands => exact Or.inr (written_create written)
  | settlement op =>
    refine ⟨fun k => ?_, ?_, times, Or.inl (exec_work executed rfl)⟩ <;> rw [log]
    · exact held_kept rfl
    · exact holder_kept (Or.inr rfl)
  | _ => cases creating

/-- The creation proper disturbs no engine call: before the job is there, none carries a lease. -/
theorem attended_creating (inv : Attended w ph) (executed : World.exec i w op x = some (reply, w'))
    (creating : op.creating = true) : Attended w' ph := by
  obtain ⟨held, holder, times, work⟩ := creating_quiet executed creating
  have once : Once Op.startsTerminal Phase.claimant w' ph :=
    ⟨inv.claimed.alone, fun none => times ▸ inv.claimed.unclaimed (claimed_exec executed none),
      fun k waits => times ▸ inv.claimed.waiting k waits, times ▸ inv.claimed.once⟩
  have carries : Carries w' ph :=
    ⟨fun k early => (held k).trans (inv.leases.fresh k early), fun k token claimed => (held k).trans (inv.leases.held k token claimed)⟩
  rcases work with same | absent
  · refine ⟨⟨⟨carries, ?_, ?_⟩, ?_⟩, once, fun absent => inv.unleased ?_⟩
    · rw [World.lease_of_work same, holder]
      exact inv.leases.holder
    · rw [World.lease_of_work same, World.state_of_work same]
      exact inv.leases.live
    · rw [World.state_of_work same]
      exact inv.terminal
    · simpa [World.work?, absent] using same
  · have unleased := inv.unleased absent
    have closed := (inv.claimed.unclaimed (by rw [World.claimedAt?, absent]; rfl)).2
    refine ⟨⟨⟨carries, fun k token claimed => ?_, fun k token job working => ?_⟩, fun k opened => ?_⟩, once, fun _ => unleased⟩
    · rw [unleased k] at claimed
      cases claimed
    · have claimed := token_of_working working
      rw [unleased k] at claimed
      cases claimed
    · rw [closed k] at opened
      cases opened

theorem attended_step {ph : Nat → CreatePhase ψ} {q : CreatePhase ψ} (inv : Attended w (CreatePhase.engine ∘ ph))
    (fenced : Fenced i w op x) (executed : World.exec i w op x = some (reply, w'))
    (step : Creates E P input hold (ph i) op reply q) : Attended w' (CreatePhase.engine ∘ Function.update ph i q) := by
  rw [Function.comp_update]
  rcases creates_engine step with lives | ⟨creating, same⟩
  · exact attended_lives inv fenced executed lives
  · have still : Function.update (CreatePhase.engine ∘ ph) i q.engine = CreatePhase.engine ∘ ph := by
      rw [same]
      exact Function.update_eq_self ..
    rw [still]
    exact attended_creating inv executed creating

theorem attended_preserves :
    Preserves semantics (Creates E P input hold) Fenced (fun w ph => Attended w (CreatePhase.engine ∘ ph)) where
  env inv moved := by
    obtain ⟨job, log, _⟩ := World.move_some moved
    refine ⟨⟨leases_move inv.leases moved, ?_⟩, once_move inv.claimed moved, ?_⟩
    · rw [World.state?, World.work?, job]
      exact inv.terminal
    · rw [job]
      exact inv.unleased
  step inv fenced executed step := attended_step inv fenced executed step

theorem opened_unprocessable (inv : Attended w ph) (opened : (ph i).opened = true) {job : Job} (stored : w.job = some job) :
    job.processable = false := by
  obtain ⟨s, state, terminal⟩ := inv.terminal i opened
  rw [World.state_of_job stored] at state
  have claimed : job.terminalHandlingClaimedAt ≠ none := by
    intro unclaimed
    have closed := (inv.claimed.unclaimed (by simp [World.claimedAt?, stored, unclaimed])).2 i
    rw [opened] at closed
    cases closed
  obtain ⟨at', claimed⟩ := Option.ne_none_iff_exists'.mp claimed
  simp [Job.processable, Option.some.inj state, terminal, claimed]

end Step

/-! ### Every run -/

section Runs
variable {E : Engine} {input : Job} {creator : Nat} {hold : CreditHold} {calls : Nat → Call} {other : Option Job} {clock : Time}
variable {sched : List JobAction} {c : CreationConfig}

def CreatePhase.start {ψ : Type} (creator : Nat) (calls : Nat → Call) (i : Nat) : CreatePhase ψ :=
  if i = creator then .unsaved else .worker (.idle (calls i))

/-- How the calls of a creation stand when they have ended. -/
def CreatePhase.concluded {ψ : Type} (p : CreatePhase ψ) : Prop := p.ended = true ∨ ∃ q, p = .worker q

theorem create_tracked {ψ : Type} {P : SettlementProtocol ψ} {I : World → (Nat → CreatePhase ψ) → Prop}
    (held : input.creditHold = some hold) (positive : 0 < hold.reservedCredits)
    (keeps : ∀ kind handler, E.handlers kind = some handler → handler.Keeps P)
    (initial : I (E.create input creator calls other clock).store (CreatePhase.start creator calls)) :
    Tracked (Creates E P input hold) (fun _ q => q.concluded) I (E.create input creator calls other clock) := by
  refine ⟨CreatePhase.start creator calls, initial, fun i => ?_⟩
  by_cases own : i = creator
  · have thread : (E.create input creator calls other clock).threads i = (persistAndEnqueueJob E input).bind fun r => .pure (.inl r) :=
      if_pos own
    have phase : CreatePhase.start creator calls i = (.unsaved : CreatePhase ψ) := if_pos own
    rw [thread, phase]
    refine follows_bind (follows_mono (persistAndEnqueueJob_follows held positive keeps) ?_)
    rintro (e | r) q ended <;> exact Or.inl ended
  · have thread : (E.create input creator calls other clock).threads i = (E.program (calls i)).bind fun r => .pure (.inr r) :=
      if_neg own
    have phase : CreatePhase.start creator calls i = (.worker (.idle (calls i)) : CreatePhase ψ) := if_neg own
    rw [thread, phase]
    refine follows_bind (follows_mono (follows_map CreatePhase.worker (fun _ _ _ _ lives => .worker lives)
      (program_follows keeps (calls i))) ?_)
    rintro (e | r) q ⟨p, rfl, _⟩ <;> exact Or.inr ⟨p, rfl⟩

theorem attended_start {ψ : Type} {calls : Nat → Call} {w : World} (unlogged : w.log = []) :
    Attended w (fun i => (.idle (calls i) : Phase ψ)) where
  leases := ⟨carries_start unlogged, fun _ _ claimed => (by cases claimed), fun _ _ _ working => (by cases working)⟩
  terminal _ opened := by cases opened
  claimed := by
    have never : w.times Op.startsTerminal = 0 := by rw [World.times, unlogged]; rfl
    exact ⟨fun _ _ opened => (by cases opened), fun _ => ⟨never, fun _ => rfl⟩, fun _ waits => (by cases waits), by omega⟩
  unleased _ _ := rfl

theorem accounted_start (fresh : ∀ job, other = some job → job.id ≠ input.id) :
    Accounted input creator hold (E.create input creator calls other clock).store (CreatePhase.start creator calls) := by
  have own : CreatePhase.start creator calls creator = (.unsaved : CreatePhase Bool) := if_pos rfl
  refine ⟨⟨rfl, fresh, fun job stored => by cases stored⟩, fun i other => ⟨_, if_neg other⟩, fun p => ?_, ?_⟩
  · rw [own]
    simp
  · rw [own]
    exact ⟨fun h => (by cases h), fun _ => rfl, fun _ => rfl, Nat.zero_le _, fun h => (by cases h), fun h => (by cases h)⟩

/-- A call that is about to give credits back has no job to do it for, or attends to the job alone. -/
theorem refund_unprocessable {w : World} {ph : Nat → CreatePhase Bool} {op : Op} {reply : Except JsError op.Value}
    {q : CreatePhase Bool} (accounted : Accounted input creator hold w ph) (attended : Attended w (CreatePhase.engine ∘ ph))
    (step : CreatesOnce E input hold (ph creator) op reply q) (refunds : op.refunds = true) {job : Job}
    (stored : w.job = some job) : job.processable = false := by
  generalize here : ph creator = p at step
  cases step with
  | worker lives => exact (accounted.creating _ here).elim
  | refunded =>
    have absent := accounted.standing.unstored (by rw [here]; rfl)
    rw [stored] at absent
    cases absent
  | failing lives =>
    have opened : ((CreatePhase.engine ∘ ph) creator).opened = true := by
      rw [Function.comp_apply, here]
      cases lives with
      | op permitted =>
        cases permitted with
        | inert h => cases op <;> first | cases refunds | cases h
        | _ => cases refunds
      | settlement => rfl
    exact opened_unprocessable attended opened stored
  | _ => cases refunds

/-- Which lookups the creating call makes. -/
def Op.looksUp : Op → Bool
  | .findById | .findByIdempotencyKey _ => true
  | _ => false

/-- The creating call refunds at most once, in a run of fenced writes never while the stored job can be
processed, and exactly once, all of it to the owner, when it ends without a stored job. -/
theorem hold_follows_job (held : input.creditHold = some hold) (positive : 0 < hold.reservedCredits)
    (fresh : ∀ job, other = some job → job.id ≠ input.id)
    (settling : ∀ kind handler, E.handlers kind = some handler →
      ∃ estimate entry, handler.onTerminal = settlingOnTerminal estimate entry)
    (ran : semantics.run (E.create input creator calls other clock) sched = some c) :
    c.store.refundsBy creator ≤ 1 ∧
      (semantics.Meets Fenced (E.create input creator calls other clock) sched → ∀ op next,
        c.threads creator = .await op next → op.refunds = true →
        ∀ job, c.store.job = some job → job.processable = false) ∧
      ((c.threads creator).settled = true → c.store.job = none →
        (∀ e ∈ c.store.log, e.worker = creator → e.op.looksUp = true ∨ e.op.refunds = true → e.choice.rejected = false) →
        c.store.refundsBy creator = 1 ∧
          ∃ e ∈ c.store.log, e.worker = creator ∧ e.op = refund hold ∧ e.choice.rejected = false) := by
  have keeps : ∀ kind handler, E.handlers kind = some handler → handler.Keeps (onceOnly SettlementOp.refunds) := by
    intro kind handler found
    obtain ⟨estimate, entry, settles⟩ := settling kind handler found
    exact settling_refunds settles
  have free : semantics.Meets (fun _ _ _ _ => True) (E.create input creator calls other clock) sched :=
    Semantics.meets_all fun _ _ _ _ => trivial
  obtain ⟨ph, inv, follows⟩ :=
    run_invariant accounted_preserves (create_tracked held positive keeps (accounted_start fresh)) free ran
  refine ⟨inv.standing.once, fun fenced op next awaits refunds job stored => ?_, fun settled absent succeeded => ?_⟩
  · have idle : (CreatePhase.engine ∘ CreatePhase.start creator calls : Nat → Phase Bool) =
        fun i => .idle (if i = creator then .failBeforeStart ENQUEUE_FAILED else calls i) := by
      funext i
      unfold CreatePhase.start
      rw [Function.comp_apply]
      split <;> rfl
    have attended : Attended (E.create input creator calls other clock).store
        (CreatePhase.engine ∘ CreatePhase.start creator calls : Nat → Phase Bool) := by
      rw [idle]
      exact attended_start rfl
    obtain ⟨ph, ⟨accounted, attended⟩, follows⟩ := run_invariant (accounted_preserves.and attended_preserves)
      (create_tracked held positive keeps ⟨accounted_start fresh, attended⟩) fenced ran
    have here := follows creator
    rw [awaits] at here
    obtain ⟨q, step, _⟩ := here (.error (.error ""))
    exact refund_unprocessable accounted attended step refunds stored
  · have here := follows creator
    have concluded : (ph creator).concluded := by
      cases thread : c.threads creator with
      | pure r | throw e =>
        rw [thread] at here
        exact here
      | await op next =>
        rw [thread] at settled
        cases settled
    rcases concluded with ended | ⟨p, worker⟩
    · obtain ⟨stored, _, _, once, refunded, unknown⟩ := inv.standing
      generalize ph creator = p at *
      cases p with
      | refunded =>
        obtain ⟨e, member, own, refunds⟩ := refunded rfl
        have counted : 0 < c.store.refundsBy creator :=
          List.countP_pos_iff.mpr ⟨e, member, by simp [own, refunds, refund, Op.refunds, SettlementOp.refunds, CreditOp.increments]⟩
        exact ⟨by omega, e, member, own, refunds, succeeded e member own (Or.inr (by rw [refunds]; rfl))⟩
      | saved | failing p => exact (stored rfl absent).elim
      | unknown =>
        obtain ⟨e, member, own, lookup, failed⟩ := unknown rfl
        rw [succeeded e member own (Or.inl (by rw [lookup]; rfl))] at failed
        cases failed
      | worker p | unsaved | rejected | absent => cases ended
    · exact (inv.creating p worker).elim

end Runs

namespace FailedCreate

def input : Job := musicJobInput "job" "user" none LateMark.payload none (some LateMark.hold) 0

def start : CreationConfig := LateMark.engine.create input 0 (fun _ => .step none) none 0

theorem settling : ∀ kind handler, LateMark.engine.handlers kind = some handler →
    ∃ estimate entry, handler.onTerminal = settlingOnTerminal estimate entry := by
  intro kind handler found
  cases kind <;> cases found <;> exact ⟨_, _, rfl⟩

/-- The insert fails, the lookup confirms it, and the hold is given back. -/
def absent : List JobAction :=
  [.resume 0 (.rejects (.error "connection lost") false), .resume 0 .resolves, .resume 0 (.holds (some 1000))]

/-- The message is delivered but its send hangs past the worker's lease, and fails. The worker records its
attempt between the claim and the refund of the creating call. -/
def delivered : List JobAction :=
  [.resume 0 .resolves, .resume 1 .resolves, .resume 1 .resolves, .resume 1 (.denies none), .resume 1 .resolves,
    .env (.tick 330001), .resume 0 (.rejects (.error "timeout") true), .resume 0 .resolves, .resume 0 .resolves,
    .resume 0 .resolves, .resume 0 .resolves, .resume 1 .resolves, .resume 0 .resolves, .resume 0 .resolves]

end FailedCreate

theorem hold_returned_without_job : ∃ c, semantics.run FailedCreate.start FailedCreate.absent = some c ∧
    c.store.job = none ∧ c.store.refundsBy 0 = 1 := by
  have ran : (semantics.run FailedCreate.start FailedCreate.absent).map
      (fun c => (c.store.job, (c.threads 0).settled, c.store.log.all fun e => !e.choice.rejected || !e.op.looksUp && !e.op.refunds)) =
        some (none, true, true) := by decide
  obtain ⟨c, ran, ended⟩ := Option.map_eq_some_iff.mp ran
  obtain ⟨absent, rest⟩ := Prod.mk.inj ended
  obtain ⟨settled, succeeded⟩ := Prod.mk.inj rest
  obtain ⟨_, _, once⟩ := hold_follows_job rfl (by decide) (by simp) FailedCreate.settling ran
  refine ⟨c, ran, absent, (once settled absent fun e member _ asked => ?_).1⟩
  have clear := List.all_eq_true.mp succeeded e member
  rcases asked with asked | asked <;> simpa [asked] using clear

/-- A worker that was overtaken by the creating call takes the failed job back to `running`. -/
theorem hold_returned_of_running : ¬ ∀ (E : Engine) (input : Job) (hold : CreditHold) (creator : Nat) (calls : Nat → Call)
    (other : Option Job) (clock : Time) (sched : List JobAction) (c : CreationConfig),
    input.creditHold = some hold → 0 < hold.reservedCredits → (∀ job, other = some job → job.id ≠ input.id) →
    (∀ kind handler, E.handlers kind = some handler → ∃ estimate entry, handler.onTerminal = settlingOnTerminal estimate entry) →
    semantics.run (E.create input creator calls other clock) sched = some c → ∀ op next,
    c.threads creator = .await op next → op.refunds = true → ∀ job, c.store.job = some job → job.processable = false := by
  intro follows
  have reached : (semantics.run FailedCreate.start FailedCreate.delivered).map
      (fun c => (c.store.job.map Job.processable, (c.threads 0).awaited?.map Op.refunds)) = some (some true, some true) := by decide
  obtain ⟨c, ran, found⟩ := Option.map_eq_some_iff.mp reached
  obtain ⟨processable, refunds⟩ := Prod.mk.inj found
  obtain ⟨job, stored, processable⟩ := Option.map_eq_some_iff.mp processable
  obtain ⟨op, awaited, refunds⟩ := Option.map_eq_some_iff.mp refunds
  obtain ⟨next, awaits⟩ := Program.awaited_some awaited
  have out := follows _ _ _ 0 _ _ _ _ c rfl (by decide) (by simp) FailedCreate.settling ran op next awaits refunds job stored
  rw [processable] at out
  cases out

end Bike4Mind.GenerationJobs
