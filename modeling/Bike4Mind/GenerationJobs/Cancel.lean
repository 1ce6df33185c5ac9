import Bike4Mind.GenerationJobs.Leases

/-!
Accepted cancels of sync jobs, for workers that act within their leases. Such workers exclude each
other, so what a worker read when it was granted its lease is still what is stored when it writes.
-/

namespace Bike4Mind.GenerationJobs
open Concurrency

/-- A worker that carries a lease acts before it runs out. -/
def InTime (i : Nat) (w : World) (_ : Op) (_ : Choice) : Prop :=
  (held? w.log i).all (fun token => decide (w.clock ≤ token)) = true

instance {i : Nat} {w : World} {op : Op} {x : Choice} : Decidable (InTime i w op x) :=
  inferInstanceAs (Decidable (_ = _))

variable {ψ : Type} {E : Engine} {P : SettlementProtocol ψ}

/-- The call carries a lease that has not run out. -/
def Live (w : World) (p : Phase ψ) : Prop := ∃ token, p.token? = some token ∧ w.clock ≤ token

/-- What a live worker of a sync job knows of the stored work. -/
def Phase.knows : Phase ψ → Work → Prop
  | .leased _ _ job, work => work.state = job.state ∧ work.submitAttemptedAt = job.submitAttemptedAt
  | .refused .., work => work.state = .pending ∧ work.submitAttemptedAt = none
  | .attempted .., work | .submitted .., work => work.state = .running
  | .answered .., work => work.state = .running ∨ work.state = .storing
  | _, _ => True

/-- The call a worker has not gone far with yet. -/
def Phase.call? : Phase ψ → Option Call
  | .idle call | .timed call _ => some call
  | _ => none

/-- What holds of a job of one kind while steps and cancels work on it in time. -/
structure Exclusive (kind : JobKind) (calls : Nat → Call) (w : World) (ph : Nat → Phase ψ) : Prop extends Carries w ph where
  called : ∀ i call, (ph i).call? = some call → call = calls i
  read : ∀ i call now, ph i = .timed call now → now ≤ w.clock
  alone : ∀ i k, Live w (ph i) → Live w (ph k) → i = k
  current : ∀ i token, (ph i).token? = some token → w.clock ≤ token → w.lease? = some token
  knows : ∀ i work, Live w (ph i) → w.work? = some work → (ph i).knows work
  stored : ∀ job, w.job = some job → job.kind = kind
  leased : ∀ i token now job, ph i = .leased token now job → job.kind = kind
  refused : ∀ i call, ph i = .idle call → ∀ e ∈ w.log, e.worker = i → e.op.cancels = true → e.landed = false

section Step
variable {kind : JobKind} {calls : Nat → Call} {ph : Nat → Phase ψ}
variable {i : Nat} {w w' : World} {op : Op} {x : Choice} {reply : Except JsError op.Value} {p q : Phase ψ}

theorem live_of_token (inv : Carries w ph) (inTime : InTime i w op x) {token : Time}
    (claimed : (ph i).token? = some token) : w.clock ≤ token := by
  have held := inv.held i token claimed
  simpa [InTime, held] using inTime

theorem knows_kept {work : Work} (lives : Lives E P p op reply q) (idle : op.works = false) (knows : p.knows work) :
    q.knows work := by
  cases lives with
  | settlement => exact knows
  | op permitted =>
    cases permitted with
    | inert h => rwa [after_inert h]
    | now => cases p <;> cases reply <;> exact knows
    | acquireLease | failBeforeStart | release | giveUp | refuse | answer | close | markSubmitAttempted => cases idle
    | requestCancel => rcases reply with e | (_ | job) <;> trivial
    | submit => cases reply <;> first | exact knows | exact Or.inl knows
    | submitOutcome => cases reply <;> exact Or.inl knows
    | poll state | store state =>
      have state' := knows.1
      rw [state] at state'
      cases reply <;> first | exact Or.inl state' | exact Or.inr state'
    | claimLeased | claimTerminated => rcases reply with e | (_ | _) <;> trivial
    | @markTerminalHandled lease => cases reply <;> cases lease <;> trivial
    | _ => cases reply <;> trivial

/-- How a call comes to a phase before its first write. -/
inductive Early : Phase ψ → (op : Op) → Except JsError op.Value → Phase ψ → Prop
  | stayed {p : Phase ψ} {op : Op} {reply : Except JsError op.Value} (other : op.cancels = false) : Early p op reply p
  | read {call : Call} {now : Time} : Early (.idle call) .now (.ok now) (.timed call now)
  | refused {call : Call} {beforeSubmitOnly : Bool} :
      Early (.idle call) (.requestCancel beforeSubmitOnly) (.ok none) (.idle call)

theorem early (lives : Lives E P p op reply q) (fresh : q.fresh = true) : Early p op reply q := by
  cases lives with
  | settlement => cases fresh
  | op permitted =>
    cases permitted with
    | inert h =>
      rw [after_inert h]
      exact .stayed (by cases op <;> first | rfl | cases h)
    | now =>
      cases p <;> cases reply <;> first | exact .read | exact .stayed rfl
    | acquireLease => rcases reply with e | (_ | job) <;> cases fresh
    | requestCancel => rcases reply with e | (_ | job) <;> first | exact .refused | cases fresh
    | failBeforeStart | release | giveUp | refuse | answer | close =>
      rw [after_commit.2] at fresh
      cases fresh
    | markSubmitAttempted => rcases reply with e | (_ | job) <;> cases fresh
    | claimLeased | claimTerminated => rcases reply with e | (_ | _) <;> cases fresh
    | @markTerminalHandled lease => cases reply <;> cases lease <;> cases fresh
    | _ => cases reply <;> cases fresh

theorem fresh_of_call {call : Call} (h : p.call? = some call) : p.fresh = true := by
  cases p <;> first | rfl | cases h

theorem early_step (inv : Exclusive kind calls w ph) (executed : World.exec i w op x = some (reply, w'))
    (lives : Lives E P (ph i) op reply q) :
    (∀ k call, (Function.update ph i q k).call? = some call → call = calls k) ∧
      (∀ k call now, Function.update ph i q k = .timed call now → now ≤ w'.clock) ∧
      ∀ k call, Function.update ph i q k = .idle call → ∀ e ∈ w'.log, e.worker = k → e.op.cancels = true →
        e.landed = false := by
  obtain ⟨_, clock⟩ := exec_effect executed
  obtain ⟨landed, log⟩ := exec_log executed
  have old : ∀ k call, k ≠ i → ph k = .idle call → ∀ e ∈ w'.log, e.worker = k → e.op.cancels = true → e.landed = false := by
    intro k call own idle e member ofK cancels
    rw [log] at member
    rcases List.mem_cons.mp member with rfl | member
    · exact (own ofK.symm).elim
    · exact inv.refused k call idle e member ofK cancels
  refine ⟨fun k call here => ?_, fun k call now timed => ?_, fun k call idle => ?_⟩
  · rcases updated_map here with ⟨rfl, mine⟩ | ⟨_, here⟩
    · refine inv.called k call ?_
      have step := early lives (fresh_of_call mine)
      generalize ph k = p at step
      cases step with
      | stayed | read | refused => exact mine
    · exact inv.called k call here
  · rw [clock]
    rcases updated timed with ⟨rfl, mine⟩ | ⟨_, timed⟩
    · subst mine
      have step := early lives rfl
      generalize before : ph k = p at step
      cases step with
      | stayed => exact inv.read k call now before
      | read =>
        obtain ⟨found, _⟩ := exec_ok executed
        cases x with
        | resolves => exact le_of_eq (Option.some.inj found).symm
        | _ => cases found
    · exact inv.read k call now timed
  · rcases updated idle with ⟨rfl, mine⟩ | ⟨own, idle⟩
    · subst mine
      have step := early lives rfl
      generalize before : ph k = p at step
      cases step with
      | stayed other =>
        intro e member ofK cancels
        rw [log] at member
        rcases List.mem_cons.mp member with rfl | member
        · rw [other] at cancels
          cases cancels
        · exact inv.refused k call before e member ofK cancels
      | refused =>
        obtain ⟨_, missed, _⟩ := exec_document .requestCancel executed
        intro e member ofK cancels
        rw [missed] at member
        rcases List.mem_cons.mp member with rfl | member
        · rfl
        · exact inv.refused k call before e member ofK cancels
    · exact old k call own idle

/-- A step keeps workers apart if it moves nothing under another live worker, and leaves its own
caller with a current lease and true knowledge, if with any. -/
theorem exclusive_of (inv : Exclusive kind calls w ph) (executed : World.exec i w op x = some (reply, w'))
    (lives : Lives E P (ph i) op reply q)
    (others : ∀ k, k ≠ i → Live w (ph k) → w'.lease? = w.lease? ∧ w'.work? = w.work?)
    (own : ∀ token, q.token? = some token → w'.clock ≤ token → w'.lease? = some token ∧
      (∀ k, k ≠ i → ¬ Live w (ph k)) ∧ ∀ work, w'.work? = some work → q.knows work)
    (stored : ∀ job, w'.job = some job → job.kind = kind)
    (leased : ∀ token now job, q = .leased token now job → job.kind = kind) :
    Exclusive kind calls w' (Function.update ph i q) := by
  obtain ⟨_, clock⟩ := exec_effect executed
  obtain ⟨called, read, refused⟩ := early_step inv executed lives
  have before : ∀ k, k ≠ i → Live w' (Function.update ph i q k) → Live w (ph k) := by
    rintro k other ⟨token, claimed, inTime⟩
    rw [Function.update_of_ne other] at claimed
    exact ⟨token, claimed, clock ▸ inTime⟩
  have mine : Live w' (Function.update ph i q i) → ∀ k, k ≠ i → ¬ Live w (ph k) := by
    rintro ⟨token, claimed, inTime⟩
    rw [Function.update_self] at claimed
    exact (own token claimed inTime).2.1
  refine ⟨carries_step inv.toCarries executed lives, called, read, fun k l liveK liveL => ?_, fun k token claimed inTime => ?_,
    fun k work live here => ?_, stored, fun k token now job here => ?_, refused⟩
  · by_cases ownK : k = i <;> by_cases ownL : l = i
    · rw [ownK, ownL]
    · subst ownK
      exact (mine liveK l ownL (before l ownL liveL)).elim
    · subst ownL
      exact (mine liveL k ownK (before k ownK liveK)).elim
    · exact inv.alone k l (before k ownK liveK) (before l ownL liveL)
  · by_cases ownK : k = i
    · subst ownK
      rw [Function.update_self] at claimed
      exact (own token claimed inTime).1
    · have live := before k ownK ⟨token, claimed, inTime⟩
      rw [Function.update_of_ne ownK] at claimed
      rw [(others k ownK live).1]
      exact inv.current k token claimed (clock ▸ inTime)
  · by_cases ownK : k = i
    · subst ownK
      obtain ⟨token, claimed, inTime⟩ := live
      rw [Function.update_self] at claimed ⊢
      exact (own token claimed inTime).2.2 work here
    · have live := before k ownK live
      rw [Function.update_of_ne ownK]
      exact inv.knows k work live ((others k ownK live).2 ▸ here)
  · rcases updated here with ⟨rfl, latest⟩ | ⟨_, here⟩
    · exact leased token now job latest
    · exact inv.leased k token now job here

/-- A call that comes to a leased job is the one that acquired it, or already had it. -/
theorem leased_from {token now : Time} {job : Job} (lives : Lives E P p op reply (.leased token now job))
    (grants : op.acquires = false) : p = .leased token now job := by
  generalize there : (Phase.leased token now job : Phase ψ) = q at lives
  cases lives with
  | settlement => cases there
  | op permitted =>
    cases permitted with
    | inert h => rw [after_inert h]
    | now => cases p <;> cases reply <;> first | rfl | cases there
    | acquireLease => cases grants
    | requestCancel => rcases reply with e | (_ | job) <;> cases there
    | failBeforeStart | release | giveUp | refuse | answer | close =>
      rcases reply with e | (_ | job)
      · cases there
      · cases there
      · rw [after_committed] at there
        split at there <;> cases there
    | markSubmitAttempted => rcases reply with e | (_ | job) <;> cases there
    | claimLeased | claimTerminated => rcases reply with e | (_ | _) <;> cases there
    | @markTerminalHandled lease => cases reply <;> cases lease <;> cases there
    | _ => cases reply <;> cases there

/-- The engine's view of a sync job worked on by steps and cancels alone. -/
structure SyncOnly (E : Engine) (kind : JobKind) (calls : Nat → Call) : Prop where
  handler : ∃ handler, E.handlers kind = some handler ∧ handler.submitMode = .sync
  calls : ∀ i, (∃ remainingMs, calls i = .step remainingMs) ∨ calls i = .requestCancel kind

theorem mark_runs (sync : SyncOnly E kind calls) (inv : Exclusive kind calls w ph) {at' : Time} {markRunning : Bool}
    (permitted : Permits E (ph i) (.markSubmitAttempted at' markRunning)) :
    markRunning = true ∧ ∃ token now job, ph i = .leased token now job ∧ job.state = .pending ∧
      job.submitAttemptedAt = none ∧ job.cancelRequested = false := by
  obtain ⟨token, now, job, handler, leased, found, rfl, pending, unsubmitted, wanted⟩ := mark_leased permitted
  obtain ⟨sole, foundSole, syncMode⟩ := sync.handler
  rw [inv.leased i token now job leased, foundSole] at found
  cases found
  exact ⟨by rw [syncMode]; rfl, token, now, job, leased, pending, unsubmitted, wanted⟩

theorem unstarted_refused (sync : SyncOnly E kind calls) (inv : Exclusive kind calls w ph) {error : JobError} {now : Time}
    (timed : ph i = .timed (.failBeforeStart error) now) : False := by
  have called := inv.called i (.failBeforeStart error) (by rw [timed]; rfl)
  rcases sync.calls i with ⟨remainingMs, same⟩ | same <;> rw [same] at called <;> cases called

theorem exclusive_step (sync : SyncOnly E kind calls) (inv : Exclusive kind calls w ph) (inTime : InTime i w op x)
    (executed : World.exec i w op x = some (reply, w')) (lives : Lives E P (ph i) op reply q) :
    Exclusive kind calls w' (Function.update ph i q) := by
  obtain ⟨effect, clock⟩ := exec_effect executed
  have apart : ∀ {token}, (ph i).token? = some token → ∀ k, k ≠ i → ¬ Live w (ph k) := by
    intro token claimed k other live
    exact other (inv.alone k i live ⟨token, claimed, live_of_token inv.toCarries inTime claimed⟩)
  have missed : w'.job = w.job → w'.lease? = w.lease? ∧ w'.work? = w.work? := by
    intro same
    have work : w'.work? = w.work? := by rw [World.work?, World.work?, same]
    exact ⟨World.lease_of_work work, work⟩
  have stored : ∀ job, w'.job = some job → job.kind = kind := by
    intro job' present
    cases effect with
    | missed same log => exact inv.stored job' (same ▸ present)
    | wrote written' written same log lands =>
      obtain rfl := Option.some.inj (same.symm.trans present)
      cases creates : op.creates with
      | true =>
        cases op with
        | createJob input => exact (create_refused (lives_op lives rfl).1).elim
        | _ => cases creates
      | false =>
        obtain ⟨job, present, framed⟩ := written_framed written creates
        rw [framed.kind]
        exact inv.stored job present
  cases works : op.works with
  | false =>
    have same := exec_work executed works
    have grants : op.acquires = false := by cases op <;> first | rfl | cases works
    refine exclusive_of inv executed lives (fun k _ _ => ⟨World.lease_of_work same, same⟩) (fun token claimed late => ?_) stored
      (fun token now job leased => inv.leased i token now job (leased_from (leased ▸ lives) grants))
    have carried : (ph i).token? = some token := by
      rcases (lives_frame lives grants).1 with gone | kept
      · rw [gone] at claimed
        cases claimed
      · rwa [← kept]
    have current := live_of_token inv.toCarries inTime carried
    refine ⟨(World.lease_of_work same).trans (inv.current i token carried current), apart carried, fun work here => ?_⟩
    exact knows_kept lives works (inv.knows i work ⟨token, carried, current⟩ (same ▸ here))
  | true =>
    obtain ⟨permitted, rfl⟩ := lives_op lives (by cases op <;> first | rfl | cases works)
    cases op with
    | createJob input => exact (create_refused permitted).elim
    | acquireLease now token =>
      obtain ⟨_, timed, _⟩ := acquire_timed permitted
      have outcome := acquire_outcome (P := P) executed timed
      have leasedOwn : ∀ token' now' job, (ph i).after P (.acquireLease now token) reply = .leased token' now' job →
          job.kind = kind := by
        intro token' now' job same
        rcases outcome with ⟨gone, _⟩ | ⟨granted, leased, _, present, _⟩
        · rw [same] at gone
          cases gone
        · rw [leased] at same
          cases same
          exact stored _ present
      cases effect with
      | missed same log =>
        refine exclusive_of inv executed lives (fun _ _ _ => missed same) (fun token' claimed => ?_) stored leasedOwn
        rcases outcome with ⟨gone, _⟩ | ⟨job, _, _, _, granted⟩
        · rw [gone] at claimed
          cases claimed
        · rw [log] at granted
          simp at granted
      | wrote job' written same log lands =>
        obtain ⟨before, present, free, _, rfl⟩ := written_acquire written
        have vacant : ∀ k, k ≠ i → ¬ Live w (ph k) := by
          rintro k _ ⟨token', claimed, late⟩
          have lease := inv.current k token' claimed late
          rw [World.lease_of_job present] at lease
          have expired : token' < now := by simpa [Job.unleased, lease] using free
          exact absurd (lt_of_lt_of_le expired (inv.read i _ now timed)) (not_lt.mpr late)
        refine exclusive_of inv executed lives (fun k other live => (vacant k other live).elim) (fun token' claimed _ => ?_)
          stored leasedOwn
        rcases outcome with ⟨gone, _⟩ | ⟨job, leased, granted, _, _⟩
        · rw [gone] at claimed
          cases claimed
        · rw [leased] at claimed ⊢
          cases claimed
          obtain rfl := Option.some.inj (written.symm.trans granted)
          refine ⟨World.lease_of_job same, vacant, fun work here => ?_⟩
          rw [World.work_of_job same] at here
          cases here
          exact ⟨rfl, rfl⟩
    | markSubmitAttempted at' markRunning =>
      obtain ⟨rfl, token, now, job, leased, pending, unsubmitted, wanted⟩ := mark_runs sync inv permitted
      have carried : (ph i).token? = some token := by rw [leased]; rfl
      have current := live_of_token inv.toCarries inTime carried
      have unleased : ∀ token now job, (ph i).after P (.markSubmitAttempted at' true) reply ≠ .leased token now job := by
        rw [leased]
        rcases reply with e | (_ | job) <;> intro _ _ _ same <;> cases same
      refine exclusive_of inv executed lives (fun k other live => (apart carried k other live).elim) (fun token' claimed late => ?_)
        stored (fun token now job same => (unleased token now job same).elim)
      obtain ⟨before, present, lease, knows⟩ : ∃ before, w.job = some before ∧ before.leaseUntil = some token ∧
          (before.state = job.state ∧ before.submitAttemptedAt = job.submitAttemptedAt) := by
        have lease := inv.current i token carried current
        cases present : w.job with
        | none => simp [World.lease?, World.work?, present] at lease
        | some before =>
          have knows := inv.knows i before.work ⟨token, carried, current⟩ (World.work_of_job present)
          rw [leased] at knows
          exact ⟨before, rfl, by rwa [World.lease_of_job present] at lease, knows⟩
      cases effect with
      | missed same log =>
        have kept : (ph i).after P (.markSubmitAttempted at' true) reply = .refused token job ∨
            ((ph i).after P (.markSubmitAttempted at' true) reply).token? = none := by
          rw [leased]
          rcases reply with e | (_ | written)
          · exact Or.inr rfl
          · exact Or.inl rfl
          · obtain ⟨_, landed, _⟩ := exec_document .markSubmitAttempted executed
            rw [log] at landed
            simp at landed
        rcases kept with refused | gone
        · rw [refused] at claimed ⊢
          cases claimed
          refine ⟨?_, apart carried, fun work here => ?_⟩
          · rw [World.lease_of_job (same.trans present), lease]
          · rw [World.work_of_job (same.trans present)] at here
            cases here
            exact ⟨knows.1.trans pending, knows.2.trans unsubmitted⟩
        · rw [gone] at claimed
          cases claimed
      | wrote job' written same log lands =>
        obtain ⟨before', present', _, rfl⟩ := written_mark written
        obtain rfl := Option.some.inj (present.symm.trans present')
        have kept : (ph i).after P (.markSubmitAttempted at' true) reply = .attempted token job ∨
            ((ph i).after P (.markSubmitAttempted at' true) reply).token? = none := by
          rw [leased]
          rcases reply with e | (_ | answered)
          · exact Or.inr rfl
          · obtain ⟨_, landed, _⟩ := exec_document .markSubmitAttempted executed
            rw [log] at landed
            simp at landed
          · exact Or.inl rfl
        rcases kept with attempted | gone
        · rw [attempted] at claimed ⊢
          cases claimed
          refine ⟨(World.lease_of_job same).trans lease, apart carried, fun work here => ?_⟩
          rw [World.work_of_job same] at here
          cases here
          rfl
        · rw [gone] at claimed
          cases claimed
    | commit update guard =>
      have gone := (@after_commit ψ P (ph i) update guard reply).1
      refine exclusive_of inv executed lives ?_ (fun token claimed => by rw [gone] at claimed; cases claimed) stored
        (fun token now job leased => by rw [leased] at gone; cases gone)
      intro k other live
      rcases commit_cases permitted with ⟨error, now, timed, _, _⟩ | ⟨token, rfl, claimed, _⟩
      · exact (unstarted_refused sync inv timed).elim
      · exact (apart claimed k other live).elim
    | _ => cases works

/-! ### After the cancel -/

/-- The cancel is stored, and the job has not been submitted or has ended without a result. -/
def Job.accepted (job : Job) : Prop :=
  job.cancelRequested = true ∧
    ((job.state = .pending ∧ job.submitAttemptedAt = none) ∨ job.state = .cancelled ∨ job.state = .failed)

def Accepted (w : World) : Prop := ∃ job, w.job = some job ∧ job.accepted

/-- A live worker of an accepted cancel has neither recorded an attempt nor got a result. -/
theorem accepted_knows {token : Time} (inv : Exclusive kind calls w ph) (accepted : Accepted w) (inTime : InTime i w op x)
    (claimed : (ph i).token? = some token) : ∃ job, w.job = some job ∧ job.accepted ∧ job.leaseUntil = some token ∧
      (ph i).knows job.work := by
  obtain ⟨job, stored, accepted⟩ := accepted
  have late := live_of_token inv.toCarries inTime claimed
  refine ⟨job, stored, accepted, ?_, inv.knows i job.work ⟨token, claimed, late⟩ (World.work_of_job stored)⟩
  rw [← World.lease_of_job stored]
  exact inv.current i token claimed late

theorem running_unaccepted {job : Job} (accepted : job.accepted) (started : job.state = .running ∨ job.state = .storing) :
    False := by
  rcases accepted with ⟨_, ⟨state, _⟩ | state | state⟩ <;> rcases started with started | started <;>
    rw [state] at started <;> cases started

/-- The commits that still land: a release, the cancel itself, or a failure of a job leased before it. -/
theorem accepted_commit {update : Commit} {guard : CommitGuard} (sync : SyncOnly E kind calls)
    (inv : Exclusive kind calls w ph) (accepted : Accepted w) (inTime : InTime i w (.commit update guard) x)
    (permitted : Permits E (ph i) (.commit update guard)) :
    update = {} ∨ Terminates .cancelled update ∨ (Terminates .failed update ∧
      ∃ token now job, ph i = .leased token now job ∧ job.cancelPending = false ∧ job.state.terminal = false) := by
  have here : ∀ {token}, (ph i).token? = some token → ∃ job, w.job = some job ∧ job.accepted ∧ (ph i).knows job.work := by
    intro token claimed
    obtain ⟨job, stored, accepted, _, knows⟩ := accepted_knows inv accepted inTime claimed
    exact ⟨job, stored, accepted, knows⟩
  generalize phase : ph i = p at permitted
  cases permitted with
  | inert h => cases h
  | failBeforeStart h => exact (unstarted_refused sync inv phase).elim
  | release | close => exact Or.inl rfl
  | refuse h => exact Or.inr (Or.inl h)
  | @giveUp token now job s _ live terminates failed cancelled =>
    rcases failed with rfl | rfl
    · refine Or.inr (Or.inr ⟨terminates, token, now, job, rfl, ?_, live⟩)
      by_contra pending
      cases cancelled (by simpa using pending)
    · exact Or.inr (Or.inl terminates)
  | @answer token job result _ applies =>
    have claimed : (ph i).token? = some token := by rw [phase]; rfl
    obtain ⟨stored, _, accepted, knows⟩ := here claimed
    rw [phase] at knows
    exact (running_unaccepted accepted knows).elim

theorem accepted_submits (inv : Exclusive kind calls w ph) (accepted : Accepted w) (inTime : InTime i w op x)
    (permitted : Permits E (ph i) op) : op.submits = false := by
  cases op with
  | submit job =>
    exfalso
    have attempted : ∃ token, ph i = .attempted token job := by
      generalize ph i = p at permitted
      cases permitted with
      | inert h => cases h
      | @submit token => exact ⟨token, rfl⟩
    obtain ⟨token, attempted⟩ := attempted
    have claimed : (ph i).token? = some token := by rw [attempted]; rfl
    obtain ⟨stored, _, accepted, _, knows⟩ := accepted_knows inv accepted inTime claimed
    rw [attempted] at knows
    exact running_unaccepted accepted (Or.inl knows)
  | _ => rfl

theorem accepted_step (sync : SyncOnly E kind calls) (inv : Exclusive kind calls w ph) (accepted : Accepted w)
    (inTime : InTime i w op x) (executed : World.exec i w op x = some (reply, w')) (lives : Lives E P (ph i) op reply q) :
    Accepted w' := by
  obtain ⟨effect, _⟩ := exec_effect executed
  have before := accepted
  obtain ⟨job, stored, accepted⟩ := accepted
  cases effect with
  | missed same log => exact ⟨job, same.trans stored, accepted⟩
  | wrote job' written same log lands =>
    refine ⟨job', same, ?_⟩
    cases op with
    | createJob input => exact (create_refused (lives_op lives rfl).1).elim
    | acquireLease now token =>
      obtain ⟨present, found, _, _, rfl⟩ := written_acquire written
      cases stored.symm.trans found
      exact accepted
    | markSubmitAttempted at' markRunning =>
      obtain ⟨present, found, wanted, _⟩ := written_mark written
      cases stored.symm.trans found
      rw [accepted.1] at wanted
      cases wanted
    | commit update guard =>
      obtain ⟨present, found, _, rfl⟩ := written_commit written
      cases stored.symm.trans found
      rcases accepted_commit sync inv before inTime (lives_op lives rfl).1 with rfl | ended | ⟨ended, _⟩
      · exact accepted
      · exact ⟨accepted.1, Or.inr (Or.inl (by simp [Commit.apply, ended.state]))⟩
      · exact ⟨accepted.1, Or.inr (Or.inr (by simp [Commit.apply, ended.state]))⟩
    | requestCancel beforeSubmitOnly =>
      obtain ⟨present, found, _, rfl⟩ := written_requestCancel written
      cases stored.symm.trans found
      exact ⟨rfl, accepted.2⟩
    | _ =>
      obtain ⟨present, found, framed⟩ := written_framed written rfl
      cases stored.symm.trans found
      have work := framed.work rfl
      have state : job'.state = job.state := congrArg Work.state work
      have attempted : job'.submitAttemptedAt = job.submitAttemptedAt := congrArg Work.submitAttemptedAt work
      rw [Job.accepted, framed.cancelRequested rfl, state, attempted]
      exact accepted

/-- A cancel that returned `requested` was accepted. -/
structure CancelSet (kind : JobKind) (calls : Nat → Call) (w : World) (ph : Nat → Phase ψ) : Prop where
  exclusive : Exclusive kind calls w ph
  accepted : ∀ i, ph i = .cancelSet → Accepted w

/-- `requested` comes from a cancel whose write took effect on an unsubmitted job. -/
theorem cancelSet_from (sync : SyncOnly E kind calls) (inv : Exclusive kind calls w ph)
    (executed : World.exec i w op x = some (reply, w')) (lives : Lives E P (ph i) op reply q) (set : q = .cancelSet) :
    ph i = .cancelSet ∨ Accepted w' := by
  generalize phase : ph i = p at lives
  cases lives with
  | settlement => cases set
  | op permitted =>
    cases permitted with
    | inert h => exact Or.inl (by rwa [after_inert h] at set)
    | now => cases p <;> cases reply <;> first | exact Or.inl set | cases set
    | acquireLease => rcases reply with e | (_ | job) <;> cases set
    | @requestCancel target handler found =>
      rcases reply with e | (_ | job)
      · cases set
      · cases set
      · have called := inv.called i (.requestCancel target) (by rw [phase]; rfl)
        obtain ⟨sole, foundSole, syncMode⟩ := sync.handler
        have target : target = kind := by
          rcases sync.calls i with ⟨remainingMs, same⟩ | same <;> rw [same] at called <;> cases called
          rfl
        rw [target, foundSole] at found
        cases found
        obtain ⟨written, _, stored⟩ := exec_document .requestCancel executed
        obtain ⟨before, present, passes, rfl⟩ := written_requestCancel written
        have unsubmitted : before.state = .pending ∧ before.submitAttemptedAt = none := by
          simpa [Repository.requestCancel, syncMode] using passes
        exact Or.inr ⟨_, stored, rfl, Or.inl unsubmitted⟩
    | failBeforeStart | release | giveUp | refuse | answer | close =>
      rcases reply with e | (_ | job)
      · cases set
      · cases set
      · rw [after_committed] at set
        split at set <;> cases set
    | markSubmitAttempted => rcases reply with e | (_ | job) <;> cases set
    | claimLeased | claimTerminated => rcases reply with e | (_ | _) <;> cases set
    | @markTerminalHandled lease => cases reply <;> cases lease <;> cases set
    | _ => cases reply <;> cases set

theorem cancelSet_step (sync : SyncOnly E kind calls) (inv : CancelSet kind calls w ph) (inTime : InTime i w op x)
    (executed : World.exec i w op x = some (reply, w')) (lives : Lives E P (ph i) op reply q) :
    CancelSet kind calls w' (Function.update ph i q) := by
  refine ⟨exclusive_step sync inv.exclusive inTime executed lives, fun k set => ?_⟩
  have kept : Accepted w → Accepted w' :=
    fun accepted => accepted_step sync inv.exclusive accepted inTime executed lives
  rcases updated set with ⟨rfl, mine⟩ | ⟨_, set⟩
  · rcases cancelSet_from sync inv.exclusive executed lives mine with before | accepted
    · exact kept (inv.accepted k before)
    · exact accepted
  · exact kept (inv.accepted k set)

/-! ### What happens since -/

/-- A step was granted the lease. -/
def GrantedIn (log : List Entry) (k : Nat) : Prop :=
  ∃ e ∈ log, e.worker = k ∧ e.op.acquires = true ∧ e.choice = .resolves ∧ e.landed = true

/-- Every commit of a new state cancels the job, or fails it for a worker that had leased it before. -/
def EndsCancelled (since : List Entry) : Prop :=
  ∀ later e earlier, since = later ++ e :: earlier → ∀ update guard, e.op = .commit update guard → e.landed = true →
    ∀ s, update.state = some s → s = .cancelled ∨ (s = .failed ∧ ¬ GrantedIn earlier e.worker)

/-- A step granted since is about to cancel the job, or finds it ended. -/
def Concluding (w : World) (p : Phase ψ) : Prop :=
  (∃ token now job, p = .leased token now job ∧ job.cancelPending = true) ∨
    (∃ s, w.state? = some s ∧ s.terminal = true) ∨ p = .thrown

structure Aftermath (kind : JobKind) (calls : Nat → Call) (base : List Entry) (w : World) (ph : Nat → Phase ψ) : Prop where
  exclusive : Exclusive kind calls w ph
  accepted : Accepted w
  since : ∃ since, w.log = since ++ base ∧ (∀ e ∈ since, e.op.submits = false) ∧ EndsCancelled since ∧
    ∀ k, GrantedIn since k → Concluding w (ph k)

theorem ends_cons {since : List Entry} {newest : Entry} (ends : EndsCancelled since)
    (here : ∀ update guard, newest.op = .commit update guard → newest.landed = true →
      ∀ s, update.state = some s → s = .cancelled ∨ (s = .failed ∧ ¬ GrantedIn since newest.worker)) :
    EndsCancelled (newest :: since) := by
  intro later e earlier split update guard commits landed s state
  cases later with
  | nil =>
    obtain ⟨rfl, rfl⟩ := List.cons.inj split
    exact here update guard commits landed s state
  | cons head later =>
    obtain ⟨_, rest⟩ := List.cons.inj split
    exact ends later e earlier rest update guard commits landed s state

/-- Once an accepted cancel has ended the job, no live worker is left to write it. -/
theorem accepted_terminal_step (sync : SyncOnly E kind calls) (inv : Exclusive kind calls w ph) (accepted : Accepted w)
    (inTime : InTime i w op x) (executed : World.exec i w op x = some (reply, w')) (lives : Lives E P (ph i) op reply q)
    (ended : ∃ s, w.state? = some s ∧ s.terminal = true) : ∃ s, w'.state? = some s ∧ s.terminal = true := by
  obtain ⟨s, stored, terminal⟩ := ended
  obtain ⟨effect, _⟩ := exec_effect executed
  cases works : op.works with
  | false => exact ⟨s, by rwa [World.state_of_work (exec_work executed works)], terminal⟩
  | true =>
    cases effect with
    | missed same log => exact ⟨s, by rwa [World.state?, World.work?, same], terminal⟩
    | wrote job' written same log lands =>
      rw [World.state_of_job same]
      cases op with
      | createJob input => exact (create_refused (lives_op lives rfl).1).elim
      | acquireLease now token =>
        obtain ⟨present, found, _, _, rfl⟩ := written_acquire written
        rw [World.state_of_job found] at stored
        exact ⟨s, stored, terminal⟩
      | markSubmitAttempted at' markRunning =>
        obtain ⟨present, found, wanted, _⟩ := written_mark written
        obtain ⟨job, found', accepted⟩ := accepted
        cases found.symm.trans found'
        rw [accepted.1] at wanted
        cases wanted
      | commit update guard =>
        obtain ⟨present, found, _, rfl⟩ := written_commit written
        rw [World.state_of_job found] at stored
        rcases accepted_commit sync inv accepted inTime (lives_op lives rfl).1 with rfl | ended | ⟨ended, _⟩
        · exact ⟨s, stored, terminal⟩
        · exact ⟨_, by simp only [Commit.apply, ended.state]; rfl, ended.terminal⟩
        · exact ⟨_, by simp only [Commit.apply, ended.state]; rfl, ended.terminal⟩
      | _ => cases works

theorem follows_own {token now : Time} {job : Job} (sync : SyncOnly E kind calls) (inv : Exclusive kind calls w ph)
    (inTime : InTime i w op x) (executed : World.exec i w op x = some (reply, w')) (lives : Lives E P (ph i) op reply q)
    (leased : ph i = .leased token now job) (pending : job.cancelPending = true) : Concluding w' q := by
  obtain ⟨requested, state, unsubmitted⟩ := cancelPending_state pending
  obtain ⟨handler, found, _⟩ := sync.handler
  have handled : E.handlers job.kind ≠ none := by
    rw [inv.leased i token now job leased, found]
    simp
  have carried : (ph i).token? = some token := by rw [leased]; rfl
  have lease := inv.current i token carried (live_of_token inv.toCarries inTime carried)
  have stay : q = .leased token now job → Concluding w' q := fun same => Or.inl ⟨token, now, job, same, pending⟩
  rw [leased] at lives
  cases lives with
  | op permitted =>
    cases permitted with
    | inert h => exact stay (after_inert h _)
    | now => cases reply <;> exact stay rfl
    | release idle =>
      rcases idle with unknown | ⟨_, free⟩
      · exact (handled unknown).elim
      · rw [pending] at free
        cases free
    | @giveUp _ _ _ s update live terminates failed cancelled =>
      rcases reply with e | (_ | written)
      · exact Or.inr (Or.inr rfl)
      · obtain ⟨missed, _, _⟩ := exec_document .commit executed
        cases stored : w.job with
        | none => simp [World.lease?, World.work?, stored] at lease
        | some before =>
          have matches' : before.leaseUntil = some token := by rwa [World.lease_of_job stored] at lease
          simp [World.written, Op.write?, Write.matched, Repository.commit, CommitGuard.filter, stored, matches',
            Option.filter] at missed
      · obtain ⟨written, _, stored⟩ := exec_document .commit executed
        obtain ⟨before, _, _, rfl⟩ := written_commit written
        refine Or.inr (Or.inl ⟨s, ?_, terminates.terminal⟩)
        rw [World.state_of_job stored]
        simp [Commit.apply, terminates.state]
    | markSubmitAttempted _ _ _ wanted =>
      rw [requested] at wanted
      cases wanted
    | poll running => rw [state] at running; cases running
    | store storing => rw [state] at storing; cases storing
    | claimLeased terminal => rw [state] at terminal; cases terminal

theorem thrown_stays (lives : Lives E P (.thrown : Phase ψ) op reply q) : q = .thrown := by
  cases lives with
  | op permitted =>
    cases permitted with
    | inert h => exact after_inert h _
    | now => cases reply <;> rfl

theorem granted_concludes {job : Job} {token now : Time} (stored : w.job = some job) (accepted : Accepted w)
    (leased : p = .leased token now job) : Concluding w p := by
  obtain ⟨job', found, requested, state⟩ := accepted
  obtain rfl := Option.some.inj (stored.symm.trans found)
  rcases state with ⟨pending, unsubmitted⟩ | ended | ended
  · exact Or.inl ⟨token, now, job, leased, by simp [Job.cancelPending, requested, pending, unsubmitted]⟩
  · exact Or.inr (Or.inl ⟨_, World.state_of_job stored, by rw [ended]; rfl⟩)
  · exact Or.inr (Or.inl ⟨_, World.state_of_job stored, by rw [ended]; rfl⟩)

theorem aftermath_step {base : List Entry} (sync : SyncOnly E kind calls) (inv : Aftermath kind calls base w ph)
    (inTime : InTime i w op x) (executed : World.exec i w op x = some (reply, w')) (lives : Lives E P (ph i) op reply q) :
    Aftermath kind calls base w' (Function.update ph i q) := by
  obtain ⟨exclusive, accepted, since, history, unsubmitted, ends, concluding⟩ := inv
  obtain ⟨landed, log⟩ := exec_log executed
  have accepted' := accepted_step sync exclusive accepted inTime executed lives
  have terminal : (∃ s, w.state? = some s ∧ s.terminal = true) → ∃ s, w'.state? = some s ∧ s.terminal = true :=
    accepted_terminal_step sync exclusive accepted inTime executed lives
  refine ⟨exclusive_step sync exclusive inTime executed lives, accepted', ⟨i, op, x, landed⟩ :: since,
    by rw [log, history, List.cons_append], fun e member => ?_, ends_cons ends ?_, fun k granted => ?_⟩
  · rcases List.mem_cons.mp member with rfl | member
    · cases settles : op.settling with
      | true => cases op <;> first | rfl | cases settles
      | false => exact accepted_submits exclusive accepted inTime (lives_op lives settles).1
    · exact unsubmitted e member
  · rintro update guard commits took s state
    have commits : op = .commit update guard := commits
    subst commits
    rcases accepted_commit sync exclusive accepted inTime (lives_op lives rfl).1 with rfl | ended | ⟨ended, token, now, job,
      leased, free, live⟩
    · cases state
    · exact Or.inl (Option.some.inj (state.symm.trans ended.state))
    · refine Or.inr ⟨Option.some.inj (state.symm.trans ended.state), fun granted => ?_⟩
      rcases concluding i granted with ⟨_, _, _, leased', pending⟩ | ⟨s', stored, ended⟩ | thrown
      · rw [leased] at leased'
        cases leased'
        rw [free] at pending
        cases pending
      · have carried : (ph i).token? = some token := by rw [leased]; rfl
        obtain ⟨present, found, _, _, knows⟩ := accepted_knows exclusive accepted inTime carried
        rw [leased] at knows
        rw [World.state_of_job found] at stored
        have same : s' = job.state := (Option.some.inj stored).symm.trans knows.1
        rw [same, live] at ended
        cases ended
      · rw [leased] at thrown
        cases thrown
  · by_cases own : k = i
    · subst own
      rw [Function.update_self]
      obtain ⟨e, member, worker, acquires, resolved, took⟩ := granted
      rcases List.mem_cons.mp member with rfl | member
      · cases op with
        | acquireLease now token =>
          obtain ⟨permitted, rfl⟩ := lives_op lives rfl
          obtain ⟨_, timed, _⟩ := acquire_timed permitted
          have resolved : x = .resolves := resolved
          have took : landed = true := took
          subst resolved took
          obtain ⟨job, rfl⟩ := exec_resolved executed
          obtain ⟨_, missed, stored⟩ := exec_document .acquireLease executed
          rw [log] at missed
          cases job with
          | none => simp at missed
          | some job => exact granted_concludes stored accepted' (by rw [timed]; rfl)
        | _ => cases acquires
      · rcases concluding k ⟨e, member, worker, acquires, resolved, took⟩ with ⟨token, now, job, leased, pending⟩ | ended | thrown
        · exact follows_own sync exclusive inTime executed lives leased pending
        · exact Or.inr (Or.inl (terminal ended))
        · rw [thrown] at lives
          exact Or.inr (Or.inr (thrown_stays lives))
    · rw [Function.update_of_ne own]
      obtain ⟨e, member, worker, grant⟩ := granted
      rcases List.mem_cons.mp member with rfl | member
      · exact (own worker.symm).elim
      · rcases concluding k ⟨e, member, worker, grant⟩ with leased | ended | thrown
        · exact Or.inl leased
        · exact Or.inr (Or.inl (terminal ended))
        · exact Or.inr (Or.inr thrown)

end Step

/-! ### Every run -/

section Runs
variable {kind : JobKind} {calls : Nat → Call} {ph : Nat → Phase ψ} {w w' : World} {e : World.Move}
variable {job : Job} {clock : Time} {c₁ c₂ : JobConfig} {before after : List JobAction}

theorem exclusive_start (created : job.kind = kind) :
    Exclusive kind calls (.holding job clock) (fun i => (.idle (calls i) : Phase ψ)) where
  toCarries := carries_start rfl
  called _ _ here := (Option.some.inj here).symm
  read _ _ _ timed := by cases timed
  alone _ _ live := by obtain ⟨_, claimed, _⟩ := live; cases claimed
  current _ _ claimed := by cases claimed
  knows _ _ live := by obtain ⟨_, claimed, _⟩ := live; cases claimed
  stored _ stored := by cases stored; exact created
  leased _ _ _ _ leased := by cases leased
  refused _ _ _ _ member := by cases member

theorem exclusive_move (inv : Exclusive kind calls w ph) (moved : w.move e = some w') : Exclusive kind calls w' ph := by
  obtain ⟨job, log, later⟩ := World.move_some moved
  have live : ∀ i, Live w' (ph i) → Live w (ph i) := fun i ⟨token, claimed, late⟩ => ⟨token, claimed, later.trans late⟩
  have work : w'.work? = w.work? := by rw [World.work?, World.work?, job]
  refine ⟨⟨log ▸ inv.fresh, log ▸ inv.held⟩, inv.called, fun i call now timed => (inv.read i call now timed).trans later,
    fun i k liveI liveK => inv.alone i k (live i liveI) (live k liveK), fun i token claimed late => ?_,
    fun i work' alive here => inv.knows i work' (live i alive) (work ▸ here), job ▸ inv.stored, inv.leased, log ▸ inv.refused⟩
  rw [World.lease_of_work work]
  exact inv.current i token claimed (later.trans late)

theorem cancelSet_preserves (sync : SyncOnly E kind calls) :
    Preserves semantics (Lives E P) InTime (CancelSet kind calls) where
  env inv moved := by
    refine ⟨exclusive_move inv.exclusive moved, fun i set => ?_⟩
    rw [Accepted, (World.move_some moved).1]
    exact inv.accepted i set
  step inv inTime executed lives := cancelSet_step sync inv inTime executed lives

theorem aftermath_preserves {base : List Entry} (sync : SyncOnly E kind calls) :
    Preserves semantics (Lives E P) InTime (Aftermath kind calls base) where
  env inv moved := by
    obtain ⟨job, log, _⟩ := World.move_some moved
    refine ⟨exclusive_move inv.exclusive moved, ?_, ?_⟩
    · rw [Accepted, job]
      exact inv.accepted
    · rw [log]
      obtain ⟨since, history, unsubmitted, ends, concluding⟩ := inv.since
      refine ⟨since, history, unsubmitted, ends, fun k granted => ?_⟩
      rw [Concluding, World.state?, World.work?, job]
      exact concluding k granted
  step inv inTime executed lives := aftermath_step sync inv inTime executed lives

/-- What an accepted cancel means for everything that happens since it returned. -/
structure CancelHonoured (since : List Entry) (c : JobConfig) : Prop where
  unsubmitted : ∀ e ∈ since, e.op.submits = false
  ends : EndsCancelled since
  unsuccessful : c.store.state? ≠ some .succeeded
  processed : ∀ k outcome, GrantedIn since k → c.threads k = .pure (.step outcome) →
    c.store.state? = some .cancelled ∨ c.store.state? = some .failed

/-- A cancel of a sync job that returned `requested` is honoured, and one that returned anything else
set nothing. -/
theorem cancel_honoured (sync : SyncOnly E job.kind calls)
    (reached : semantics.run (E.start job clock calls) before = some c₁)
    (continued : semantics.run c₁ after = some c₂)
    (inTime : semantics.Meets InTime (E.start job clock calls) (before ++ after)) :
    (∀ r target, c₁.threads r = .pure (.cancel (.requested target)) →
      ∃ since, c₂.store.log = since ++ c₁.store.log ∧ CancelHonoured since c₂) ∧
    (∀ r outcome, c₁.threads r = .pure (.cancel outcome) → (∀ target, outcome ≠ .requested target) →
      ∀ e ∈ c₁.store.log, e.worker = r → e.op.cancels = true → e.landed = false) := by
  obtain ⟨early, late⟩ := (Semantics.meets_append reached).mp inTime
  have initial : CancelSet job.kind calls (.holding job clock) (fun i => (.idle (calls i) : Phase Unit)) :=
    ⟨exclusive_start rfl, fun _ set => by cases set⟩
  obtain ⟨ph, inv, follows⟩ := run_invariant (cancelSet_preserves sync) (start_any initial) early reached
  constructor
  · intro r target returned
    have set : ph r = .cancelSet := by
      have here := follows r
      rw [returned] at here
      exact here
    have aftermath : Aftermath job.kind calls c₁.store.log c₁.store ph :=
      ⟨inv.exclusive, inv.accepted r set, [], rfl, fun _ member => (by cases member),
        fun later e earlier split => (by simp at split), fun k granted => (by obtain ⟨_, member, _⟩ := granted; cases member)⟩
    obtain ⟨ph', ⟨_, ⟨job', stored, accepted⟩, since, history, unsubmitted, ends, concluding⟩, follows'⟩ :=
      run_invariant (aftermath_preserves sync) ⟨ph, aftermath, follows⟩ late continued
    refine ⟨since, history, unsubmitted, ends, ?_, fun k outcome granted finished => ?_⟩
    · rw [World.state_of_job stored]
      rcases accepted.2 with ⟨state, _⟩ | state | state <;> rw [state] <;> simp
    · have here := follows' k
      rw [finished] at here
      rw [World.state_of_job stored]
      rcases concluding k granted with ⟨_, _, _, leased, _⟩ | ⟨s, state, terminal⟩ | thrown
      · rw [leased] at here
        rcases here with skipped | done
        · cases skipped
        · cases done
      · rw [World.state_of_job stored] at state
        rcases accepted.2 with ⟨pending, _⟩ | ended | ended
        · rw [← Option.some.inj state, pending] at terminal
          cases terminal
        · exact Or.inl (by rw [ended])
        · exact Or.inr (by rw [ended])
      · rw [thrown] at here
        rcases here with skipped | done
        · cases skipped
        · cases done
  · intro r outcome returned other
    have here := follows r
    rw [returned] at here
    cases outcome with
    | requested target => exact (other target rfl).elim
    | notCancellable target | unchanged target =>
      obtain ⟨call, idle⟩ := here
      exact inv.exclusive.refused r call idle

end Runs
namespace AcceptedCancel

def payload : Payload := { request := "", model := "", providerId := "" }

def engine : Engine := generationJobEngine (fun _ => ⟨.finite 1, some 1⟩) (fun _ => ⟨.finite 1, some 1⟩)

def calls (i : Nat) : Call := if i = 1 then .requestCancel .music else .step none

def start : JobConfig := engine.start (musicJobInput "job" "user" none payload none none 0) 0 calls

def accepted : Outcome → Bool
  | .cancel (.requested _) => true
  | _ => false

theorem accepted_requested {outcome : Outcome} (h : accepted outcome = true) : ∃ target, outcome = .cancel (.requested target) := by
  cases outcome with
  | step outcome => cases h
  | fail outcome => cases h
  | cancel outcome =>
    cases outcome with
    | requested target => exact ⟨target, rfl⟩
    | _ => cases h

/-- Worker 0 leases the job before the cancel is stored. -/
def requested : List JobAction :=
  [.resume 0 .resolves, .resume 0 .resolves, .resume 0 (.denies none), .resume 1 .resolves, .resume 1 .resolves]

/-- Worker 0 is refused its submit and crashes; worker 2 takes the job over once the lease is out. -/
def processed : List JobAction :=
  [.resume 0 .resolves, .resume 0 .resolves, .env (.tick 330001), .resume 2 .resolves, .resume 2 .resolves,
    .resume 2 .resolves, .resume 2 .resolves, .resume 2 .resolves]

end AcceptedCancel

theorem cancel_honoured_by_successor : ∃ c₁ c₂, semantics.run AcceptedCancel.start AcceptedCancel.requested = some c₁ ∧
    semantics.run c₁ AcceptedCancel.processed = some c₂ ∧ c₂.store.state? = some .cancelled ∧
    ∃ since, c₂.store.log = since ++ c₁.store.log ∧ CancelHonoured since c₂ := by
  have first : (semantics.run AcceptedCancel.start AcceptedCancel.requested).map
      (fun c => (c.threads 1).result?.map AcceptedCancel.accepted) = some (some true) := by decide
  have second : (semantics.run AcceptedCancel.start (AcceptedCancel.requested ++ AcceptedCancel.processed)).map
      (·.store.state?) = some (some .cancelled) := by decide
  obtain ⟨c₁, reached, returned⟩ := Option.map_eq_some_iff.mp first
  obtain ⟨c₂, ran, cancelled⟩ := Option.map_eq_some_iff.mp second
  obtain ⟨mid, reached', continued⟩ := Semantics.run_append.mp ran
  cases reached.symm.trans reached'
  have sync : SyncOnly AcceptedCancel.engine .music AcceptedCancel.calls := by
    refine ⟨⟨_, rfl, rfl⟩, fun i => ?_⟩
    by_cases second : i = 1
    · exact Or.inr (if_pos second)
    · exact Or.inl ⟨none, if_neg second⟩
  refine ⟨c₁, c₂, reached, continued, cancelled, ?_⟩
  obtain ⟨outcome, returned, accepted⟩ := Option.map_eq_some_iff.mp returned
  obtain ⟨target, rfl⟩ := AcceptedCancel.accepted_requested accepted
  exact (cancel_honoured sync reached continued (by decide)).1 1 target (Program.result_some returned)

end Bike4Mind.GenerationJobs
