import Bike4Mind.GenerationJobs.Fencing

/-!
One provider submit at a time. The attempt is recorded before the provider is called and taken back
only by the commit of that call's own `retry`, so a second call has to find the record cleared.
-/

namespace Bike4Mind.GenerationJobs
open Concurrency

/-- The worker of the recorded attempt, until a commit takes it back. -/
def submitter : List Entry → Option Nat
  | [] => none
  | e :: earlier =>
    match e.op, e.landed with
    | .markSubmitAttempted .., true => some e.worker
    | .commit update _, true => if update.submitAttemptedAt = some none then none else submitter earlier
    | _, _ => submitter earlier

/-- Worker `i` was told to retry, and its commit took the attempt back. -/
def Retried (i : Nat) (since : List Entry) : Prop :=
  ∃ later update guard x between reason landed earlier, Clears update ∧
    since = later ++ ⟨i, .commit update guard, x, true⟩ :: (between ++
      ⟨i, .submitOutcome, .answers (.retry reason), landed⟩ :: earlier)

/-- Between two submits, the first one's own retry was committed. -/
def SubmitsSeparated (log : List Entry) : Prop :=
  ∀ later second between first earlier, log = later ++ second :: (between ++ first :: earlier) →
    first.op.submits = true → second.op.submits = true → Retried first.worker between

def World.attemptedAt? (w : World) : Option Time := w.work?.bind Work.submitAttemptedAt

/-- A recorded attempt is the only one outstanding. -/
def unattempted (w : World) : Op → Bool
  | .markSubmitAttempted .. => w.attemptedAt?.isNone
  | _ => true

def FirstAttempt (_ : Nat) (w : World) (op : Op) (x : Choice) : Prop :=
  w.Lands op x = true → unattempted w op = true

instance {i : Nat} {w : World} {op : Op} {x : Choice} : Decidable (FirstAttempt i w op x) :=
  inferInstanceAs (Decidable (_ → _))

theorem retried_later {i : Nat} {since : List Entry} {e : Entry} (retried : Retried i since) : Retried i (e :: since) := by
  obtain ⟨later, update, guard, x, between, reason, landed, earlier, clears, rfl⟩ := retried
  exact ⟨e :: later, update, guard, x, between, reason, landed, earlier, clears, rfl⟩

theorem retried_answered {i : Nat} {since : List Entry} (retried : Retried i since) :
    since.any (fun e => match e.choice with | .answers (.retry _) => true | _ => false) = true := by
  obtain ⟨later, update, guard, x, between, reason, landed, earlier, _, rfl⟩ := retried
  simp

theorem split_cons {newest e : Entry} {log later earlier : List Entry} (split : newest :: log = later ++ e :: earlier) :
    (later = [] ∧ e = newest ∧ earlier = log) ∨ ∃ later', later = newest :: later' ∧ log = later' ++ e :: earlier := by
  cases later with
  | nil =>
    obtain ⟨rfl, rfl⟩ := List.cons.inj split
    exact Or.inl ⟨rfl, rfl, rfl⟩
  | cons head later' =>
    obtain ⟨rfl, rest⟩ := List.cons.inj split
    exact Or.inr ⟨later', rfl, rest⟩

section Attempts
variable {ψ : Type} {E : Engine} {P : SettlementProtocol ψ}
variable {i : Nat} {w w' : World} {op : Op} {x : Choice} {reply : Except JsError op.Value} {p q : Phase ψ}

/-- The writes of `submitAttemptedAt`. -/
def Op.movesAttempt : Op → Bool
  | .createJob _ | .markSubmitAttempted .. => true
  | .commit update _ => update.submitAttemptedAt.isSome
  | _ => false

theorem attempt_kept (executed : World.exec i w op x = some (reply, w')) (still : op.movesAttempt = false) :
    w'.attemptedAt? = w.attemptedAt? ∧ submitter w'.log = submitter w.log := by
  obtain ⟨landed, log⟩ := exec_log executed
  constructor
  · cases works : op.works with
    | false => rw [World.attemptedAt?, World.attemptedAt?, exec_work executed works]
    | true =>
      obtain ⟨effect, _⟩ := exec_effect executed
      cases effect with
      | missed job log => rw [World.attemptedAt?, World.attemptedAt?, World.work?, World.work?, job]
      | wrote job' written job log lands =>
        rw [World.attemptedAt?, World.work_of_job job]
        cases op with
        | acquireLease now token =>
          obtain ⟨before, stored, _, _, rfl⟩ := written_acquire written
          rw [World.attemptedAt?, World.work_of_job stored]
          rfl
        | commit update guard =>
          obtain ⟨before, stored, _, rfl⟩ := written_commit written
          have untouched : update.submitAttemptedAt = none := by simpa [Op.movesAttempt] using still
          rw [World.attemptedAt?, World.work_of_job stored]
          simp [Job.work, Commit.apply, untouched]
        | createJob input => cases still
        | markSubmitAttempted at' markRunning => cases still
        | _ => cases works
  · rw [log]
    cases op with
    | commit update guard =>
      have untouched : update.submitAttemptedAt = none := by simpa [Op.movesAttempt] using still
      cases landed <;> simp [submitter, untouched]
    | createJob input => cases still
    | markSubmitAttempted at' markRunning => cases still
    | _ => rfl

theorem commit_clears {update : Commit} {guard : CommitGuard} (permitted : Permits E p (.commit update guard))
    (moves : update.submitAttemptedAt ≠ none) :
    Clears update ∧ ∃ token job reason, p = .answered token job (.retry reason) ∧ job.state = .pending := by
  cases permitted with
  | inert h => cases h
  | failBeforeStart h | giveUp _ h | refuse h => exact (moves h.submit).elim
  | release | close => exact (moves rfl).elim
  | @answer token job result _ applies =>
    cases applies with
    | terminates s h => exact (moves h.submit).elim
    | advances h kept => exact (moves kept).elim
    | retries h clears pending reason retry =>
      subst retry
      exact ⟨clears, token, job, reason, rfl, pending⟩

theorem submit_attempted {job : Job} (permitted : Permits E p (.submit job)) : ∃ token, p = .attempted token job := by
  cases permitted with
  | inert h => cases h
  | @submit token => exact ⟨token, rfl⟩

theorem outcome_submitted (permitted : Permits E p .submitOutcome) : ∃ token job, p = .submitted token job := by
  cases permitted with
  | inert h => cases h
  | @submitOutcome token job => exact ⟨token, job, rfl⟩

namespace Phase

/-- From the recorded attempt to the commit of its outcome. -/
def attempting : Phase ψ → Bool
  | .attempted .. | .submitted .. => true
  | .answered _ job _ => job.state == .pending
  | _ => false

def unsent : Phase ψ → Bool
  | .idle _ | .timed .. | .leased .. | .attempted .. => true
  | _ => false

def retrying? : Phase ψ → Option String
  | .answered _ job (.retry reason) => if job.state = .pending then some reason else none
  | _ => none

end Phase

structure Submits (w : World) (ph : Nat → Phase ψ) : Prop where
  recorded : submitter w.log ≠ none → w.attemptedAt? ≠ none
  attempting : ∀ i, (ph i).attempting = true → submitter w.log = some i
  unsent : ∀ i, (ph i).unsent = true → ∀ e ∈ w.log, e.worker = i → e.op.submits = false
  answered : ∀ i reason, (ph i).retrying? = some reason → ∀ later e earlier, w.log = later ++ e :: earlier →
    e.worker = i → e.op.submits = true → ∃ landed, ⟨i, .submitOutcome, .answers (.retry reason), landed⟩ ∈ later
  accounted : ∀ later e earlier, w.log = later ++ e :: earlier → e.op.submits = true →
    submitter w.log = some e.worker ∨ Retried e.worker later
  separated : SubmitsSeparated w.log

/-- The steps of a submit: its record, the call and its outcome. -/
def Op.ofSubmit : Op → Bool
  | .markSubmitAttempted .. | .submit _ | .submitOutcome => true
  | _ => false

theorem attempt_frame (lives : Lives E P p op reply q) (outside : op.ofSubmit = false) :
    (q.attempting = true → p.attempting = true) ∧ (q.unsent = true → p.unsent = true) ∧
      ∀ reason, q.retrying? = some reason → p.retrying? = some reason := by
  have gone : ∀ r : Phase ψ, r.attempting = false → r.unsent = false → r.retrying? = none →
      (r.attempting = true → p.attempting = true) ∧ (r.unsent = true → p.unsent = true) ∧
        ∀ reason, r.retrying? = some reason → p.retrying? = some reason := by
    intro r attempting unsent retrying
    rw [attempting, unsent, retrying]
    exact ⟨fun h => (by cases h), fun h => (by cases h), fun _ h => (by cases h)⟩
  cases lives with
  | settlement h => exact ⟨id, id, fun _ => id⟩
  | op permitted =>
    cases permitted with
    | inert h => rw [after_inert h]; exact ⟨id, id, fun _ => id⟩
    | now => cases p <;> cases reply <;> exact ⟨id, id, fun _ => id⟩
    | acquireLease =>
      rcases reply with e | (_ | job)
      · exact gone _ rfl rfl rfl
      · exact gone _ rfl rfl rfl
      · exact ⟨id, fun _ => rfl, fun _ h => (by cases h)⟩
    | requestCancel =>
      rcases reply with e | (_ | job)
      · exact gone _ rfl rfl rfl
      · exact ⟨id, id, fun _ => id⟩
      · exact gone _ rfl rfl rfl
    | failBeforeStart | release | giveUp | refuse | answer | close =>
      rcases reply with e | (_ | job)
      · exact gone _ rfl rfl rfl
      · exact gone _ rfl rfl rfl
      · rw [after_committed]
        split <;> exact gone _ rfl rfl rfl
    | markSubmitAttempted | submit | submitOutcome => cases outside
    | poll state | store state =>
      have attempting : ∀ token job result, job.state ≠ .pending →
          (Phase.answered token job result : Phase ψ).attempting = false ∧
          (Phase.answered token job result : Phase ψ).retrying? = none := by
        intro token job result started
        constructor
        · simpa [Phase.attempting] using started
        · cases result <;> simp [Phase.retrying?, started]
      cases reply <;>
        exact gone _ (attempting _ _ _ (by simp [state])).1 rfl (attempting _ _ _ (by simp [state])).2
    | claimLeased | claimTerminated => rcases reply with e | (_ | _) <;> exact gone _ rfl rfl rfl
    | @markTerminalHandled lease => cases reply <;> cases lease <;> exact gone _ rfl rfl rfl
    | _ => cases reply <;> exact gone _ rfl rfl rfl

/-! ### Each operation keeps the submits apart -/

section Steps
variable {ph : Nat → Phase ψ} {newest : Entry}

theorem separated_cons {log : List Entry} (separated : SubmitsSeparated log) (other : newest.op.submits = false) :
    SubmitsSeparated (newest :: log) := by
  intro later second between first earlier split submits₁ submits₂
  rcases split_cons split with ⟨_, rfl, _⟩ | ⟨later', _, rest⟩
  · rw [other] at submits₂
    cases submits₂
  · exact separated later' second between first earlier rest submits₁ submits₂

theorem unsent_cons (inv : Submits w ph) {k : Nat} (unsent : (ph k).unsent = true) (other : newest.op.submits = false) :
    ∀ e ∈ newest :: w.log, e.worker = k → e.op.submits = false := by
  intro e member own
  rcases List.mem_cons.mp member with rfl | member
  · exact other
  · exact inv.unsent k unsent e member own

theorem answered_cons (inv : Submits w ph) {k : Nat} {reason : String} (retrying : (ph k).retrying? = some reason)
    (other : newest.op.submits = false) : ∀ later e earlier, newest :: w.log = later ++ e :: earlier → e.worker = k →
    e.op.submits = true → ∃ landed, ⟨k, .submitOutcome, .answers (.retry reason), landed⟩ ∈ later := by
  intro later e earlier split own submits
  rcases split_cons split with ⟨_, rfl, _⟩ | ⟨later', rfl, rest⟩
  · rw [other] at submits
    cases submits
  · obtain ⟨landed, member⟩ := inv.answered k reason retrying later' e earlier rest own submits
    exact ⟨landed, List.mem_cons_of_mem _ member⟩

theorem accounted_cons (inv : Submits w ph) {holder : Option Nat} (other : newest.op.submits = false)
    (kept : ∀ later e earlier, w.log = later ++ e :: earlier → e.op.submits = true → submitter w.log = some e.worker →
      holder = some e.worker ∨ Retried e.worker (newest :: later)) :
    ∀ later e earlier, newest :: w.log = later ++ e :: earlier → e.op.submits = true →
      holder = some e.worker ∨ Retried e.worker later := by
  intro later e earlier split submits
  rcases split_cons split with ⟨_, rfl, _⟩ | ⟨later', rfl, rest⟩
  · rw [other] at submits
    cases submits
  · rcases inv.accounted later' e earlier rest submits with current | retried
    · exact kept later' e earlier rest submits current
    · exact Or.inr (retried_later retried)

theorem submits_quiet {landed : Bool} (inv : Submits w ph) (log : w'.log = ⟨i, op, x, landed⟩ :: w.log)
    (attempted : w'.attemptedAt? = w.attemptedAt?) (holder : submitter w'.log = submitter w.log) (other : op.submits = false)
    (attempting : q.attempting = true → (ph i).attempting = true) (unsent : q.unsent = true → (ph i).unsent = true)
    (retrying : ∀ reason, q.retrying? = some reason → (ph i).retrying? = some reason ∨
      ((ph i).attempting = true ∧ op = .submitOutcome ∧ x = .answers (.retry reason))) :
    Submits w' (Function.update ph i q) := by
  refine ⟨?_, fun k busy => ?_, fun k early => ?_, fun k reason answered => ?_, ?_, ?_⟩
  · rw [holder, attempted]
    exact inv.recorded
  · rw [holder]
    refine inv.attempting k ?_
    by_cases own : k = i
    · subst own
      exact attempting (by rwa [Function.update_self] at busy)
    · rwa [Function.update_of_ne own] at busy
  · rw [log]
    refine unsent_cons inv ?_ other
    by_cases own : k = i
    · subst own
      exact unsent (by rwa [Function.update_self] at early)
    · rwa [Function.update_of_ne own] at early
  · rw [log]
    rcases updated_map answered with ⟨rfl, mine⟩ | ⟨_, answered⟩
    · rcases retrying reason mine with before | ⟨_, outcome, answer⟩
      · exact answered_cons inv before other
      · intro later e earlier split _ submits
        rcases split_cons split with ⟨_, rfl, _⟩ | ⟨later', rfl, _⟩
        · rw [show op.submits = true from submits] at other
          cases other
        · subst outcome answer
          exact ⟨landed, List.mem_cons_self⟩
    · exact answered_cons inv answered other
  · rw [holder, log]
    exact accounted_cons inv other fun _ _ _ _ _ current => Or.inl current
  · rw [log]
    exact separated_cons inv.separated other

theorem submits_submit {job : Job} {token : Time} {reply : Except JsError Unit} (inv : Submits w ph)
    (executed : World.exec i w (.submit job) x = some (reply, w')) (attempted : ph i = .attempted token job) :
    Submits w' (Function.update ph i ((ph i).after P (.submit job) reply)) := by
  obtain ⟨landed, log⟩ := exec_log executed
  obtain ⟨same, holder⟩ := attempt_kept executed rfl
  have mine := inv.attempting i (by rw [attempted]; rfl)
  have first := inv.unsent i (by rw [attempted]; rfl)
  have phase : ((ph i).after P (.submit job) reply).unsent = false ∧ ((ph i).after P (.submit job) reply).retrying? = none := by
    rw [attempted]
    cases reply <;> exact ⟨rfl, rfl⟩
  refine ⟨?_, fun k busy => ?_, fun k early => ?_, fun k reason answered => ?_, ?_, ?_⟩
  · rw [holder, same]
    exact inv.recorded
  · rw [holder]
    by_cases own : k = i
    · rw [own]
      exact mine
    · rw [Function.update_of_ne own] at busy
      exact inv.attempting k busy
  · by_cases own : k = i
    · subst own
      rw [Function.update_self, phase.1] at early
      cases early
    · rw [Function.update_of_ne own] at early
      intro e member ofK
      rw [log] at member
      rcases List.mem_cons.mp member with rfl | member
      · exact (own ofK.symm).elim
      · exact inv.unsent k early e member ofK
  · by_cases own : k = i
    · subst own
      rw [Function.update_self, phase.2] at answered
      cases answered
    · rw [Function.update_of_ne own] at answered
      intro later e earlier split ofK submits
      rw [log] at split
      rcases split_cons split with ⟨_, rfl, _⟩ | ⟨later', rfl, rest⟩
      · exact (own ofK.symm).elim
      · obtain ⟨landed, member⟩ := inv.answered k reason answered later' e earlier rest ofK submits
        exact ⟨landed, List.mem_cons_of_mem _ member⟩
  · intro later e earlier split submits
    rw [holder]
    rw [log] at split
    rcases split_cons split with ⟨_, rfl, _⟩ | ⟨later', rfl, rest⟩
    · exact Or.inl mine
    · exact (inv.accounted later' e earlier rest submits).imp id retried_later
  · intro later second between first' earlier split submits₁ submits₂
    rw [log] at split
    rcases split_cons split with ⟨_, rfl, rest⟩ | ⟨later', rfl, rest⟩
    · rcases inv.accounted between first' earlier rest.symm submits₁ with current | retried
      · have own : first'.worker = i := Option.some.inj (current.symm.trans mine)
        have unsubmitted := first first' (by rw [← rest]; simp) own
        rw [submits₁] at unsubmitted
        cases unsubmitted
      · exact retried
    · exact inv.separated later' second between first' earlier rest submits₁ submits₂

/-- A recorded attempt: under the condition, everybody's earlier one has been taken back. -/
theorem submits_mark {at' : Time} {markRunning : Bool} {reply : Except JsError (Option Job)} (inv : Submits w ph)
    (first : FirstAttempt i w (.markSubmitAttempted at' markRunning) x)
    (executed : World.exec i w (.markSubmitAttempted at' markRunning) x = some (reply, w'))
    (permitted : Permits E (ph i) (.markSubmitAttempted at' markRunning)) :
    Submits w' (Function.update ph i ((ph i).after P (.markSubmitAttempted at' markRunning) reply)) := by
  obtain ⟨token, now, job, handler, leased, _⟩ := mark_leased permitted
  have early : (ph i).unsent = true := by rw [leased]; rfl
  have phase : ((ph i).after P (.markSubmitAttempted at' markRunning) reply).retrying? = none ∧
      (((ph i).after P (.markSubmitAttempted at' markRunning) reply).attempting = true → ∃ job, reply = .ok (some job)) := by
    rw [leased]
    rcases reply with e | (_ | job)
    · exact ⟨rfl, fun busy => (by cases busy)⟩
    · exact ⟨rfl, fun busy => (by cases busy)⟩
    · exact ⟨rfl, fun _ => ⟨job, rfl⟩⟩
  obtain ⟨effect, _⟩ := exec_effect executed
  cases effect with
  | missed same log =>
    have work : w'.attemptedAt? = w.attemptedAt? := by
      rw [World.attemptedAt?, World.attemptedAt?, World.work?, World.work?, same]
    refine submits_quiet inv log work (by rw [log]; rfl) rfl (fun busy => ?_) (fun _ => early) (fun reason h => ?_)
    · obtain ⟨written, rfl⟩ := phase.2 busy
      obtain ⟨_, landed, _⟩ := exec_document .markSubmitAttempted executed
      rw [log] at landed
      simp at landed
    · rw [phase.1] at h
      cases h
  | wrote job' written same log lands =>
    have vacant : submitter w.log = none := by
      by_contra taken
      have free : w.attemptedAt? = none := by simpa [unattempted] using first lands
      exact inv.recorded taken free
    have holder : submitter w'.log = some i := by
      rw [log]
      rfl
    obtain ⟨before, stored, _, rfl⟩ := written_mark written
    refine ⟨fun _ => ?_, fun k busy => ?_, fun k unsent => ?_, fun k reason answered => ?_, ?_, ?_⟩
    · rw [World.attemptedAt?, World.work_of_job same]
      simp [Job.work]
    · by_cases own : k = i
      · rw [own]
        exact holder
      · rw [Function.update_of_ne own] at busy
        have taken := inv.attempting k busy
        rw [vacant] at taken
        cases taken
    · rw [log]
      refine unsent_cons inv ?_ rfl
      by_cases own : k = i
      · rwa [own]
      · rwa [Function.update_of_ne own] at unsent
    · by_cases own : k = i
      · subst own
        rw [Function.update_self, phase.1] at answered
        cases answered
      · rw [Function.update_of_ne own] at answered
        rw [log]
        exact answered_cons inv answered rfl
    · rw [log]
      refine accounted_cons inv rfl fun _ _ _ _ _ current => ?_
      rw [vacant] at current
      cases current
    · rw [log]
      exact separated_cons inv.separated rfl

theorem submits_commit {update : Commit} {guard : CommitGuard} {reply : Except JsError (Option Job)} (inv : Submits w ph)
    (executed : World.exec i w (.commit update guard) x = some (reply, w'))
    (permitted : Permits E (ph i) (.commit update guard)) :
    Submits w' (Function.update ph i ((ph i).after P (.commit update guard) reply)) := by
  have frame := attempt_frame (@Lives.op ψ E P (ph i) (.commit update guard) reply permitted) rfl
  have ended : ((ph i).after P (.commit update guard) reply).attempting = false := by
    generalize ph i = p
    rcases reply with e | (_ | job)
    · cases p <;> rfl
    · cases p <;> rfl
    · rw [after_committed]
      split <;> rfl
  have quiet : ∀ {landed : Bool}, w'.log = ⟨i, .commit update guard, x, landed⟩ :: w.log → w'.attemptedAt? = w.attemptedAt? →
      submitter w'.log = submitter w.log → Submits w' (Function.update ph i ((ph i).after P (.commit update guard) reply)) :=
    fun log attempted holder => submits_quiet inv log attempted holder rfl frame.1 frame.2.1
      fun reason retrying => Or.inl (frame.2.2 reason retrying)
  by_cases moves : update.submitAttemptedAt = none
  · obtain ⟨landed, log⟩ := exec_log executed
    have kept := attempt_kept executed (by simp [Op.movesAttempt, moves])
    exact quiet log kept.1 kept.2
  obtain ⟨clears, token, job, reason, retried, pending⟩ := commit_clears permitted moves
  obtain ⟨effect, _⟩ := exec_effect executed
  cases effect with
  | missed same log =>
    refine quiet log ?_ (by rw [log]; rfl)
    rw [World.attemptedAt?, World.attemptedAt?, World.work?, World.work?, same]
  | wrote job' written same log lands =>
    have mine := inv.attempting i (by rw [retried]; simp [Phase.attempting, pending])
    have vacant : submitter w'.log = none := by
      rw [log]
      simp [submitter, clears.submit]
    refine ⟨fun taken => (taken vacant).elim, fun k busy => ?_, fun k unsent => ?_, fun k reason answered => ?_, ?_, ?_⟩
    · by_cases own : k = i
      · subst own
        rw [Function.update_self, ended] at busy
        cases busy
      · rw [Function.update_of_ne own] at busy
        exact (own (Option.some.inj ((inv.attempting k busy).symm.trans mine))).elim
    · rw [log]
      refine unsent_cons inv ?_ rfl
      by_cases own : k = i
      · subst own
        exact frame.2.1 (by rwa [Function.update_self] at unsent)
      · rwa [Function.update_of_ne own] at unsent
    · rw [log]
      refine answered_cons inv ?_ rfl
      by_cases own : k = i
      · subst own
        exact frame.2.2 reason (by rwa [Function.update_self] at answered)
      · rwa [Function.update_of_ne own] at answered
    · rw [log]
      refine accounted_cons inv rfl fun later e earlier split submits current => Or.inr ?_
      have own : e.worker = i := Option.some.inj (current.symm.trans mine)
      obtain ⟨landed, member⟩ := inv.answered i reason (by simp [retried, Phase.retrying?, pending]) later e earlier split
        own submits
      obtain ⟨between, old, rfl⟩ := List.append_of_mem member
      rw [own]
      exact ⟨[], update, guard, x, between, reason, landed, old, clears, rfl⟩
    · rw [log]
      exact separated_cons inv.separated rfl

theorem submits_step (inv : Submits w ph) (first : FirstAttempt i w op x)
    (executed : World.exec i w op x = some (reply, w')) (lives : Lives E P (ph i) op reply q) :
    Submits w' (Function.update ph i q) := by
  obtain ⟨landed, log⟩ := exec_log executed
  cases op with
  | createJob input => exact (create_refused (lives_op lives rfl).1).elim
  | markSubmitAttempted at' markRunning =>
    obtain ⟨permitted, rfl⟩ := lives_op lives rfl
    exact submits_mark inv first executed permitted
  | commit update guard =>
    obtain ⟨permitted, rfl⟩ := lives_op lives rfl
    exact submits_commit inv executed permitted
  | submit job =>
    obtain ⟨permitted, rfl⟩ := lives_op lives rfl
    obtain ⟨token, attempted⟩ := submit_attempted permitted
    exact submits_submit inv executed attempted
  | submitOutcome =>
    obtain ⟨permitted, rfl⟩ := lives_op lives rfl
    obtain ⟨token, job, submitted⟩ := outcome_submitted permitted
    obtain ⟨attempted, holder⟩ := attempt_kept executed rfl
    rw [submitted]
    refine submits_quiet inv log attempted holder rfl (fun _ => by rw [submitted]; rfl) (fun unsent => ?_) fun reason h => ?_
    · cases reply <;> cases unsent
    · refine Or.inr ⟨by rw [submitted]; rfl, rfl, ?_⟩
      cases reply with
      | error e => cases h
      | ok result =>
        obtain ⟨found, _⟩ := exec_ok executed
        have retried : result = .retry reason := by
          unfold Phase.after at h
          cases result <;> simp_all [Phase.retrying?]
        cases x with
        | answers result' =>
          rw [← retried, Option.some.inj found]
        | _ => cases found
  | _ =>
    obtain ⟨attempted, holder⟩ := attempt_kept executed rfl
    obtain ⟨attempting, unsent, retrying⟩ := attempt_frame lives rfl
    exact submits_quiet inv log attempted holder rfl attempting unsent fun reason h => Or.inl (retrying reason h)

end Steps
theorem submits_start {calls : Nat → Call} {job : Job} {clock : Time} :
    Submits (.holding job clock) (fun i => (.idle (calls i) : Phase ψ)) where
  recorded taken := (taken rfl).elim
  attempting _ busy := by cases busy
  unsent _ _ _ member := by cases member
  answered _ _ retrying := by cases retrying
  accounted later e earlier split := by simp [World.holding] at split
  separated later second between first earlier split := by simp [World.holding] at split

theorem submits_preserves : Preserves semantics (Lives E P) FirstAttempt Submits where
  env {w e w' ph} inv moved := by
    obtain ⟨job, log, _⟩ := World.move_some moved
    have attempted : w'.attemptedAt? = w.attemptedAt? := by
      rw [World.attemptedAt?, World.attemptedAt?, World.work?, World.work?, job]
    exact ⟨by rw [log, attempted]; exact inv.recorded, log ▸ inv.attempting, log ▸ inv.unsent, log ▸ inv.answered,
      log ▸ inv.accounted, log ▸ inv.separated⟩
  step := submits_step

end Attempts

/-! ### Every run -/

section Runs
variable {E : Engine} {job : Job} {clock : Time} {calls : Nat → Call} {c : JobConfig} {sched : List JobAction}

/-- A run that records no attempt over another submits again only after a committed retry. -/
theorem submits_separated (ran : semantics.run (E.start job clock calls) sched = some c)
    (first : semantics.Meets FirstAttempt (E.start job clock calls) sched) : SubmitsSeparated c.store.log := by
  obtain ⟨ph, inv, _⟩ := run_invariant submits_preserves (start_any submits_start) first ran
  exact inv.separated

end Runs

/-- Worker 0's submit is told to retry, and worker 1 submits again. -/
def LateMark.resubmitted : List JobAction :=
  [.resume 0 .resolves, .resume 0 .resolves, .resume 0 (.denies none), .resume 0 .resolves, .resume 0 .resolves,
    .resume 0 .resolves, .resume 0 .resolves, .resume 0 (.answers (.retry "busy")), .resume 0 .resolves,
    .resume 0 .resolves, .env (.tick 5000),
    .resume 1 .resolves, .resume 1 .resolves, .resume 1 (.denies none), .resume 1 .resolves, .resume 1 .resolves,
    .resume 1 .resolves, .resume 1 .resolves]

theorem submits_separated_by_retry : ∃ c, semantics.run LateMark.start LateMark.resubmitted = some c ∧
    c.store.log.countP (·.op.submits) = 2 ∧ SubmitsSeparated c.store.log := by
  have twice : (semantics.run LateMark.start LateMark.resubmitted).map (fun c => c.store.log.countP (·.op.submits)) =
      some 2 := by decide
  obtain ⟨c, ran, twice⟩ := Option.map_eq_some_iff.mp twice
  exact ⟨c, ran, twice, submits_separated ran (by decide)⟩

/-- The late mark is followed by a second submit, with the first one's outcome committed as a success. -/
theorem late_mark_resubmits : ¬ ∀ (E : Engine) (job : Job) (clock : Time) (calls : Nat → Call) (sched : List JobAction)
    (c : JobConfig), semantics.run (E.start job clock calls) sched = some c → SubmitsSeparated c.store.log := by
  intro separated
  have ends : (semantics.run LateMark.start
      (LateMark.overtaken ++ [.resume 0 .resolves, .resume 0 .resolves, .resume 0 .resolves])).isSome = true := by decide
  have apart := separated _ _ _ _ _ _ (Option.some_get ends).symm
  have retried := apart [] _ [_, _, _, _] _ _ rfl rfl rfl
  exact absurd (retried_answered retried) (by decide)

end Bike4Mind.GenerationJobs
