import Bike4Mind.GenerationJobs.Leases

/-!
Leases as fences. What keeps two workers apart is which writes the repository checks against the
stored token. A commit is checked; `markSubmitAttempted` is not, and a stale clock read can have the
same token granted twice.
-/

namespace Bike4Mind.GenerationJobs
open Concurrency

/-- The worker that last took the lease, unless a commit has released it since. -/
def leaseHolder : List Entry → Option Nat
  | [] => none
  | e :: earlier =>
    match e.op, e.landed with
    | .acquireLease .., true => some e.worker
    | .commit .., true => none
    | _, _ => leaseHolder earlier

/-- A submit attempt is recorded under the worker's own lease, and no lease is granted under a token
that another unfinished worker carries. -/
def fence (i : Nat) (w : World) : Op → Bool
  | .markSubmitAttempted .. => (held? w.log i).isSome && held? w.log i == w.lease?
  | .acquireLease _ token => w.log.all fun e => e.worker == i || held? w.log e.worker != some token
  | _ => true

def Fenced (i : Nat) (w : World) (op : Op) (x : Choice) : Prop :=
  w.Lands op x = true → fence i w op = true

instance {i : Nat} {w : World} {op : Op} {x : Choice} : Decidable (Fenced i w op x) :=
  inferInstanceAs (Decidable (_ → _))

section Log
variable {i k : Nat} {op : Op} {x : Choice} {landed : Bool} {earlier : List Entry}

theorem holder_kept (idle : landed = false ∨ op.works = false) :
    leaseHolder (⟨i, op, x, landed⟩ :: earlier) = leaseHolder earlier := by
  rcases idle with rfl | idle
  · cases op <;> rfl
  · cases op <;> simp_all [leaseHolder, Op.works]

theorem fence_mark {w : World} {at' : Time} {markRunning : Bool} (h : fence i w (.markSubmitAttempted at' markRunning) = true) :
    ∃ token, held? w.log i = some token ∧ w.lease? = some token := by
  obtain ⟨some', same⟩ := Bool.and_eq_true_iff.mp h
  obtain ⟨token, held⟩ := Option.isSome_iff_exists.mp some'
  exact ⟨token, held, by rw [← eq_of_beq same, held]⟩

theorem fence_acquire {w : World} {now token : Time} (h : fence i w (.acquireLease now token) = true) (other : k ≠ i) :
    held? w.log k ≠ some token := by
  intro held
  obtain ⟨e, member, rfl⟩ := held_logged held
  have clear := List.all_eq_true.mp h e member
  simp [held, other] at clear

end Log

variable {ψ : Type} {E : Engine} {P : SettlementProtocol ψ}

structure Leases (w : World) (ph : Nat → Phase ψ) : Prop extends Carries w ph where
  holder : ∀ i token, (ph i).token? = some token → w.lease? = some token → leaseHolder w.log = some i
  live : ∀ i token job, (ph i).working? = some (token, job) → w.lease? = some token →
    ∀ s, w.state? = some s → s.terminal = false

theorem leases_start {job : Job} {clock : Time} {calls : Nat → Call} :
    Leases (.holding job clock) (fun i => (.idle (calls i) : Phase ψ)) where
  toCarries := carries_start rfl
  holder _ _ claimed := by cases claimed
  live _ _ _ working := by cases working

section Step
variable {i : Nat} {w w' : World} {op : Op} {x : Choice} {reply : Except JsError op.Value} {p q : Phase ψ}
variable {ph : Nat → Phase ψ}

theorem leases_kept (inv : Leases w ph) (carries : Carries w' (Function.update ph i q))
    (holder : leaseHolder w'.log = leaseHolder w.log) (lease : w'.lease? = w.lease?)
    (state : ∀ s, w'.state? = some s → s.terminal = true → w.state? = some s)
    (token : q.token? = none ∨ q.token? = (ph i).token?)
    (working : q.working? = none ∨ q.working? = (ph i).working?) : Leases w' (Function.update ph i q) := by
  refine ⟨carries, fun k t claimed stored => ?_, fun k t job claimed stored s state' => ?_⟩
  · rw [holder]
    refine inv.holder k t ?_ (lease ▸ stored)
    rcases updated_map claimed with ⟨rfl, mine⟩ | ⟨_, claimed⟩
    · rcases token with gone | same
      · rw [gone] at mine; cases mine
      · rwa [← same]
    · exact claimed
  · have before : (ph k).working? = some (t, job) := by
      rcases updated_map claimed with ⟨rfl, mine⟩ | ⟨_, claimed⟩
      · rcases working with gone | same
        · rw [gone] at mine; cases mine
        · rwa [← same]
      · exact claimed
    by_contra terminal
    have terminal : s.terminal = true := by simpa using terminal
    have nonterminal := inv.live k t job before (lease ▸ stored) s (state s state' terminal)
    rw [terminal] at nonterminal
    cases nonterminal

/-- A commit: its caller has no lease afterwards, and if it took effect neither has the job. -/
theorem leases_dropped (inv : Leases w ph) (carries : Carries w' (Function.update ph i q)) (token : q.token? = none)
    (lease : w'.lease? = none ∨
      (w'.lease? = w.lease? ∧ w'.state? = w.state? ∧ leaseHolder w'.log = leaseHolder w.log)) :
    Leases w' (Function.update ph i q) := by
  rcases lease with gone | ⟨lease, state, holder⟩
  · refine ⟨carries, fun k t _ stored => ?_, fun k t job _ stored => ?_⟩ <;> rw [gone] at stored <;> cases stored
  · refine leases_kept inv carries holder lease (fun s stored _ => state ▸ stored) (Or.inl token) (Or.inl ?_)
    cases working : q.working? with
    | none => rfl
    | some held =>
      rw [token_of_working working] at token
      cases token

theorem leases_granted {token : Time} (inv : Leases w ph) (carries : Carries w' (Function.update ph i q))
    (free : ∀ k, k ≠ i → held? w.log k ≠ some token) (lease : w'.lease? = some token)
    (holder : leaseHolder w'.log = some i)
    (granted : q.token? = none ∨ ∃ now job, q = .leased token now job ∧ w'.state? = some job.state) :
    Leases w' (Function.update ph i q) := by
  have own : ∀ k t, (Function.update ph i q k).token? = some t → w'.lease? = some t → k = i := by
    intro k t claimed stored
    by_contra own
    rw [Function.update_of_ne own] at claimed
    have same := Option.some.inj (lease.symm.trans stored)
    exact free k own (same ▸ inv.held k t claimed)
  refine ⟨carries, fun k t claimed stored => ?_, fun k t job claimed stored s state => ?_⟩
  · rw [own k t claimed stored]
    exact holder
  · have carried := token_of_working claimed
    obtain rfl := own k t carried stored
    rw [Function.update_self] at claimed carried
    rcases granted with gone | ⟨now, job', rfl, same⟩
    · rw [gone] at carried
      cases carried
    · simp only [Phase.working?] at claimed
      split at claimed
      · cases claimed
      · rename_i live
        have stored := Option.some.inj (same.symm.trans state)
        rw [← stored]
        simpa using live

theorem leases_step (inv : Leases w ph) (fenced : Fenced i w op x)
    (executed : World.exec i w op x = some (reply, w')) (lives : Lives E P (ph i) op reply q) :
    Leases w' (Function.update ph i q) := by
  obtain ⟨effect, _⟩ := exec_effect executed
  obtain ⟨landed, log⟩ := exec_log executed
  have carries := carries_step inv.toCarries executed lives
  have missed : w'.job = w.job → w'.lease? = w.lease? ∧ w'.state? = w.state? := by
    intro same
    have work : w'.work? = w.work? := by rw [World.work?, World.work?, same]
    exact ⟨World.lease_of_work work, World.state_of_work work⟩
  cases kind : op.works with
  | false =>
    have same := exec_work executed kind
    obtain ⟨token, working, _⟩ := lives_frame lives (by cases op <;> first | rfl | cases kind)
    exact leases_kept inv carries (by rw [log]; exact holder_kept (Or.inr kind))
      (World.lease_of_work same) (fun s state _ => by rwa [World.state_of_work same] at state) token working
  | true =>
    obtain ⟨permitted, rfl⟩ := lives_op lives (by cases op <;> first | rfl | cases kind)
    cases op with
    | createJob input => exact (create_refused permitted).elim
    | acquireLease now token =>
      obtain ⟨_, timed, _⟩ := acquire_timed permitted
      have outcome := acquire_outcome (P := P) executed timed
      cases effect with
      | missed same log =>
        have gone : ((ph i).after P (.acquireLease now token) reply).token? = none := by
          rcases outcome with ⟨gone, _⟩ | ⟨job, _, _, _, granted⟩
          · exact gone
          · rw [log] at granted
            simp at granted
        exact leases_dropped inv carries gone
          (Or.inr ⟨(missed same).1, (missed same).2, by rw [log]; exact holder_kept (Or.inl rfl)⟩)
      | wrote job' written same log lands =>
        obtain ⟨before, stored, _, _, rfl⟩ := written_acquire written
        refine leases_granted inv carries (fun k own => fence_acquire (fenced lands) own)
          (World.lease_of_job same) (by rw [log]; rfl) ?_
        rcases outcome with ⟨gone, _⟩ | ⟨job, leased, _, granted, _⟩
        · exact Or.inl gone
        · exact Or.inr ⟨now, job, leased, World.state_of_job granted⟩
    | commit update guard =>
      refine leases_dropped inv carries (@after_commit ψ P (ph i) update guard reply).1 ?_
      cases effect with
      | missed same log => exact Or.inr ⟨(missed same).1, (missed same).2, by rw [log]; rfl⟩
      | wrote job' written same log lands =>
        obtain ⟨before, _, _, rfl⟩ := written_commit written
        exact Or.inl (World.lease_of_job same)
    | markSubmitAttempted at' markRunning =>
      obtain ⟨token, working, _⟩ := lives_frame lives rfl
      have unled : leaseHolder w'.log = leaseHolder w.log := by
        rw [log]
        rfl
      cases effect with
      | missed same log =>
        exact leases_kept inv carries unled (missed same).1 (fun s state _ => (missed same).2 ▸ state) token working
      | wrote job' written same log lands =>
        obtain ⟨before, stored, _, rfl⟩ := written_mark written
        refine leases_kept inv carries unled ?_ (fun s state terminal => ?_) token working
        · rw [World.lease_of_job same, World.lease_of_job stored]
        · rw [World.state_of_job same] at state
          rw [World.state_of_job stored]
          cases markRunning
          · exact state
          · cases state
            cases terminal
    | _ => cases kind

theorem terminal_step {s : JobState} (inv : Leases w ph) (fenced : Fenced i w op x)
    (executed : World.exec i w op x = some (reply, w')) (lives : Lives E P (ph i) op reply q)
    (stored : w.state? = some s) (terminal : s.terminal = true) : w'.state? = some s := by
  cases kind : op.works with
  | false => rwa [World.state_of_work (exec_work executed kind)]
  | true =>
    obtain ⟨permitted, rfl⟩ := lives_op lives (by cases op <;> first | rfl | cases kind)
    obtain ⟨effect, _⟩ := exec_effect executed
    cases effect with
    | missed job log => rwa [World.state?, World.work?, job]
    | wrote job' written job log lands =>
      rw [World.state_of_job job]
      cases op with
      | createJob input => exact (create_refused permitted).elim
      | acquireLease now token =>
        obtain ⟨before, present, _, _, rfl⟩ := written_acquire written
        rwa [World.state_of_job present] at stored
      | markSubmitAttempted at' markRunning =>
        obtain ⟨token, held, lease⟩ := fence_mark (fenced lands)
        obtain ⟨own, now, job, handler, phase, _, _, pending, _, _⟩ := mark_leased permitted
        have carried := inv.held i own (by rw [phase]; rfl)
        obtain rfl := Option.some.inj (carried.symm.trans held)
        have working : (ph i).working? = some (own, job) := by
          simp [phase, Phase.working?, pending, JobState.terminal]
        have live := inv.live i own job working lease s stored
        rw [terminal] at live
        cases live
      | commit update guard =>
        obtain ⟨before, present, passes, rfl⟩ := written_commit written
        have lease := World.lease_of_job present
        rw [World.state_of_job present] at stored
        rcases commit_cases permitted with ⟨_, now, _, rfl, _⟩ | ⟨token, rfl, claimed, release | ⟨job, working⟩⟩
        · simp only [CommitGuard.filter, Bool.and_eq_true, beq_iff_eq] at passes
          rw [passes.1.1] at stored
          cases stored
          cases terminal
        · rw [release]
          exact stored
        · have current : before.leaseUntil = some token := by simpa [CommitGuard.filter] using passes
          have live := inv.live i token job working (lease.trans current) s
            ((World.state_of_job present).trans stored)
          rw [terminal] at live
          cases live
      | _ => cases kind

theorem overtaken_step (inv : Leases w ph) (fenced : Fenced i w op x)
    (executed : World.exec i w op x = some (reply, w')) (lives : Lives E P (ph i) op reply q)
    (held : held? w.log i ≠ none) (lost : leaseHolder w.log ≠ some i) : w'.work? = w.work? := by
  cases kind : op.works with
  | false => exact exec_work executed kind
  | true =>
    obtain ⟨permitted, rfl⟩ := lives_op lives (by cases op <;> first | rfl | cases kind)
    obtain ⟨effect, _⟩ := exec_effect executed
    cases effect with
    | missed job log => rw [World.work?, World.work?, job]
    | wrote job' written job log lands =>
      exfalso
      cases op with
      | createJob input => exact (create_refused permitted).elim
      | acquireLease now token =>
        obtain ⟨_, timed, _⟩ := acquire_timed permitted
        exact held (inv.fresh i (by rw [timed]; rfl))
      | markSubmitAttempted at' markRunning =>
        obtain ⟨token, carried, lease⟩ := fence_mark (fenced lands)
        obtain ⟨own, now, job, handler, phase, _⟩ := mark_leased permitted
        have claimed : (ph i).token? = some own := by rw [phase]; rfl
        obtain rfl := Option.some.inj ((inv.held i own claimed).symm.trans carried)
        exact lost (inv.holder i own claimed lease)
      | commit update guard =>
        obtain ⟨before, present, passes, _⟩ := written_commit written
        rcases commit_cases permitted with ⟨_, _, timed, _⟩ | ⟨token, rfl, claimed, _⟩
        · exact held (inv.fresh i (by rw [timed]; rfl))
        · have current : before.leaseUntil = some token := by simpa [CommitGuard.filter] using passes
          exact lost (inv.holder i token claimed ((World.lease_of_job present).trans current))
      | _ => cases kind

end Step

/-! ### Every run -/

section Runs
variable {job : Job} {clock : Time} {calls : Nat → Call} {c₁ c₂ : JobConfig} {before after : List JobAction}

theorem leases_move {w w' : World} {e : World.Move} {ph : Nat → Phase ψ} (inv : Leases w ph) (moved : w.move e = some w') :
    Leases w' ph := by
  obtain ⟨job, log, _⟩ := World.move_some moved
  refine ⟨⟨log ▸ inv.fresh, log ▸ inv.held⟩, ?_, ?_⟩
  · rw [World.lease?, World.work?, job, log]
    exact inv.holder
  · rw [World.lease?, World.state?, World.work?, job]
    exact inv.live

theorem leases_preserves : Preserves semantics (Lives E P) Fenced Leases where
  env := leases_move
  step := leases_step

theorem terminal_preserves {s : JobState} (terminal : s.terminal = true) :
    Preserves semantics (Lives E P) Fenced (fun w ph => Leases w ph ∧ w.state? = some s) where
  env inv moved := by
    refine ⟨leases_move inv.1 moved, ?_⟩
    rw [World.state?, World.work?, (World.move_some moved).1]
    exact inv.2
  step inv fenced executed lives :=
    ⟨leases_step inv.1 fenced executed lives, terminal_step inv.1 fenced executed lives inv.2 terminal⟩

/-- Terminal states absorb, and a worker that lost its lease writes no more work, in every run of
fenced writes. -/
theorem terminal_absorbed (reached : semantics.run (E.start job clock calls) before = some c₁)
    (continued : semantics.run c₁ after = some c₂)
    (fenced : semantics.Meets Fenced (E.start job clock calls) (before ++ after)) :
    (∀ s, c₁.store.state? = some s → s.terminal = true → c₂.store.state? = some s) ∧
      ∀ i x rest c, after = .resume i x :: rest → semantics.step c₁ (.resume i x) = some c →
        held? c₁.store.log i ≠ none → leaseHolder c₁.store.log ≠ some i → c.store.work? = c₁.store.work? := by
  obtain ⟨early, late⟩ := (Semantics.meets_append reached).mp fenced
  obtain ⟨ph, inv, follows⟩ := run_invariant leases_preserves (start_any leases_start) early reached
  constructor
  · intro s stored terminal
    have tracked : Tracked (Lives E anySettlement) Ended (fun w ph => Leases w ph ∧ w.state? = some s) c₁ :=
      ⟨ph, ⟨inv, stored⟩, follows⟩
    obtain ⟨_, ⟨_, kept⟩, _⟩ := run_invariant (terminal_preserves terminal) tracked late continued
    exact kept
  · rintro i x rest c rfl stepped held lost
    obtain ⟨op, next, reply, store, atAwait, executed, rfl⟩ := Semantics.resume_some stepped
    have here := follows i
    rw [atAwait] at here
    obtain ⟨q, lives, _⟩ := here reply
    exact overtaken_step inv (late.1 op next atAwait) executed lives held lost

end Runs

/-! ### A late submit mark -/

namespace LateMark

def payload : Payload := { request := "", model := "", providerId := "" }

def engine : Engine := generationJobEngine (fun _ => ⟨.finite 1, some 1⟩) (fun _ => ⟨.finite 1, some 1⟩)

def start : JobConfig := engine.start (musicJobInput "job" "user" none payload none none 0) 0 fun _ => .step none

/-- Worker 0 stalls past its lease before it records its attempt, and worker 1 finishes the job. -/
def overtaken : List JobAction :=
  [.resume 0 .resolves, .resume 0 .resolves, .resume 0 (.denies none), .resume 0 .resolves,
    .env (.tick 330001),
    .resume 1 .resolves, .resume 1 .resolves, .resume 1 (.denies none), .resume 1 .resolves, .resume 1 .resolves,
    .resume 1 .resolves, .resume 1 .resolves, .resume 1 (.answers (.succeeded payload)), .resume 1 .resolves]

end LateMark

/-- The run up to worker 0's mark is fenced, and stays so if that mark never reaches the database. -/
theorem terminal_absorbed_unless_marked : ∃ c₁ c₂, semantics.run LateMark.start LateMark.overtaken = some c₁ ∧
    semantics.step c₁ (.resume 0 (.rejects (.error "connection lost") false)) = some c₂ ∧
    c₁.store.state? = some .succeeded ∧ c₂.store.state? = some .succeeded ∧ c₂.store.work? = c₁.store.work? := by
  have whole : (semantics.run LateMark.start
      (LateMark.overtaken ++ [.resume 0 (.rejects (.error "connection lost") false)])).isSome = true := by decide
  obtain ⟨c₂, ran⟩ := Option.isSome_iff_exists.mp whole
  obtain ⟨c₁, reached, continued⟩ := Semantics.run_append.mp ran
  obtain ⟨c, stepped, ended⟩ := Semantics.run_cons.mp continued
  cases ended
  have state : (semantics.run LateMark.start LateMark.overtaken).map (·.store.state?) = some (some .succeeded) := by decide
  have held : (semantics.run LateMark.start LateMark.overtaken).map (fun c => held? c.store.log 0) = some (some 330000) := by
    decide
  have holder : (semantics.run LateMark.start LateMark.overtaken).map (fun c => leaseHolder c.store.log) = some none := by
    decide
  rw [reached] at state held holder
  have held : held? c₁.store.log 0 = some 330000 := Option.some.inj held
  have holder : leaseHolder c₁.store.log = none := Option.some.inj holder
  obtain ⟨absorbed, frozen⟩ := terminal_absorbed reached continued (by decide)
  exact ⟨c₁, c₂, reached, stepped, Option.some.inj state, absorbed _ (Option.some.inj state) rfl,
    frozen 0 _ [] c₂ rfl stepped (by simp [held]) (by simp [holder])⟩

/-- Without the fence, worker 0's mark takes the job back to `running`. -/
theorem late_mark_reopens : ¬ ∀ (E : Engine) (job : Job) (clock : Time) (calls : Nat → Call) (before after : List JobAction)
    (c₁ c₂ : JobConfig), semantics.run (E.start job clock calls) before = some c₁ → semantics.run c₁ after = some c₂ →
    ∀ s, c₁.store.state? = some s → s.terminal = true → c₂.store.state? = some s := by
  intro absorbs
  have first : (semantics.run LateMark.start LateMark.overtaken).map (·.store.state?) = some (some .succeeded) := by decide
  have second : (semantics.run LateMark.start (LateMark.overtaken ++ [.resume 0 .resolves])).map (·.store.state?) =
      some (some .running) := by decide
  obtain ⟨c₂, ran, running⟩ := Option.map_eq_some_iff.mp second
  obtain ⟨c₁, reached, continued⟩ := Semantics.run_append.mp ran
  rw [reached] at first
  have kept := absorbs _ _ _ _ _ _ c₁ c₂ reached continued _ (Option.some.inj first) rfl
  rw [running] at kept
  cases kept

end Bike4Mind.GenerationJobs
