import Bike4Mind.GenerationJobs.Effects

/-!
Which worker carries which lease. A step reads its token once, from the acquire that granted it, and
carries it to its commit; whether the token is still the stored one is another matter.
-/

namespace Bike4Mind.GenerationJobs
open Concurrency

/-- The lease a worker was granted and has not committed under since. -/
def held? : List Entry → Nat → Option Time
  | [], _ => none
  | e :: earlier, i =>
    if e.worker = i then
      match e.op, e.choice, e.landed with
      | .acquireLease _ token, .resolves, true => some token
      | .commit .., _, _ => none
      | _, _, _ => held? earlier i
    else held? earlier i

section Log
variable {i k : Nat} {op : Op} {x : Choice} {landed : Bool} {earlier : List Entry}

theorem held_other (other : k ≠ i) : held? (⟨i, op, x, landed⟩ :: earlier) k = held? earlier k := by
  simp only [held?]
  rw [if_neg (fun same => other same.symm)]

theorem held_kept (idle : op.works = false) : held? (⟨i, op, x, landed⟩ :: earlier) k = held? earlier k := by
  by_cases own : k = i
  · subst own
    cases op <;> simp_all [held?, Op.works]
  · exact held_other own

theorem held_marked {at' : Time} {markRunning : Bool} :
    held? (⟨i, .markSubmitAttempted at' markRunning, x, landed⟩ :: earlier) k = held? earlier k := by
  simp [held?]

theorem held_logged {log : List Entry} {token : Time} (held : held? log k = some token) : ∃ e ∈ log, e.worker = k := by
  induction log with
  | nil => cases held
  | cons e earlier ih =>
    by_cases own : e.worker = k
    · exact ⟨e, List.mem_cons_self, own⟩
    · simp only [held?, if_neg own] at held
      obtain ⟨e', member, own⟩ := ih held
      exact ⟨e', List.mem_cons_of_mem _ member, own⟩

end Log

variable {ψ : Type} {E : Engine} {P : SettlementProtocol ψ}

/-- Before its acquire or its `failBeforeStart` commit. -/
def Phase.fresh : Phase ψ → Bool
  | .idle _ | .timed .. => true
  | _ => false

structure Carries (w : World) (ph : Nat → Phase ψ) : Prop where
  fresh : ∀ i, (ph i).fresh = true → held? w.log i = none
  held : ∀ i token, (ph i).token? = some token → held? w.log i = some token

section Step
variable {i : Nat} {w w' : World} {op : Op} {x : Choice} {reply : Except JsError op.Value} {p q : Phase ψ}

theorem after_fresh (permitted : Permits E p op) (fresh : (p.after P op reply).fresh = true) : p.fresh = true := by
  cases permitted with
  | inert h => rwa [after_inert h] at fresh
  | now => cases p <;> cases reply <;> first | rfl | exact fresh
  | acquireLease | failBeforeStart | requestCancel => rfl
  | release | giveUp | refuse | answer | close =>
    rcases reply with e | (_ | job)
    · cases fresh
    · cases fresh
    · rw [after_committed] at fresh
      split at fresh <;> cases fresh
  | markSubmitAttempted => rcases reply with e | (_ | job) <;> cases fresh
  | claimLeased | claimTerminated => rcases reply with e | (_ | _) <;> cases fresh
  | @markTerminalHandled lease => cases reply <;> cases lease <;> cases fresh
  | _ => cases reply <;> cases fresh

theorem token_of_working {token : Time} {job : Job} (working : p.working? = some (token, job)) :
    p.token? = some token := by
  cases p with
  | leased =>
    simp only [Phase.working?] at working
    split at working
    · cases working
    · cases working
      rfl
  | refused | attempted | submitted | answered => cases working; rfl
  | _ => cases working

/-- The commits a call may make: under its lease, to end or advance a job it works on or just to
release it, and without a lease only to fail a job nobody started. -/
theorem commit_cases {update : Commit} {guard : CommitGuard} (permitted : Permits E p (.commit update guard)) :
    (∃ error now, p = .timed (.failBeforeStart error) now ∧ guard = .unstarted now ∧ Terminates .failed update) ∨
      ∃ token, guard = .lease token ∧ p.token? = some token ∧ (update = {} ∨ ∃ job, p.working? = some (token, job)) := by
  cases permitted with
  | inert h => cases h
  | @failBeforeStart error now _ terminates => exact Or.inl ⟨error, now, rfl, rfl, terminates⟩
  | release | close => exact Or.inr ⟨_, rfl, rfl, Or.inl rfl⟩
  | @giveUp token now job _ _ live => exact Or.inr ⟨token, rfl, rfl, Or.inr ⟨job, by simp [Phase.working?, live]⟩⟩
  | @refuse token job | @answer token job => exact Or.inr ⟨token, rfl, rfl, Or.inr ⟨job, rfl⟩⟩

/-- Apart from an acquire, a step leaves a call with what it carried or with nothing. -/
theorem lives_frame (lives : Lives E P p op reply q) (grants : op.acquires = false) :
    (q.token? = none ∨ q.token? = p.token?) ∧ (q.working? = none ∨ q.working? = p.working?) ∧
      (q.fresh = true → p.fresh = true) := by
  cases lives with
  | op permitted => exact ⟨after_token permitted grants, after_working permitted grants, after_fresh permitted⟩
  | settlement => exact ⟨Or.inr rfl, Or.inr rfl, id⟩

theorem create_refused {input : Job} (permitted : Permits E p (.createJob input)) : False := by
  cases permitted with
  | inert h => cases h

/-- A submit is recorded by a worker of a pending job that was never submitted nor cancelled when it was leased. -/
theorem mark_leased {at' : Time} {markRunning : Bool} (permitted : Permits E p (.markSubmitAttempted at' markRunning)) :
    ∃ token now job handler, p = .leased token now job ∧ E.handlers job.kind = some handler ∧
      markRunning = (handler.submitMode == .sync) ∧ job.state = .pending ∧ job.submitAttemptedAt = none ∧
      job.cancelRequested = false := by
  cases permitted with
  | inert h => cases h
  | @markSubmitAttempted token now job handler _ found pending unsubmitted wanted =>
    exact ⟨token, now, job, handler, rfl, found, rfl, pending, unsubmitted, wanted⟩

theorem acquire_timed {now token : Time} (permitted : Permits E p (.acquireLease now token)) :
    ∃ remainingMs, p = .timed (.step remainingMs) now ∧ token = now + E.leaseMs := by
  cases permitted with
  | inert h => cases h
  | acquireLease => exact ⟨_, rfl, rfl⟩

/-- An acquire grants the lease it stored, or leaves its caller with nothing. -/
theorem acquire_outcome {now token : Time} {call : Call} {reply : Except JsError (Option Job)}
    (executed : World.exec i w (.acquireLease now token) x = some (reply, w')) (timed : p = .timed call now) :
    ((p.after P (.acquireLease now token) reply).token? = none ∧ (p.after P (.acquireLease now token) reply).fresh = false) ∨
      ∃ job, p.after P (.acquireLease now token) reply = .leased token now job ∧
        w.written (.acquireLease now token) = some job ∧ w'.job = some job ∧
        w'.log = ⟨i, .acquireLease now token, .resolves, true⟩ :: w.log := by
  rw [timed]
  rcases reply with e | (_ | job)
  · exact Or.inl ⟨rfl, rfl⟩
  · exact Or.inl ⟨rfl, rfl⟩
  · obtain ⟨written, log, stored⟩ := exec_document .acquireLease executed
    have resolved : x = .resolves := by
      obtain ⟨found, _⟩ := exec_ok executed
      cases x <;> first | rfl | cases found
    exact Or.inr ⟨job, rfl, written, stored, by rw [log, resolved]; rfl⟩

/-- A commit, whatever becomes of it, leaves its caller without a lease. -/
theorem after_commit {update : Commit} {guard : CommitGuard} {reply : Except JsError (Option Job)} :
    (p.after P (.commit update guard) reply).token? = none ∧ (p.after P (.commit update guard) reply).fresh = false := by
  rcases reply with e | (_ | job)
  · cases p <;> exact ⟨rfl, rfl⟩
  · cases p <;> exact ⟨rfl, rfl⟩
  · rw [after_committed]
    split <;> exact ⟨rfl, rfl⟩

theorem carries_start {calls : Nat → Call} {w : World} (unlogged : w.log = []) :
    Carries w (fun i => (.idle (calls i) : Phase ψ)) where
  fresh _ _ := by rw [unlogged]; rfl
  held _ _ claimed := by cases claimed

theorem carries_step {ph : Nat → Phase ψ} (inv : Carries w ph) (executed : World.exec i w op x = some (reply, w'))
    (lives : Lives E P (ph i) op reply q) : Carries w' (Function.update ph i q) := by
  obtain ⟨landed, log⟩ := exec_log executed
  have own : (q.fresh = true → held? w'.log i = none) ∧ ∀ token, q.token? = some token → held? w'.log i = some token := by
    have quiet : held? w'.log i = held? w.log i → op.acquires = false →
        (q.fresh = true → held? w'.log i = none) ∧ ∀ token, q.token? = some token → held? w'.log i = some token := by
      intro same grants
      obtain ⟨tokens, _, fresh⟩ := lives_frame lives grants
      rw [same]
      refine ⟨fun early => inv.fresh i (fresh early), fun token claimed => inv.held i token ?_⟩
      rcases tokens with gone | kept
      · rw [gone] at claimed
        cases claimed
      · rwa [← kept]
    cases op with
    | createJob input => exact (create_refused (lives_op lives rfl).1).elim
    | acquireLease now token =>
      obtain ⟨permitted, rfl⟩ := lives_op lives rfl
      obtain ⟨_, timed, _⟩ := acquire_timed permitted
      rcases acquire_outcome (P := P) executed timed with ⟨gone, late⟩ | ⟨job, leased, _, _, granted⟩
      · rw [gone, late]
        exact ⟨fun early => (by cases early), fun _ claimed => (by cases claimed)⟩
      · rw [leased]
        refine ⟨fun early => (by cases early), fun token' claimed => ?_⟩
        cases claimed
        simp [granted, held?]
    | commit update guard =>
      obtain ⟨_, rfl⟩ := lives_op lives rfl
      obtain ⟨gone, late⟩ := @after_commit ψ P (ph i) update guard reply
      rw [gone, late]
      exact ⟨fun early => (by cases early), fun _ claimed => (by cases claimed)⟩
    | markSubmitAttempted at' markRunning => exact quiet (by rw [log]; exact held_marked) rfl
    | _ => exact quiet (by rw [log]; exact held_kept rfl) rfl
  constructor
  · intro k early
    by_cases mine : k = i
    · subst mine
      exact own.1 (by rwa [Function.update_self] at early)
    · rw [Function.update_of_ne mine] at early
      rw [log, held_other mine]
      exact inv.fresh k early
  · intro k token claimed
    by_cases mine : k = i
    · subst mine
      exact own.2 token (by rwa [Function.update_self] at claimed)
    · rw [Function.update_of_ne mine] at claimed
      rw [log, held_other mine]
      exact inv.held k token claimed

end Step

section Runs
variable {job : Job} {clock : Time} {calls : Nat → Call}

/-- The calls of an engine, tracked from their first await. -/
theorem start_tracked {I : World → (Nat → Phase ψ) → Prop}
    (keeps : ∀ kind handler, E.handlers kind = some handler → handler.Keeps P)
    (initial : I (.holding job clock) fun i => .idle (calls i)) :
    Tracked (Lives E P) Ended I (E.start job clock calls) :=
  ⟨fun i => .idle (calls i), initial, fun i => program_follows keeps (calls i)⟩

theorem start_any {I : World → (Nat → Phase Unit) → Prop} (initial : I (.holding job clock) fun i => .idle (calls i)) :
    Tracked (Lives E anySettlement) Ended I (E.start job clock calls) :=
  start_tracked (fun _ handler _ => keeps_any handler) initial

end Runs
end Bike4Mind.GenerationJobs
