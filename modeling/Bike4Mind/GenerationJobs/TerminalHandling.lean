import Bike4Mind.Credits.CreditCalls
import Bike4Mind.GenerationJobs.Fencing

/-!
Terminal handling happens once. `claimTerminalHandling` is the only way into it and its filter
matches once in a job's life, so whatever only the claimant may do is done at most once, by whatever
path the claim was reached.
-/

namespace Bike4Mind.GenerationJobs
open Concurrency Credits

/-- How many operations of a kind were started. -/
def World.times (w : World) (kind : Op → Bool) : Nat := w.log.countP fun e => kind e.op

def World.claimedAt? (w : World) : Option Time := w.job.bind Job.terminalHandlingClaimedAt

def Op.startsTerminal : Op → Bool
  | .onTerminal _ => true
  | _ => false

/-- The start of a handler's `releaseJobHold` or `settleJobHold`. -/
def SettlementOp.starts : SettlementOp → Bool
  | .releaseJobHold | .settleJobHold _ => true
  | _ => false

def Op.settles : Op → Bool
  | .settlement op => op.starts
  | _ => false

section Once
variable {ψ : Type} {E : Engine} {P : SettlementProtocol ψ}

namespace Phase

/-- Past the claim and not past `onTerminal`. -/
def opened : Phase ψ → Bool
  | .claimed .. | .handling .. => true
  | _ => false

def claimant : Phase ψ → Bool
  | .claimed .. => true
  | _ => false

/-- May still start the settlement of the hold. -/
def unsettled : Phase Bool → Bool
  | .claimed .. => true
  | .handling _ _ settled => !settled
  | _ => false

end Phase

/-- Operations that only a call in a phase of `before` performs, and that take it out of `before`. -/
structure Onceable (E : Engine) (P : SettlementProtocol ψ) (kind : Op → Bool) (before : Phase ψ → Bool) : Prop where
  opened : ∀ {p}, before p = true → p.opened = true
  unclaimed : ∀ {at'}, kind (.claimTerminalHandling at') = false
  entered : ∀ {p op reply q}, Lives E P p op reply q → op.claims = false →
    before q = true → before p = true
  spent : ∀ {p op reply q}, Lives E P p op reply q → kind op = true → before p = true ∧ before q = false

/-- Nobody claims twice, and what only claimants do has been done at most once. -/
structure Once (kind : Op → Bool) (before : Phase ψ → Bool) (w : World) (ph : Nat → Phase ψ) : Prop where
  alone : ∀ i k, (ph i).opened = true → (ph k).opened = true → i = k
  unclaimed : w.claimedAt? = none → w.times kind = 0 ∧ ∀ i, (ph i).opened = false
  waiting : ∀ i, before (ph i) = true → w.times kind = 0
  once : w.times kind ≤ 1

variable {i : Nat} {w w' : World} {op : Op} {x : Choice} {reply : Except JsError op.Value} {p q : Phase ψ}
variable {kind : Op → Bool} {before : Phase ψ → Bool}

theorem times_exec (executed : World.exec i w op x = some (reply, w')) (kind : Op → Bool) :
    w'.times kind = w.times kind + if kind op then 1 else 0 := by
  obtain ⟨landed, log⟩ := exec_log executed
  rw [World.times, World.times, log, List.countP_cons]

/-- A claim is never taken back. -/
theorem claimed_exec (executed : World.exec i w op x = some (reply, w')) (unclaimed : w'.claimedAt? = none) :
    w.claimedAt? = none := by
  obtain ⟨effect, _⟩ := exec_effect executed
  cases effect with
  | missed job log => rwa [World.claimedAt?, job] at unclaimed
  | wrote job' written job log lands =>
    have unclaimed : job'.terminalHandlingClaimedAt = none := by simpa [World.claimedAt?, job] using unclaimed
    cases creates : op.creates with
    | true =>
      cases op with
      | createJob input => simp [World.claimedAt?, written_create written]
      | _ => cases creates
    | false =>
      obtain ⟨before, stored, framed⟩ := written_framed written creates
      cases claims : op.claims with
      | true =>
        cases op with
        | claimTerminalHandling at' =>
          obtain ⟨_, _, _, _, rfl⟩ := written_claim written
          cases unclaimed
        | _ => cases claims
      | false => simpa [World.claimedAt?, stored, framed.claimedAt claims] using unclaimed

/-- How a call that is past its claim got there by an operation other than the claim. -/
inductive Onward (P : SettlementProtocol ψ) : Phase ψ → (op : Op) → Except JsError op.Value → Phase ψ → Prop
  | stayed {p : Phase ψ} {op : Op} {reply : Except JsError op.Value} (neither : op.startsTerminal = false ∧ op.settles = false) : Onward P p op reply p
  | handed {lease : Option Time} {job : Job} {reply : Except JsError Unit} : Onward P (.claimed lease job) (.onTerminal job) reply (.handling lease job (P.start job))
  | settled {lease : Option Time} {job : Job} {settled settled' : ψ} {op : SettlementOp} {reply : Except JsError op.Value}
      (h : P.next settled op reply settled') :
      Onward P (.handling lease job settled) (.settlement op) reply (.handling lease job settled')

theorem onward (lives : Lives E P p op reply q) (other : op.claims = false) (opened : q.opened = true) :
    Onward P p op reply q := by
  cases lives with
  | settlement h => exact .settled h
  | op permitted =>
    cases permitted with
    | inert h =>
      rw [after_inert h]
      exact .stayed (by cases op <;> first | exact ⟨rfl, rfl⟩ | cases h)
    | now => cases p <;> cases reply <;> first | exact .stayed ⟨rfl, rfl⟩ | cases opened
    | acquireLease => rcases reply with e | (_ | job) <;> cases opened
    | requestCancel => rcases reply with e | (_ | job) <;> cases opened
    | failBeforeStart | release | giveUp | refuse | answer | close =>
      rcases reply with e | (_ | job)
      · cases opened
      · cases opened
      · rw [after_committed] at opened
        split at opened <;> cases opened
    | markSubmitAttempted => rcases reply with e | (_ | job) <;> cases opened
    | claimLeased | claimTerminated => cases other
    | onTerminal =>
      cases reply with
      | error e => cases opened
      | ok v => exact .handed
    | @markTerminalHandled lease => cases reply <;> cases lease <;> cases opened
    | _ => cases reply <;> cases opened

theorem claim_won {at' : Time} {reply : Except JsError Bool}
    (executed : World.exec i w (.claimTerminalHandling at') x = some (reply, w'))
    (opened : (p.after P (.claimTerminalHandling at') reply).opened = true) : w.claimedAt? = none ∧ w'.claimedAt? ≠ none := by
  have won : reply = .ok true := by
    rcases reply with e | (_ | _)
    · cases p <;> cases opened
    · cases p <;> cases opened
    · rfl
  subst won
  obtain ⟨found, rfl⟩ := exec_ok executed
  cases x with
  | resolves =>
    have landed : (w.written (.claimTerminalHandling at')).isSome = true := Option.some.inj found
    obtain ⟨job', written⟩ := Option.isSome_iff_exists.mp landed
    obtain ⟨job, stored, _, unclaimed, rfl⟩ := written_claim written
    constructor
    · simp [World.claimedAt?, stored, unclaimed]
    · simp [World.claimedAt?, World.record, World.apply, written]
  | _ => cases found

theorem opened_before (lives : Lives E P p op reply q) (other : op.claims = false) (opened : q.opened = true) :
    p.opened = true := by
  cases onward lives other opened with
  | stayed => exact opened
  | handed | settled => rfl

theorem once_step {ph : Nat → Phase ψ} (onceable : Onceable E P kind before) (inv : Once kind before w ph)
    (executed : World.exec i w op x = some (reply, w')) (lives : Lives E P (ph i) op reply q) :
    Once kind before w' (Function.update ph i q) := by
  have times := times_exec executed kind
  cases claims : op.claims with
  | true =>
    cases op with
    | claimTerminalHandling at' =>
      rw [onceable.unclaimed, if_neg (by simp), Nat.add_zero] at times
      have only : ∀ k, (Function.update ph i q k).opened = true → k ≠ i → (ph k).opened = true :=
        fun k opened own => by rwa [Function.update_of_ne own] at opened
      obtain ⟨permitted, rfl⟩ := lives_op lives rfl
      cases opened : ((ph i).after P (.claimTerminalHandling at') reply).opened with
      | true =>
        obtain ⟨unclaimed, claimed⟩ := claim_won executed opened
        obtain ⟨never, closed⟩ := inv.unclaimed unclaimed
        have alone : ∀ k, (Function.update ph i ((ph i).after P (.claimTerminalHandling at') reply) k).opened = true → k = i := by
          intro k opened
          by_contra own
          have open' := only k opened own
          rw [closed k] at open'
          cases open'
        refine ⟨fun k l openedK openedL => (alone k openedK).trans (alone l openedL).symm, fun none => (claimed none).elim,
          fun _ _ => times.trans never, by omega⟩
      | false =>
        have before' : ∀ k, (Function.update ph i ((ph i).after P (.claimTerminalHandling at') reply) k).opened = true →
            k ≠ i ∧ (ph k).opened = true := by
          intro k openedK
          by_cases own : k = i
          · subst own
            rw [Function.update_self, opened] at openedK
            cases openedK
          · exact ⟨own, only k openedK own⟩
        refine ⟨fun k l openedK openedL => inv.alone k l (before' k openedK).2 (before' l openedL).2, fun none => ?_, fun k waits => ?_,
          by have := inv.once; omega⟩
        · obtain ⟨never, closed⟩ := inv.unclaimed (claimed_exec executed none)
          refine ⟨times.trans never, fun k => ?_⟩
          by_contra openedK
          have open' := (before' k (by simpa using openedK)).2
          rw [closed k] at open'
          cases open'
        · have own := (before' k (onceable.opened waits)).1
          rw [Function.update_of_ne own] at waits
          exact times.trans (inv.waiting k waits)
    | _ => cases claims
  | false =>
    have kept : ∀ k, (Function.update ph i q k).opened = true → (ph k).opened = true := by
      intro k opened
      rcases updated_map opened with ⟨rfl, mine⟩ | ⟨_, opened⟩
      · exact opened_before lives claims mine
      · exact opened
    cases counted : kind op with
    | true =>
      obtain ⟨waits, left⟩ := onceable.spent lives counted
      have never := inv.waiting i waits
      have opened := onceable.opened waits
      refine ⟨fun k l openedK openedL => inv.alone k l (kept k openedK) (kept l openedL), fun none => ?_, fun k waitsK => ?_, ?_⟩
      · have closed := (inv.unclaimed (claimed_exec executed none)).2 i
        rw [opened] at closed
        cases closed
      · have own : k = i := inv.alone k i (kept k (onceable.opened waitsK)) opened
        subst own
        rw [Function.update_self, left] at waitsK
        cases waitsK
      · rw [times, counted, never]
        exact le_refl 1
    | false =>
      rw [counted, if_neg (by simp), Nat.add_zero] at times
      refine ⟨fun k l openedK openedL => inv.alone k l (kept k openedK) (kept l openedL), fun none => ?_, fun k waits => ?_,
        by have := inv.once; omega⟩
      · obtain ⟨never, closed⟩ := inv.unclaimed (claimed_exec executed none)
        refine ⟨times.trans never, fun k => ?_⟩
        by_contra opened
        have open' := kept k (by simpa using opened)
        rw [closed k] at open'
        cases open'
      · refine times.trans (inv.waiting k ?_)
        rcases updated_map waits with ⟨rfl, mine⟩ | ⟨_, waits⟩
        · exact onceable.entered lives claims mine
        · exact waits

theorem once_start {calls : Nat → Call} {job : Job} {clock : Time} (onceable : Onceable E P kind before) :
    Once kind before (World.holding job clock) (fun i => (.idle (calls i) : Phase ψ)) where
  alone _ _ opened := by cases opened
  unclaimed _ := ⟨rfl, fun _ => rfl⟩
  waiting i waits := by cases onceable.opened waits
  once := Nat.zero_le _

theorem once_move {e : World.Move} {ph : Nat → Phase ψ} (inv : Once kind before w ph) (moved : w.move e = some w') :
    Once kind before w' ph := by
  obtain ⟨job, log, _⟩ := World.move_some moved
  have times : w'.times kind = w.times kind := by rw [World.times, World.times, log]
  have claimed : w'.claimedAt? = w.claimedAt? := by rw [World.claimedAt?, World.claimedAt?, job]
  exact ⟨inv.alone, by rw [times, claimed]; exact inv.unclaimed, by rw [times]; exact inv.waiting, by rw [times]; exact inv.once⟩

theorem once_preserves {cond : Nat → World → Op → Choice → Prop} (onceable : Onceable E P kind before) :
    Preserves semantics (Lives E P) cond (Once kind before) where
  env := once_move
  step inv _ executed lives := once_step onceable inv executed lives

theorem starts_onceable : Onceable E P Op.startsTerminal Phase.claimant where
  opened {p} waits := by cases p <;> first | rfl | cases waits
  unclaimed := rfl
  entered {p op reply q} lives other waits := by
    have opened : q.opened = true := by cases q <;> first | rfl | cases waits
    cases onward lives other opened with
    | stayed => exact waits
    | handed | settled => cases waits
  spent {p op reply q} lives counted := by
    cases op with
    | onTerminal job =>
      obtain ⟨permitted, rfl⟩ := lives_op lives rfl
      cases permitted with
      | inert h => cases h
      | onTerminal => cases reply <;> exact ⟨rfl, rfl⟩
    | _ => cases counted

/-- Terminal handling that performs the operations of one kind at most once. -/
def onceOnly (kind : SettlementOp → Bool) : SettlementProtocol Bool where
  start _ := false
  next done op _ done' := if kind op then done = false ∧ done' = true else done' = done

theorem settles_onceable : Onceable E (onceOnly SettlementOp.starts) Op.settles Phase.unsettled where
  opened {p} waits := by cases p <;> first | rfl | cases waits
  unclaimed := rfl
  entered {p op reply q} lives other waits := by
    have opened : q.opened = true := by cases q <;> first | rfl | cases waits
    cases onward lives other opened with
    | stayed => exact waits
    | handed => rfl
    | @settled _ _ settled settled' op _ h =>
      simp only [onceOnly] at h
      split at h
      · obtain ⟨_, rfl⟩ := h
        cases waits
      · rwa [h] at waits
  spent {p op reply q} lives counted := by
    cases lives with
    | op permitted =>
      cases permitted with
      | inert h => cases op <;> first | cases counted | cases h
      | _ => cases counted
    | @settlement _ _ settled settled' op _ h =>
      have starts : op.starts = true := counted
      obtain ⟨rfl, rfl⟩ : settled = false ∧ settled' = true := by simpa [onceOnly, starts] using h
      exact ⟨rfl, rfl⟩

/-! ### The settlement of the hold -/

section Settlement

theorem quiet_follows {α : Type} {kind : SettlementOp → Bool} {program : Settlement α} {done : Bool}
    (quiet : Only (fun op => kind op = false) program) :
    Follows (onceOnly kind).next (fun _ q => q = done) program done :=
  quiet.follows (fun op reply other => by simp [onceOnly, other]) fun _ => rfl

theorem once_follows {α : Type} {kind : SettlementOp → Bool} {op : SettlementOp} {rest : op.Value → Settlement α}
    (counted : kind op = true) (quiet : ∀ v, Only (fun op => kind op = false) (rest v)) :
    Follows (onceOnly kind).next (fun _ q => q = true) ((Program.perform op).bind rest) false := by
  have once : (onceOnly kind).next false op = fun _ q => q = true := by
    funext reply q
    simp [onceOnly, counted]
  exact follows_then (fun v => ⟨true, by rw [once], quiet_follows (quiet v)⟩) (fun e => ⟨true, by rw [once], rfl⟩)

theorem credit_only (op : CreditOp) : Only (fun op => op.starts = false) (settling (.credit op)) := only_perform rfl

theorem settleJobHold_follows {job : Job} {credits : JsNumber} {entry : CreditLedgerEntry} :
    Follows (onceOnly SettlementOp.starts).next (fun _ q => q = true) (settleJobHold job credits entry) false := by
  refine once_follows rfl fun _ => ?_
  have recorded : ∀ charged : ℚ, Only (fun op : SettlementOp => op.starts = false) (do
      settling (.recordSettlement charged)
      return charged : Settlement ℚ) := fun charged => only_bind (only_perform rfl) fun _ => trivial
  split
  · exact recorded 0
  · exact only_bind (settleCreditHold_only credit_only) recorded

theorem releaseJobHold_follows {job : Job} :
    Follows (onceOnly SettlementOp.starts).next (fun _ q => q = true) (releaseJobHold job) false := by
  refine once_follows rfl fun _ => ?_
  split
  · exact only_bind (releaseCreditHold_only credit_only) fun _ => only_perform rfl
  · exact only_perform rfl

theorem settle_recorded {estimate : Job → Estimate} {job : Job} {allowed : SettlementOp → Prop}
    (record : ∀ charged usd, allowed (.recordUsage charged usd)) (charged : ℚ) :
    Only allowed (match (estimate job).usd with
      | some usd => tryCatch (settling (.recordUsage charged usd)) fun _ => pure ()
      | _ => pure () : Settlement Unit) := by
  split
  · exact only_tryCatch (only_perform (record _ _)) fun _ => trivial
  · trivial

theorem settling_keeps {handler : Handler} {estimate : Job → Estimate} {entry : Job → CreditLedgerEntry}
    (settles : handler.onTerminal = settlingOnTerminal estimate entry) : handler.Keeps (onceOnly SettlementOp.starts) := by
  intro job
  rw [settles]
  unfold settlingOnTerminal
  split
  · refine follows_bind (follows_mono settleJobHold_follows fun result q started => ?_)
    subst started
    rcases result with e | charged
    · trivial
    · exact follows_mono (quiet_follows (settle_recorded (fun _ _ => rfl) charged)) fun _ _ _ => trivial
  · exact follows_mono releaseJobHold_follows fun _ _ _ => trivial

end Settlement

/-! ### The handled mark -/

def Phase.backFromHandler : Phase ψ → Bool
  | .returned _ => true
  | _ => false

/-- A handler's `onTerminal` has returned. -/
def World.handlerReturned (w : World) : Prop := ∃ e ∈ w.log, e.op = .onTerminalReturned ∧ e.choice = .resolves

/-- `terminalHandledAt` was set before the run, or an `onTerminal` of the run has returned. -/
structure Handled (initially : Prop) (w : World) (ph : Nat → Phase ψ) : Prop where
  returned : ∀ i, (ph i).backFromHandler = true → w.handlerReturned
  handled : ∀ job, w.job = some job → job.terminalHandledAt ≠ none → initially ∨ w.handlerReturned

theorem handlerReturned_exec (executed : World.exec i w op x = some (reply, w')) (before : w.handlerReturned) :
    w'.handlerReturned := by
  obtain ⟨landed, log⟩ := exec_log executed
  obtain ⟨e, member, returned⟩ := before
  exact ⟨e, by rw [log]; exact List.mem_cons_of_mem _ member, returned⟩

theorem backFromHandler_exec (executed : World.exec i w op x = some (reply, w')) (lives : Lives E P p op reply q)
    (back : q.backFromHandler = true) : p.backFromHandler = true ∨ w'.handlerReturned := by
  obtain ⟨landed, log⟩ := exec_log executed
  cases lives with
  | settlement => cases back
  | op permitted =>
    cases permitted with
    | inert h => exact Or.inl (by rwa [after_inert h] at back)
    | now => cases p <;> cases reply <;> first | exact Or.inl rfl | cases back
    | onTerminalReturned =>
      cases reply with
      | error e => cases back
      | ok v =>
        have resolved : x = .resolves := by
          obtain ⟨found, _⟩ := exec_ok executed
          cases x <;> first | rfl | cases found
        exact Or.inr ⟨_, by rw [log]; exact List.mem_cons_self, rfl, resolved⟩
    | acquireLease | requestCancel | markSubmitAttempted => rcases reply with e | (_ | job) <;> cases back
    | failBeforeStart | release | giveUp | refuse | answer | close =>
      rcases reply with e | (_ | job)
      · cases back
      · cases back
      · rw [after_committed] at back
        split at back <;> cases back
    | claimLeased | claimTerminated => rcases reply with e | (_ | _) <;> cases back
    | @markTerminalHandled lease => cases reply <;> cases lease <;> cases back
    | _ => cases reply <;> cases back

theorem marks_returned {at' : Time} (permitted : Permits E p (.markTerminalHandled at')) : p.backFromHandler = true := by
  cases permitted with
  | inert h => cases h
  | markTerminalHandled => rfl

theorem handled_step {initially : Prop} {ph : Nat → Phase ψ} (inv : Handled initially w ph)
    (executed : World.exec i w op x = some (reply, w')) (lives : Lives E P (ph i) op reply q) :
    Handled initially w' (Function.update ph i q) := by
  constructor
  · intro k back
    rcases updated_map back with ⟨rfl, mine⟩ | ⟨_, back⟩
    · rcases backFromHandler_exec executed lives mine with before | returned
      · exact handlerReturned_exec executed (inv.returned k before)
      · exact returned
    · exact handlerReturned_exec executed (inv.returned k back)
  · intro job stored marked
    have kept : ∀ before, w.job = some before → before.terminalHandledAt ≠ none → initially ∨ w'.handlerReturned :=
      fun before present marked => (inv.handled before present marked).imp id (handlerReturned_exec executed)
    obtain ⟨effect, _⟩ := exec_effect executed
    cases effect with
    | missed same log => exact kept job (by rw [← same]; exact stored) marked
    | wrote job' written same log lands =>
      obtain rfl : job' = job := Option.some.inj (same.symm.trans stored)
      cases marks : op.marksHandled with
      | true =>
        cases op with
        | markTerminalHandled at' =>
          obtain ⟨permitted, _⟩ := lives_op lives rfl
          exact Or.inr (handlerReturned_exec executed (inv.returned i (marks_returned permitted)))
        | _ => cases marks
      | false =>
        cases creates : op.creates with
        | true =>
          cases op with
          | createJob input => exact (create_refused (lives_op lives rfl).1).elim
          | _ => cases creates
        | false =>
          obtain ⟨before, present, framed⟩ := written_framed written creates
          exact kept before present (by rwa [← framed.handledAt marks])

theorem handled_preserves {initially : Prop} {cond : Nat → World → Op → Choice → Prop} :
    Preserves semantics (Lives E P) cond (Handled initially) where
  env inv moved := by
    obtain ⟨job, log, _⟩ := World.move_some moved
    constructor
    · rw [World.handlerReturned, log]
      exact inv.returned
    · rw [World.handlerReturned, job, log]
      exact inv.handled
  step inv _ executed lives := handled_step inv executed lives

/-! ### A claimant finds the job terminal -/

structure OpenedTerminal (w : World) (ph : Nat → Phase ψ) : Prop where
  leases : Leases w ph
  terminal : ∀ i, (ph i).opened = true → ∃ s, w.state? = some s ∧ s.terminal = true

theorem openedTerminal_step {ph : Nat → Phase ψ} (inv : OpenedTerminal w ph) (fenced : Fenced i w op x)
    (executed : World.exec i w op x = some (reply, w')) (lives : Lives E P (ph i) op reply q) :
    OpenedTerminal w' (Function.update ph i q) := by
  refine ⟨leases_step inv.leases fenced executed lives, fun k opened => ?_⟩
  have kept : (∃ s, w.state? = some s ∧ s.terminal = true) → ∃ s, w'.state? = some s ∧ s.terminal = true := by
    rintro ⟨s, stored, terminal⟩
    exact ⟨s, terminal_step inv.leases fenced executed lives stored terminal, terminal⟩
  rcases updated_map opened with ⟨rfl, mine⟩ | ⟨_, opened⟩
  · cases claims : op.claims with
    | true =>
      cases op with
      | claimTerminalHandling at' =>
        obtain ⟨_, rfl⟩ := lives_op lives rfl
        obtain ⟨unclaimed, claimed⟩ := claim_won executed mine
        obtain ⟨effect, _⟩ := exec_effect executed
        cases effect with
        | missed same log => exact (claimed (by rw [World.claimedAt?, same]; exact unclaimed)).elim
        | wrote job' written same log lands =>
          obtain ⟨before, present, terminal, _, rfl⟩ := written_claim written
          exact ⟨before.state, by rw [World.state_of_job same], terminal⟩
      | _ => cases claims
    | false => exact kept (inv.terminal k (opened_before lives claims mine))
  · exact kept (inv.terminal k opened)

theorem openedTerminal_preserves : Preserves semantics (Lives E P) Fenced OpenedTerminal where
  env inv moved := by
    refine ⟨leases_move inv.leases moved, ?_⟩
    rw [World.state?, World.work?, (World.move_some moved).1]
    exact inv.terminal
  step inv fenced executed lives := openedTerminal_step inv fenced executed lives

end Once

/-! ### Every run -/

section Runs
variable {E : Engine} {job : Job} {clock : Time} {calls : Nat → Call} {c : JobConfig} {sched : List JobAction}

/-- `onTerminal` is started at most once, the handled mark follows a handler that returned, a hold is
settled at most once, and a run of fenced writes starts `onTerminal` on a terminal job only. -/
theorem terminal_handled_once (ran : semantics.run (E.start job clock calls) sched = some c) :
    c.store.times Op.startsTerminal ≤ 1 ∧
      (∀ job', c.store.job = some job' → job'.terminalHandledAt ≠ none →
        job.terminalHandledAt ≠ none ∨ c.store.handlerReturned) ∧
      ((∀ kind handler, E.handlers kind = some handler →
          ∃ estimate entry, handler.onTerminal = settlingOnTerminal estimate entry) → c.store.times Op.settles ≤ 1) ∧
      (semantics.Meets Fenced (E.start job clock calls) sched → ∀ i job' next,
        c.threads i = .await (.onTerminal job') next → ∃ s, c.store.state? = some s ∧ s.terminal = true) := by
  have free : semantics.Meets (fun _ _ _ _ => True) (E.start job clock calls) sched :=
    Semantics.meets_all fun _ _ _ _ => trivial
  refine ⟨?_, ?_, fun settling => ?_, fun fenced i job' next awaits => ?_⟩
  · have starts := starts_onceable (E := E) (P := anySettlement)
    obtain ⟨ph, inv, _⟩ := run_invariant (once_preserves starts) (start_any (once_start starts)) free ran
    exact inv.once
  · have initial : Handled (job.terminalHandledAt ≠ none) (.holding job clock)
        fun i => (.idle (calls i) : Phase Unit) :=
      ⟨fun _ back => (by cases back), fun job' stored marked => Or.inl (by cases stored; exact marked)⟩
    obtain ⟨ph, inv, _⟩ := run_invariant handled_preserves (start_any initial) free ran
    exact inv.handled
  · have keeps : ∀ kind handler, E.handlers kind = some handler → handler.Keeps (onceOnly SettlementOp.starts) := by
      intro kind handler found
      obtain ⟨estimate, entry, settles⟩ := settling kind handler found
      exact settling_keeps settles
    have settles := settles_onceable (E := E)
    obtain ⟨ph, inv, _⟩ := run_invariant (once_preserves settles) (start_tracked keeps (once_start settles)) free ran
    exact inv.once
  · have initial : OpenedTerminal (.holding job clock) fun i => (.idle (calls i) : Phase Unit) :=
      ⟨leases_start, fun _ opened => by cases opened⟩
    obtain ⟨ph, inv, follows⟩ := run_invariant openedTerminal_preserves (start_any initial) fenced ran
    have here := follows i
    rw [awaits] at here
    obtain ⟨q, lives, _⟩ := here (.ok ())
    have waits := (starts_onceable.spent lives rfl).1
    exact inv.terminal i (starts_onceable (E := E) (P := anySettlement).opened waits)

end Runs

namespace LateMark

def hold : CreditHold where
  ownerId := "user"
  ownerType := .user
  userId := "user"
  organizationId := none
  reservedCredits := 100
  balanceAfterHold := 900

def heldStart : JobConfig :=
  engine.start (musicJobInput "job" "user" none payload none (some hold) 0) 0 fun _ => .step none

/-- Worker 1, which finished the job, settles it: the refund, the ledger row and the two marks. -/
def settled : List JobAction :=
  [.resume 1 .resolves, .resume 1 .resolves, .resume 1 .resolves, .resume 1 .resolves, .resume 1 (.holds (some 999)),
    .resume 1 (.found true), .resume 1 .resolves, .resume 1 .resolves, .resume 1 .resolves, .resume 1 .resolves,
    .resume 1 .resolves, .resume 1 .resolves, .resume 1 .resolves]

end LateMark

theorem terminal_handled_after_success : ∃ c, semantics.run LateMark.heldStart (LateMark.overtaken ++ LateMark.settled) = some c ∧
    c.store.times Op.startsTerminal ≤ 1 ∧ c.store.times Op.settles ≤ 1 ∧ c.store.handlerReturned := by
  have marked : (semantics.run LateMark.heldStart (LateMark.overtaken ++ LateMark.settled)).map
      (fun c => c.store.job.map (fun job => job.terminalHandledAt)) = some (some (some 330001)) := by decide +kernel
  obtain ⟨c, ran, marked⟩ := Option.map_eq_some_iff.mp marked
  obtain ⟨job', stored, marked⟩ := Option.map_eq_some_iff.mp marked
  obtain ⟨once, handled, settles, _⟩ := terminal_handled_once ran
  refine ⟨c, ran, once, settles fun kind handler found => ?_, ?_⟩
  · cases kind <;> cases found <;> exact ⟨_, _, rfl⟩
  · exact (handled job' stored (by rw [marked]; simp)).resolve_left (fun marked => marked rfl)

/-- The late mark between a claim and its `onTerminal`. -/
theorem terminal_handling_of_running : ¬ ∀ (E : Engine) (job : Job) (clock : Time) (calls : Nat → Call) (sched : List JobAction)
    (c : JobConfig), semantics.run (E.start job clock calls) sched = some c → ∀ i job' next,
    c.threads i = .await (.onTerminal job') next → ∃ s, c.store.state? = some s ∧ s.terminal = true := by
  intro terminal
  have reached : (semantics.run LateMark.start
      (LateMark.overtaken ++ [.resume 1 .resolves, .resume 1 .resolves, .resume 0 .resolves])).map
      (fun c => (c.store.state?, (c.threads 1).awaited?.map Op.startsTerminal)) = some (some .running, some true) := by decide
  obtain ⟨c, ran, found⟩ := Option.map_eq_some_iff.mp reached
  obtain ⟨running, starts⟩ := Prod.mk.inj found
  obtain ⟨op, awaited, starts⟩ := Option.map_eq_some_iff.mp starts
  obtain ⟨next, awaits⟩ := Program.awaited_some awaited
  cases op with
  | onTerminal job' =>
    obtain ⟨s, stored, absorbed⟩ := terminal _ _ _ _ _ c ran 1 job' next awaits
    rw [running] at stored
    cases stored
    cases absorbed
  | _ => cases starts

end Bike4Mind.GenerationJobs
