import Bike4Mind.GenerationJobs.CreateJob

/-!
What the creating call has done about its hold, against the store: which of its phases imply a stored
job and which imply none, and how often it has given the hold back.
-/

namespace Bike4Mind.GenerationJobs
open Concurrency Credits

/-- Credits go back to a balance. -/
def SettlementOp.refunds : SettlementOp → Bool
  | .credit op => op.increments
  | _ => false

def Op.refunds : Op → Bool
  | .settlement op => op.refunds
  | _ => false

/-- How often one call gave credits back. -/
def World.refundsBy (w : World) (i : Nat) : Nat := w.log.countP fun e => e.worker == i && e.op.refunds

/-! ### Terminal handling refunds once -/

section Handlers
variable {hold : CreditHold} {job : Job} {done : Bool}

theorem refundOverReserved_follows {overReserved : ℚ} {rethrow : Bool} :
    Follows (onceOnly SettlementOp.refunds).next (fun _ _ => True) (refundOverReserved hold overReserved rethrow creditCalls) false := by
  unfold refundOverReserved
  split
  · intro reply
    refine ⟨true, ⟨rfl, rfl⟩, ?_⟩
    cases reply with
    | ok v => trivial
    | error e =>
      show Follows _ _ (onWriteFailure rethrow hold.balanceAfterHold e) true
      unfold onWriteFailure
      split <;> trivial
  · trivial

theorem refunds_only (op : CreditOp) (other : op.increments = false) :
    Only (fun op => op.refunds = false) (settling (.credit op)) :=
  only_perform other

theorem settleCreditHold_follows {charged : JsNumber} {entry : CreditLedgerEntry} {rethrow : Bool} :
    Follows (onceOnly SettlementOp.refunds).next (fun _ _ => True) (settleCreditHold hold charged entry rethrow creditCalls) false := by
  refine follows_bind (follows_mono refundOverReserved_follows ?_)
  rintro (e | settledHolder) q _
  · trivial
  · have quiet : Only (fun op : SettlementOp => op.refunds = false) (if chargeOf hold charged = 0 then pure 0 else do
        tryCatch (deductHeldCredits hold (chargeOf hold charged) settledHolder entry creditCalls) (onWriteFailure rethrow ())
        return chargeOf hold charged : Settlement ℚ) := by
      split
      · trivial
      · exact only_bind (only_tryCatch (deductHeldCredits_only refunds_only) fun _ => onWriteFailure_only)
          fun _ => trivial
    exact follows_mono (quiet_follows quiet) fun _ _ _ => trivial

theorem releaseCreditHold_follows :
    Follows (onceOnly SettlementOp.refunds).next (fun _ _ => True) (releaseCreditHold hold creditCalls) false := by
  unfold releaseCreditHold
  split
  · trivial
  · exact follows_mono (once_follows rfl fun _ => trivial) fun _ _ _ => trivial

/-- Whatever starts the settlement and whatever is recorded after it, its credits move once. -/
theorem refunding_follows {α β : Type} {op : SettlementOp} {program : Settlement α} {rest : α → Settlement β}
    (quiet : op.refunds = false) (once : Follows (onceOnly SettlementOp.refunds).next (fun _ _ => True) program false)
    (recorded : ∀ a, Only (fun op => op.refunds = false) (rest a)) :
    Follows (onceOnly SettlementOp.refunds).next (fun _ _ => True) ((settling op).bind fun _ => program.bind rest) false := by
  have stays : ∀ reply, (onceOnly SettlementOp.refunds).next false op reply false := fun reply => by simp [onceOnly, quiet]
  refine follows_then (fun v => ⟨false, stays _, follows_bind (follows_mono once ?_)⟩) (fun e => ⟨false, stays _, trivial⟩)
  rintro (e | a) q _
  · trivial
  · exact follows_mono (quiet_follows (recorded a)) fun _ _ _ => trivial

theorem settleJobHold_refunds {credits : JsNumber} {entry : CreditLedgerEntry} :
    Follows (onceOnly SettlementOp.refunds).next (fun _ _ => True) (settleJobHold job credits entry) false := by
  have recorded : ∀ charged : ℚ, Only (fun op : SettlementOp => op.refunds = false) (do
      settling (.recordSettlement charged)
      return charged : Settlement ℚ) := fun charged => only_bind (only_perform rfl) fun _ => trivial
  unfold settleJobHold
  cases job.creditHold with
  | none => exact follows_mono (quiet_follows (only_bind (only_perform rfl) fun _ => recorded 0)) fun _ _ _ => trivial
  | some hold => exact refunding_follows rfl settleCreditHold_follows recorded

theorem releaseJobHold_refunds :
    Follows (onceOnly SettlementOp.refunds).next (fun _ _ => True) (releaseJobHold job) false := by
  unfold releaseJobHold
  cases job.creditHold with
  | none => exact follows_mono (quiet_follows (only_bind (only_perform rfl) fun _ => only_perform rfl)) fun _ _ _ => trivial
  | some hold => exact refunding_follows rfl releaseCreditHold_follows fun _ => only_perform rfl

theorem settling_refunds {handler : Handler} {estimate : Job → Estimate} {entry : Job → CreditLedgerEntry}
    (settles : handler.onTerminal = settlingOnTerminal estimate entry) : handler.Keeps (onceOnly SettlementOp.refunds) := by
  intro job
  rw [settles]
  unfold settlingOnTerminal
  split
  · refine follows_bind (follows_mono settleJobHold_refunds fun result q _ => ?_)
    rcases result with e | charged
    · trivial
    · exact follows_mono (quiet_follows (settle_recorded (fun _ _ => rfl) charged)) fun _ _ _ => trivial
  · exact releaseJobHold_refunds

end Handlers

/-! ### What the creating call has done so far -/

/-- The hold has not been given back by this call. -/
def Phase.unrefunded : Phase Bool → Bool
  | .handling _ _ refunded => !refunded
  | .returned _ | .closing _ | .skipped | .cancelSet | .done | .thrown => false
  | _ => true

namespace CreatePhase

def unrefunded : CreatePhase Bool → Bool
  | .refunded => false
  | .failing p => p.unrefunded
  | _ => true

def stored : CreatePhase Bool → Bool
  | .saved | .failing _ => true
  | _ => false

def unstored : CreatePhase Bool → Bool
  | .unsaved | .absent | .refunded => true
  | _ => false

end CreatePhase

/-- The documents in the store are the caller's own, under its id, or of another id. -/
structure Named (input : Job) (w : World) : Prop where
  id : w.jobId = input.id
  other : ∀ other, w.keyHolder = some other → other.id ≠ input.id
  own : ∀ job, w.job = some job → job.id = input.id ∧ job.idempotencyKey = input.idempotencyKey

/-- Where the creating call stands, against the store and its own history. -/
structure Standing (creator : Nat) (hold : CreditHold) (w : World) (p : CreatePhase Bool) : Prop where
  stored : p.stored = true → w.job ≠ none
  unstored : p.unstored = true → w.job = none
  unrefunded : p.unrefunded = true → w.refundsBy creator = 0
  once : w.refundsBy creator ≤ 1
  refunded : p = .refunded → ∃ e ∈ w.log, e.worker = creator ∧ e.op = refund hold
  unknown : p = .unknown → ∃ e ∈ w.log, e.worker = creator ∧ e.op = .findById ∧ e.choice.rejected = true

structure Accounted (input : Job) (creator : Nat) (hold : CreditHold) (w : World) (ph : Nat → CreatePhase Bool) : Prop
    extends Named input w where
  workers : ∀ i, i ≠ creator → ∃ p, ph i = .worker p
  creating : ∀ p, ph creator ≠ .worker p
  standing : Standing creator hold w (ph creator)

section Step
variable {E : Engine} {input : Job} {creator i : Nat} {hold : CreditHold} {w w' : World} {op : Op} {x : Choice}
variable {reply : Except JsError op.Value} {p q : CreatePhase Bool} {ph : Nat → CreatePhase Bool}

abbrev CreatesOnce (E : Engine) (input : Job) (hold : CreditHold) := Creates E (onceOnly SettlementOp.refunds) input hold

theorem refundsBy_exec (executed : World.exec i w op x = some (reply, w')) (creator : Nat) :
    w'.refundsBy creator = w.refundsBy creator + if i = creator ∧ op.refunds = true then 1 else 0 := by
  obtain ⟨landed, log⟩ := exec_log executed
  rw [World.refundsBy, World.refundsBy, log, List.countP_cons]
  simp

theorem creates_input {created : Job} {reply : Except JsError Job}
    (step : CreatesOnce E input hold p (.createJob created) reply q) : created = input ∧ p = .unsaved := by
  cases step with
  | worker lives | failing lives => exact (create_refused (lives_op lives rfl).1).elim
  | created | mismatched | ambiguous => exact ⟨rfl, rfl⟩

theorem named_exec (inv : Named input w) (executed : World.exec i w op x = some (reply, w'))
    (step : CreatesOnce E input hold p op reply q) : Named input w' := by
  obtain ⟨id, holder⟩ := exec_named executed
  obtain ⟨effect, _⟩ := exec_effect executed
  refine ⟨id.trans inv.id, by rw [holder]; exact inv.other, fun job stored => ?_⟩
  cases effect with
  | missed same log => exact inv.own job (same ▸ stored)
  | wrote job' written same log lands =>
    obtain rfl : job' = job := Option.some.inj (same.symm.trans stored)
    cases creates : op.creates with
    | true =>
      cases op with
      | createJob created =>
        obtain ⟨rfl, _⟩ := creates_input step
        simp only [World.written, World.inserted] at written
        split at written
        · cases written
          exact ⟨rfl, rfl⟩
        · cases written
      | _ => cases creates
    | false =>
      obtain ⟨before, present, framed⟩ := written_framed written creates
      obtain ⟨id, key⟩ := inv.own before present
      exact ⟨framed.id.trans id, framed.key.trans key⟩

theorem presence_exec (executed : World.exec i w op x = some (reply, w')) (updates : op.creates = false) :
    w'.job = none ↔ w.job = none := by
  obtain ⟨effect, _⟩ := exec_effect executed
  cases effect with
  | missed same log => rw [same]
  | wrote job' written same log lands =>
    obtain ⟨before, present, _⟩ := written_framed written updates
    simp [same, present]

theorem lives_refund {p q : Phase Bool} (lives : Lives E (onceOnly SettlementOp.refunds) p op reply q) :
    (op.refunds = true → p.unrefunded = true ∧ q.unrefunded = false) ∧ (q.unrefunded = true → p.unrefunded = true) := by
  cases lives with
  | @settlement lease job settled settled' op _ h =>
    simp only [onceOnly] at h
    split at h
    · obtain ⟨rfl, rfl⟩ := h
      exact ⟨fun _ => ⟨rfl, rfl⟩, fun _ => rfl⟩
    · rename_i other
      subst h
      exact ⟨fun counted => (other counted).elim, id⟩
  | op permitted =>
    refine ⟨fun counted => ?_, ?_⟩
    · cases permitted with
      | inert h => cases op <;> first | cases counted | cases h
      | _ => cases counted
    · intro unrefunded
      cases permitted with
      | inert h => rwa [after_inert h] at unrefunded
      | now => cases p <;> cases reply <;> first | rfl | exact unrefunded
      | acquireLease | failBeforeStart | requestCancel | release | giveUp | refuse | markSubmitAttempted | submit
      | submitOutcome | poll | store | answer | claimLeased | claimTerminated | onTerminal => rfl
      | close =>
        rcases reply with e | (_ | job)
        · cases unrefunded
        · cases unrefunded
        · rw [after_committed] at unrefunded
          split at unrefunded
          · rename_i terminates
            cases terminates
          · cases unrefunded
      | @onTerminalReturned lease job settled => cases reply <;> cases unrefunded
      | @markTerminalHandled lease => cases reply <;> cases lease <;> cases unrefunded

theorem standing_other (inv : Standing creator hold w p) (executed : World.exec i w op x = some (reply, w'))
    (updates : op.creates = false) (other : i ≠ creator) : Standing creator hold w' p := by
  have presence := presence_exec executed updates
  have refunds : w'.refundsBy creator = w.refundsBy creator := by
    rw [refundsBy_exec executed creator, if_neg (fun own => other own.1), Nat.add_zero]
  obtain ⟨landed, log⟩ := exec_log executed
  have logged : ∀ e ∈ w.log, e ∈ w'.log := fun e member => by
    rw [log]
    exact List.mem_cons_of_mem _ member
  refine ⟨fun stored => ?_, fun unstored => presence.mpr (inv.unstored unstored), ?_, ?_, fun refunded => ?_, fun unknown => ?_⟩
  · rw [Ne, presence]
    exact inv.stored stored
  · rw [refunds]
    exact inv.unrefunded
  · rw [refunds]
    exact inv.once
  · obtain ⟨e, member, own⟩ := inv.refunded refunded
    exact ⟨e, logged e member, own⟩
  · obtain ⟨e, member, own⟩ := inv.unknown unknown
    exact ⟨e, logged e member, own⟩

theorem standing_fresh (inv : Standing creator hold w p) (executed : World.exec creator w op x = some (reply, w'))
    (before : p.unrefunded = true) (quiet : op.refunds = false) (stored : q.stored = true → w'.job ≠ none)
    (unstored : q.unstored = true → w'.job = none) (refunded : q ≠ .refunded)
    (unknown : q = .unknown → op = .findById ∧ x.rejected = true) : Standing creator hold w' q := by
  have never : w'.refundsBy creator = 0 := by
    rw [refundsBy_exec executed creator, inv.unrefunded before, quiet]
    simp
  obtain ⟨landed, log⟩ := exec_log executed
  refine ⟨stored, unstored, fun _ => never, by omega, fun same => (refunded same).elim, fun same => ?_⟩
  obtain ⟨lookup, failed⟩ := unknown same
  exact ⟨_, by rw [log]; exact List.mem_cons_self, rfl, lookup, failed⟩

theorem exec_rejected {e : JsError} (executed : World.exec i w op x = some (.error e, w')) : x.rejected = true := by
  cases x with
  | rejects => rfl
  | _ =>
    obtain ⟨v, _, same⟩ := Option.map_eq_some_iff.mp executed
    cases same

theorem exec_findById {found : Option Job} (executed : World.exec i w .findById x = some (.ok found, w')) :
    w'.job = found := by
  rw [exec_unwritten executed rfl]
  obtain ⟨value, _⟩ := exec_ok executed
  cases x with
  | resolves => exact Option.some.inj value
  | _ => cases value

theorem exec_findByIdempotencyKey {key : String} {found : Option Job}
    (executed : World.exec i w (.findByIdempotencyKey key) x = some (.ok found, w')) :
    (w.job.filter (·.idempotencyKey == some key)).or (w.holderOfKey key) = found := by
  obtain ⟨value, _⟩ := exec_ok executed
  cases x with
  | resolves => exact Option.some.inj value
  | _ => cases value

theorem standing_step (named : Named input w) (inv : Standing creator hold w p) (creating : ∀ p', p ≠ .worker p')
    (executed : World.exec creator w op x = some (reply, w')) (step : CreatesOnce E input hold p op reply q) :
    Standing creator hold w' q := by
  cases step with
  | worker lives => exact (creating _ rfl).elim
  | @created job =>
    obtain ⟨found, rfl⟩ := exec_ok executed
    refine standing_fresh inv executed rfl rfl (fun _ => ?_) (fun h => by cases h) (by simp) (by simp)
    cases x with
    | resolves =>
      have inserted : w.inserted input = some job := found
      simp [World.record, World.apply, World.written, inserted]
    | _ => cases found
  | mismatched | ambiguous | keyFree | keyFailed =>
    exact standing_fresh inv executed rfl rfl (fun h => by cases h) (fun h => by cases h) (by simp) (by simp)
  | @keyOurs key winner ours =>
    have value := exec_findByIdempotencyKey executed
    refine standing_fresh inv executed rfl rfl (fun _ => ?_) (fun h => by cases h) (by simp) (by simp)
    rw [exec_unwritten executed rfl]
    intro absent
    have holder : w.holderOfKey key = some winner := by simpa [absent] using value
    exact named.other winner (Option.filter_eq_some_iff.mp holder).1 ours
  | @keyTaken key winner carried other =>
    have value := exec_findByIdempotencyKey executed
    refine standing_fresh inv executed rfl rfl (fun h => by cases h) (fun _ => ?_) (by simp) (by simp)
    rw [exec_unwritten executed rfl]
    by_contra present
    obtain ⟨job, stored⟩ := Option.ne_none_iff_exists'.mp present
    obtain ⟨id, key'⟩ := named.own job stored
    have winner : some job = some winner := by simpa [stored, key', carried, Option.filter] using value
    rw [← Option.some.inj winner] at other
    exact other id
  | landed =>
    have value := exec_findById executed
    exact standing_fresh inv executed rfl rfl (fun _ => by simp [value]) (fun h => by cases h) (by simp) (by simp)
  | absent =>
    have value := exec_findById executed
    exact standing_fresh inv executed rfl rfl (fun h => by cases h) (fun _ => value) (by simp) (by simp)
  | unknown =>
    exact standing_fresh inv executed rfl rfl (fun h => by cases h) (fun h => by cases h) (by simp)
      (fun _ => ⟨rfl, exec_rejected executed⟩)
  | refunded =>
    have same := exec_unwritten executed rfl
    have once := refundsBy_exec executed creator
    have never := inv.unrefunded rfl
    obtain ⟨landed, log⟩ := exec_log executed
    refine ⟨fun h => (by cases h), fun _ => same.trans (inv.unstored rfl), fun h => (by cases h), ?_, fun _ => ?_,
      fun h => (by cases h)⟩
    · rw [once, never]
      split <;> omega
    · exact ⟨_, by rw [log]; exact List.mem_cons_self, rfl, rfl⟩
  | enqueued | unqueued =>
    have same := exec_unwritten executed rfl
    exact standing_fresh inv executed rfl rfl (fun _ => by rw [same]; exact inv.stored rfl) (fun h => by cases h)
      (by simp) (by simp)
  | @failing before op reply after lives =>
    have updates : op.creates = false := by
      cases op with
      | createJob created => exact (create_refused (lives_op lives rfl).1).elim
      | _ => rfl
    obtain ⟨refund, unrefunded⟩ := lives_refund lives
    have refunds := refundsBy_exec executed creator
    refine ⟨fun _ => ?_, fun h => (by cases h), fun h => ?_, ?_, fun h => (by cases h), fun h => (by cases h)⟩
    · rw [Ne, presence_exec executed updates]
      exact inv.stored rfl
    · have h : after.unrefunded = true := h
      have quiet : op.refunds = false := by
        by_contra counted
        rw [(refund (by simpa using counted)).2] at h
        cases h
      rw [refunds, inv.unrefunded (unrefunded h), quiet]
      simp
    · have once := inv.once
      cases counted : op.refunds with
      | true =>
        have never := inv.unrefunded (refund counted).1
        rw [refunds, never]
        split <;> omega
      | false =>
        rw [refunds, counted]
        simpa using once

theorem accounted_step (inv : Accounted input creator hold w ph) (executed : World.exec i w op x = some (reply, w'))
    (step : CreatesOnce E input hold (ph i) op reply q) :
    Accounted input creator hold w' (Function.update ph i q) := by
  have named := named_exec inv.toNamed executed step
  by_cases own : i = creator
  · subst own
    refine ⟨named, fun k other => ?_, fun p => ?_, ?_⟩
    · rw [Function.update_of_ne other]
      exact inv.workers k other
    · rw [Function.update_self]
      rintro rfl
      generalize here : ph i = before at step
      cases step
      exact inv.creating _ here
    · rw [Function.update_self]
      exact standing_step inv.toNamed inv.standing inv.creating executed step
  · obtain ⟨p, here⟩ := inv.workers i own
    have kept := Function.update_of_ne (Ne.symm own) q ph
    rw [here] at step
    cases step with
    | worker lives =>
      have updates : op.creates = false := by
        cases op with
        | createJob created => exact (create_refused (lives_op lives rfl).1).elim
        | _ => rfl
      refine ⟨named, fun k other => ?_, fun p => ?_, ?_⟩
      · by_cases mine : k = i
        · subst mine
          exact ⟨_, Function.update_self ..⟩
        · rw [Function.update_of_ne mine]
          exact inv.workers k other
      · rw [kept]
        exact inv.creating p
      · rw [kept]
        exact standing_other inv.standing executed updates own

theorem accounted_move {e : World.Move} (inv : Accounted input creator hold w ph) (moved : w.move e = some w') :
    Accounted input creator hold w' ph := by
  obtain ⟨job, log, _⟩ := World.move_some moved
  have refunds : w'.refundsBy creator = w.refundsBy creator := by rw [World.refundsBy, World.refundsBy, log]
  have named : Named input w' := by
    refine ⟨?_, fun other held => ?_, by rw [job]; exact inv.own⟩
    · cases e with
      | tick elapsed => cases moved; exact inv.id
      | otherJobCreated other =>
        simp only [World.move] at moved
        split at moved
        · cases moved
          exact inv.id
        · cases moved
    · cases e with
      | tick elapsed => cases moved; exact inv.other other held
      | otherJobCreated created =>
        simp only [World.move] at moved
        split at moved
        · rename_i fresh
          cases moved
          cases held
          rw [← inv.id]
          simp only [Bool.and_eq_true, bne_iff_ne] at fresh
          exact fresh.1.2
        · cases moved
  refine ⟨named, inv.workers, inv.creating, ?_⟩
  obtain ⟨stored, unstored, unrefunded, once, refunded, unknown⟩ := inv.standing
  exact ⟨by rwa [job], by rwa [job], by rwa [refunds], by rwa [refunds], by rwa [log], by rwa [log]⟩

theorem accounted_preserves {cond : Nat → World → Op → Choice → Prop} :
    Preserves semantics (CreatesOnce E input hold) cond (Accounted input creator hold) where
  env := accounted_move
  step inv _ executed step := accounted_step inv executed step

end Step
end Bike4Mind.GenerationJobs
