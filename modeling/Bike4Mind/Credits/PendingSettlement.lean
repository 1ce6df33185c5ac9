import Mathlib.Tactic.NormNum
import Bike4Mind.Credits.CreditCalls
import Bike4Mind.Credits.PendingHold

/-!
A recorded hold ends once. Its pending row decides: a refund deletes it, a settlement marks it, and
whatever moves the balance or the ledger commits with that write. A lost acknowledgement changes none
of it, because the receipt stays.
-/

namespace Bike4Mind.Credits
open Concurrency

/-- What became of a hold, read off its row. -/
inductive HoldOutcome where
  | pending
  | refunded
  | settled (charge : ℚ)
  deriving DecidableEq

def Billing.outcome (s : Billing) : HoldOutcome :=
  match s.row with
  | none => .refunded
  | some row => if row.settledAt.isSome then .settled (row.settledCredits.getD 0) else .pending

namespace HoldOutcome

/-- What the owner is short of. -/
def kept (hold : CreditHold) : HoldOutcome → ℚ
  | .pending => hold.reservedCredits
  | .refunded => 0
  | .settled charge => charge

/-- The usage rows the ledger owes. -/
def charges : HoldOutcome → List ℚ
  | .settled charge => if charge = 0 then [] else [charge]
  | _ => []

end HoldOutcome

/-! ### What a transaction commits -/

section Commits
variable {faults : Faults} {s mid s' : Billing} {hold : CreditHold} {current : ℚ}

theorem inside_exec {op : TransactionOp} {v : op.Value} (h : (inside op).exec (performing faults) s = (.ok v, s')) :
    v = (s.perform op).1 ∧ s' = (s.perform op).2 := by
  rw [Program.exec_perform] at h
  unfold performing at h
  split at h
  · cases h
  · cases h
    exact ⟨rfl, rfl⟩

theorem reads_exec {α : Type} {program : Transaction α} {a : α}
    (only : Only (fun op => ∃ call : CreditOp, op = .credit call ∧ call.writes = false) program)
    (h : program.exec (performing faults) s = (.ok a, s')) : s' = s := by
  have stays : ∀ op (s : Billing), (∃ call : CreditOp, op = .credit call ∧ call.writes = false) →
      (performing faults op s).2 = s := by
    rintro op s ⟨call, rfl, reads⟩
    unfold performing
    split
    · rfl
    · cases call <;> first | rfl | cases reads
  have same := Program.exec_only only stays s
  rw [h] at same
  exact same

theorem credit_reads (call : CreditOp) (reads : call.writes = false) :
    Only (fun op => ∃ call : CreditOp, op = .credit call ∧ call.writes = false) (inside (.credit call)) :=
  only_perform ⟨call, rfl, reads⟩

theorem increment_found {T : CreditHolderType} {id : String} {amount : ℚ} (found : s.balance T id = some current) :
    s.increment T id amount = (some (current + amount), { s with
      balance := fun T' id' => if T' = T ∧ id' = id then some (current + amount) else s.balance T' id' }) := by
  unfold Billing.increment
  rw [found]

theorem increment_missing {T : CreditHolderType} {id : String} {amount : ℚ} (missing : s.balance T id = none) :
    s.increment T id amount = (none, s) := by
  unfold Billing.increment
  rw [missing]

theorem release_exec (positive : 0 < hold.reservedCredits)
    (h : (releaseCreditHold hold holdAdapters).exec (performing faults) s = (.ok (), s')) :
    s' = (s.increment hold.ownerType hold.ownerId hold.reservedCredits).2 := by
  unfold releaseCreditHold at h
  rw [if_neg (not_le.mpr positive)] at h
  obtain ⟨_, mid, incremented, done⟩ := Program.exec_bind_ok h
  obtain ⟨_, rfl⟩ := inside_exec incremented
  cases done
  rfl

theorem rethrown {α : Type} {a b : α} {e : JsError} (h : (onWriteFailure true a e : Transaction α).exec (performing faults) s = (.ok b, s')) :
    False := by
  cases h

theorem refundOverReserved_exec {overReserved balance : ℚ} (found : s.balance hold.ownerType hold.ownerId = some current)
    (within : 0 ≤ overReserved)
    (h : (refundOverReserved hold overReserved true holdAdapters).exec (performing faults) s = (.ok balance, s')) :
    s'.row = s.row ∧ s'.ledger = s.ledger ∧ s'.balance hold.ownerType hold.ownerId = some (current + overReserved) := by
  unfold refundOverReserved at h
  split at h
  · rcases Program.exec_tryCatch_ok h with refunded | ⟨e, mid, _, thrown⟩
    · obtain ⟨_, mid, incremented, done⟩ := Program.exec_bind_ok refunded
      obtain ⟨_, rfl⟩ := inside_exec incremented
      cases done
      show (s.increment _ _ _).2.row = _ ∧ (s.increment _ _ _).2.ledger = _ ∧ (s.increment _ _ _).2.balance _ _ = _
      rw [increment_found found]
      exact ⟨rfl, rfl, if_pos ⟨rfl, rfl⟩⟩
    · exact (rethrown thrown).elim
  · rename_i free
    cases h
    have exact' : overReserved = 0 := le_antisymm (not_lt.mp free) within
    rw [exact', add_zero]
    exact ⟨rfl, rfl, found⟩

theorem deductHeldCredits_exec {charged settledHolder : ℚ} {entry : CreditLedgerEntry}
    (h : (deductHeldCredits hold charged settledHolder entry holdAdapters).exec (performing faults) s = (.ok (), s')) :
    s' = { s with ledger := ⟨entry, charged, settledHolder⟩ :: s.ledger } := by
  obtain ⟨found, mid, read, rest⟩ := Program.exec_bind_ok h
  obtain rfl := reads_exec (credit_reads _ rfl) read
  split at rest
  · cases rest
  · split at rest
    · exact (inside_exec rest).2
    · exact (inside_exec rest).2
    · obtain ⟨organization, mid', read', rest⟩ := Program.exec_bind_ok rest
      obtain rfl := reads_exec (credit_reads _ rfl) read'
      cases organization with
      | none => cases rest
      | some organization => exact (inside_exec rest).2

/-- A settlement that commits charges what it returns, with a usage row unless that is nothing. -/
theorem settleCreditHold_exec {charged : JsNumber} {entry : CreditLedgerEntry} {v : ℚ}
    (found : s.balance hold.ownerType hold.ownerId = some current)
    (h : (settleCreditHold hold charged entry true holdAdapters).exec (performing faults) s = (.ok v, s')) :
    v = chargeOf hold charged ∧ s'.row = s.row ∧
      s'.balance hold.ownerType hold.ownerId = some (current + (hold.reservedCredits - v)) ∧
      ∃ balance, s'.ledger = (if v = 0 then [] else [⟨entry, v, balance⟩]) ++ s.ledger := by
  obtain ⟨balance, mid, refunded, rest⟩ := Program.exec_bind_ok h
  obtain ⟨row, ledger, stored⟩ := refundOverReserved_exec found (sub_nonneg.mpr (charge_le_reserved hold charged)) refunded
  split at rest
  · rename_i free
    cases rest
    rw [free] at stored
    exact ⟨free.symm, row, stored, balance, ledger⟩
  · rename_i charges
    obtain ⟨_, last, written, rest⟩ := Program.exec_bind_ok rest
    cases rest
    rcases Program.exec_tryCatch_ok written with deducted | ⟨e, _, _, thrown⟩
    · obtain rfl := deductHeldCredits_exec deducted
      exact ⟨rfl, row, stored, balance, by simp [charges, ledger]⟩
    · exact (rethrown thrown).elim

theorem refused {α : Type} {userId : String} {refusal : CreditRefusal} {a : α}
    (h : (refuse userId refusal holdAdapters : Transaction α).exec (performing faults) s = (.ok a, s')) : False := by
  obtain ⟨_, mid, _, thrown⟩ := Program.exec_bind_ok h
  cases thrown

theorem reserve_exec {request : HoldRequest} {required : ℚ} {organization : Bool}
    (h : (reserve request required organization holdAdapters).exec (performing faults) s = (.ok hold, s')) :
    hold.reservedCredits = required ∧ s'.row = s.row ∧ s'.ledger = s.ledger ∧ ∃ start,
      s.balance hold.ownerType hold.ownerId = some start ∧
        s'.balance hold.ownerType hold.ownerId = some (start - hold.reservedCredits) := by
  obtain ⟨answer, mid, incremented, rest⟩ := Program.exec_bind_ok h
  obtain ⟨answered, after⟩ := inside_exec incremented
  generalize (if organization = true then CreditHolderType.organization else .user) = T at answered after rest
  generalize request.organizationId.getD request.userId = id at answered after rest
  cases found : s.balance T id with
  | none =>
    have missing : answer = none := answered.trans (congrArg Prod.fst (increment_missing found))
    subst missing
    cases rest
  | some start =>
    have counted : answer = some (start + -required) := answered.trans (congrArg Prod.fst (increment_found found))
    have taken : mid = (s.increment T id (-required)).2 := after
    rw [increment_found found] at taken
    subst counted taken
    dsimp only at rest
    split at rest
    · obtain ⟨_, _, _, rest⟩ := Program.exec_bind_ok rest
      exact (refused rest).elim
    · cases rest
      exact ⟨rfl, rfl, rfl, start, found, (if_pos ⟨rfl, rfl⟩).trans (by rw [sub_eq_add_neg])⟩

/-- What a reserving transaction leaves: the pending row, and the balance short of the hold. -/
theorem reserveRequestCredits_exec {request : HoldRequest} {expiresAt : Time}
    (h : (reserveRequestCredits request expiresAt).exec (performing faults) s = (.ok hold, s')) :
    0 < hold.reservedCredits ∧ s'.row = some { toCreditHold := hold, featureLabel := request.featureLabel, expiresAt := expiresAt } ∧
      s'.ledger = s.ledger ∧ ∃ start, s.balance hold.ownerType hold.ownerId = some start ∧
        s'.balance hold.ownerType hold.ownerId = some (start - hold.reservedCredits) := by
  obtain ⟨granted, mid, held, rest⟩ := Program.exec_bind_ok h
  obtain ⟨row, last, recorded, rest⟩ := Program.exec_bind_ok rest
  cases rest
  obtain ⟨_, rfl⟩ := inside_exec recorded
  unfold holdCredits at held
  cases amount : request.amount? with
  | none =>
    rw [amount] at held
    cases held
  | some required =>
    rw [amount] at held
    obtain ⟨found, _, read, loading⟩ := Program.exec_bind_ok held
    obtain rfl := reads_exec (credit_reads _ rfl) read
    split at loading
    · cases loading
    · obtain ⟨organization, _, loaded, checking⟩ := Program.exec_bind_ok loading
      obtain rfl := reads_exec (loadOrganization_only credit_reads) loaded
      obtain ⟨_, _, billable, capping⟩ := Program.exec_bind_ok checking
      obtain rfl := reads_exec (credit_reads _ rfl) billable
      obtain ⟨_, _, capped, spending⟩ := Program.exec_bind_ok capping
      obtain rfl := reads_exec (assertMemberCap_only credit_reads) capped
      obtain ⟨_, _, spend, reserving⟩ := Program.exec_bind_ok spending
      obtain rfl := reads_exec (credit_reads _ rfl) spend
      obtain ⟨same, _, ledger, balance⟩ := reserve_exec reserving
      exact ⟨same ▸ amount_pos amount, rfl, ledger, balance⟩

end Commits

/-! ### The books of one hold -/

/-- Row, balance and ledger agree on what became of the hold, since the store `before` it with `start`
credits. -/
structure Booked (before : Billing) (hold : CreditHold) (start : ℚ) (s : Billing) : Prop where
  row : ∀ row, s.row = some row → row.toCreditHold = hold
  receipt : ∀ row, s.row = some row → row.settledAt.isSome = true → ∃ charged, row.settledCredits = some (chargeOf hold charged)
  balance : s.balance hold.ownerType hold.ownerId = some (start - s.outcome.kept hold)
  ledger : ∃ rows, s.ledger = rows ++ before.ledger ∧ rows.map (·.credits) = s.outcome.charges

section Books
variable {before s s' : Billing} {hold : CreditHold} {start : ℚ} {row : PendingCreditHold} {faults : Faults}

theorem outcome_pending (stored : s.row = some row) (unsettled : row.settledAt = none) : s.outcome = .pending := by
  simp [Billing.outcome, stored, unsettled]

theorem delete_cases (filter : PendingCreditHold → Bool) : s.delete filter = (none, s) ∨
    ∃ row, s.row = some row ∧ filter row = true ∧ s.delete filter = (some row, { s with row := none }) := by
  unfold Billing.delete
  cases found : s.row.filter filter with
  | none => exact Or.inl rfl
  | some row =>
    obtain ⟨stored, passes⟩ := Option.filter_eq_some_iff.mp found
    exact Or.inr ⟨row, stored, passes, rfl⟩

theorem markSettled_cases (charge : ℚ) : s.markSettled charge = (false, s) ∨
    ∃ row, s.row = some row ∧ row.settledAt = none ∧
      s.markSettled charge = (true, { s with row := some { row with settledAt := some s.clock, settledCredits := some charge } }) := by
  unfold Billing.markSettled
  cases found : s.row.filter (·.settledAt.isNone) with
  | none => exact Or.inl rfl
  | some row =>
    obtain ⟨stored, unsettled⟩ := Option.filter_eq_some_iff.mp found
    exact Or.inr ⟨row, stored, by simpa using unsettled, rfl⟩

theorem findSettlement_some {charge : ℚ} (found : s.findSettlement = some charge) :
    s.outcome = .settled charge := by
  unfold Billing.findSettlement at found
  cases stored : s.row with
  | none =>
    rw [stored] at found
    cases found
  | some row =>
    rw [stored] at found
    dsimp only at found
    split at found
    · rename_i settled
      simp [Billing.outcome, stored, settled, found]
    · cases found

theorem booked_returned (booked : Booked before hold start s) (pending : s.outcome = .pending) :
    Booked before hold start ({ s with row := none }.increment hold.ownerType hold.ownerId hold.reservedCredits).2 ∧
      ({ s with row := none }.increment hold.ownerType hold.ownerId hold.reservedCredits).2.outcome = .refunded := by
  obtain ⟨_, _, balance, rows, ledger, charges⟩ := booked
  rw [pending] at balance charges
  have balance : ({ s with row := none } : Billing).balance hold.ownerType hold.ownerId =
      some (start - hold.reservedCredits) := balance
  rw [increment_found balance]
  refine ⟨⟨fun _ stored => (by cases stored), fun _ stored => (by cases stored), ?_, rows, ledger, charges⟩, rfl⟩
  exact (if_pos ⟨rfl, rfl⟩).trans (by simp [HoldOutcome.kept, Billing.outcome])

theorem commits_exec {t : HoldTransaction} {v : t.Value} (h : t.commits faults s = some (v, s')) :
    t.body.exec (performing faults) s = (.ok v, s') := by
  unfold HoldTransaction.commits at h
  split at h
  · rename_i v' s'' executed
    cases h
    exact executed
  · cases h

theorem claimed_release (booked : Booked before hold start s) (positive : 0 < hold.reservedCredits) (stored : s.row = some row)
    (unsettled : row.settledAt = none)
    (released : (releaseCreditHold hold holdAdapters).exec (performing faults) { s with row := none } = (.ok (), s')) :
    Booked before hold start s' ∧ (s' = s ∨ s.outcome = .pending) := by
  have pending := outcome_pending stored unsettled
  rw [release_exec positive released]
  exact ⟨(booked_returned booked pending).1, Or.inr pending⟩

theorem refund_commits (booked : Booked before hold start s) (positive : 0 < hold.reservedCredits) {v : Bool}
    (h : (HoldTransaction.refund hold).commits faults s = some (v, s')) :
    Booked before hold start s' ∧ (s' = s ∨ s.outcome = .pending) := by
  obtain ⟨claimed, mid, claiming, rest⟩ := Program.exec_bind_ok (commits_exec h)
  obtain ⟨claim, after⟩ := inside_exec claiming
  rcases delete_cases (s := s) (·.settledAt.isNone) with missed | ⟨row, stored, unsettled, took⟩
  · have missed : s.perform .claim = (none, s) := missed
    rw [missed] at claim after
    rw [claim, after] at rest
    cases rest
    exact ⟨booked, Or.inl rfl⟩
  · have took : s.perform .claim = (some row, { s with row := none }) := took
    rw [took] at claim after
    rw [claim, after] at rest
    obtain ⟨_, last, released, rest⟩ := Program.exec_bind_ok rest
    cases rest
    exact claimed_release booked positive stored (by simpa using unsettled) released

theorem sweep_commits (booked : Booked before hold start s) (positive : 0 < hold.reservedCredits) {now : Time}
    {v : Option PendingCreditHold} (h : (HoldTransaction.sweep now).commits faults s = some (v, s')) :
    Booked before hold start s' ∧ (s' = s ∨ s.outcome = .pending) := by
  obtain ⟨claimed, mid, claiming, rest⟩ := Program.exec_bind_ok (commits_exec h)
  obtain ⟨claim, after⟩ := inside_exec claiming
  rcases delete_cases (s := s) (fun row => row.expiresAt ≤ now && row.settledAt.isNone) with missed | ⟨row, stored, expired, took⟩
  · have missed : s.perform (.claimExpired now) = (none, s) := missed
    rw [missed] at claim after
    rw [claim, after] at rest
    cases rest
    exact ⟨booked, Or.inl rfl⟩
  · have took : s.perform (.claimExpired now) = (some row, { s with row := none }) := took
    rw [took] at claim after
    rw [claim, after] at rest
    obtain ⟨_, last, released, rest⟩ := Program.exec_bind_ok rest
    cases rest
    rw [booked.row row stored] at released
    exact claimed_release booked positive stored (by simpa using (Bool.and_eq_true_iff.mp expired).2) released

theorem settle_commits (booked : Booked before hold start s) {charged : JsNumber} {entry : CreditLedgerEntry} {v : ℚ}
    (h : (HoldTransaction.settle hold charged entry).commits faults s = some (v, s')) :
    Booked before hold start s' ∧ (s' = s ∨ s.outcome = .pending) ∧ (v = 0 ∨ s'.outcome = .settled v) := by
  obtain ⟨marked, mid, marking, rest⟩ := Program.exec_bind_ok (commits_exec h)
  obtain ⟨mark, after⟩ := inside_exec marking
  rcases markSettled_cases (s := s) (chargeOf hold charged) with missed | ⟨row, stored, unsettled, took⟩
  · have missed : s.perform (.markSettled (chargeOf hold charged)) = (false, s) := missed
    rw [missed] at mark after
    rw [mark, after] at rest
    obtain ⟨receipt, last, reading, rest⟩ := Program.exec_bind_ok rest
    obtain ⟨read, same⟩ := inside_exec reading
    cases rest
    refine ⟨same ▸ booked, Or.inl same, ?_⟩
    have same : s' = s := same
    have read : receipt = s.findSettlement := read
    rw [same, read]
    cases settlement : s.findSettlement with
    | none => exact Or.inl rfl
    | some charge => exact Or.inr (findSettlement_some settlement)
  · have took : s.perform (.markSettled (chargeOf hold charged)) =
        (true, { s with row := some { row with settledAt := some s.clock, settledCredits := some (chargeOf hold charged) } }) := took
    rw [took] at mark after
    rw [mark, after] at rest
    have pending := outcome_pending stored unsettled
    obtain ⟨owned, _, balance, rows, ledger, charges⟩ := booked
    rw [pending] at balance charges
    have balance : ({ s with row := some { row with
        settledAt := some s.clock, settledCredits := some (chargeOf hold charged) } } : Billing).balance
        hold.ownerType hold.ownerId = some (start - hold.reservedCredits) := balance
    obtain ⟨rfl, row', balance', recorded, ledger'⟩ := settleCreditHold_exec balance rest
    have outcome : s'.outcome = .settled (chargeOf hold charged) := by
      rw [Billing.outcome, row']
      rfl
    refine ⟨⟨?_, ?_, ?_, ?_⟩, Or.inr pending, Or.inr outcome⟩
    · intro r stored'
      rw [row'] at stored'
      cases stored'
      exact owned row stored
    · intro r stored' _
      rw [row'] at stored'
      cases stored'
      exact ⟨charged, rfl⟩
    · rw [balance', outcome]
      simp [HoldOutcome.kept]
    · refine ⟨(if chargeOf hold charged = 0 then [] else [⟨entry, chargeOf hold charged, recorded⟩]) ++ rows, ?_, ?_⟩
      · rw [ledger', List.append_assoc]
        exact congrArg _ ledger
      · have none : rows = [] := List.map_eq_nil_iff.mp charges
        rw [outcome, none]
        by_cases free : chargeOf hold charged = 0 <;> simp [HoldOutcome.charges, free]

end Books

/-! ### What a settle call is told -/

def HoldTransaction.concerns (hold : CreditHold) : HoldTransaction → Prop
  | .refund recorded | .settle recorded .. => recorded = hold
  | .sweep _ => True

def BillingOp.concerns (hold : CreditHold) : BillingOp → Prop
  | .transaction t => t.concerns hold
  | _ => True

inductive BillingPhase where
  | working
  | told (charge : ℚ)

/-- Only a settlement that commits and a receipt that is read tell a caller its charge. -/
inductive Settles (hold : CreditHold) : Protocol BillingPhase BillingOp BillingOp.Value JsError
  | quiet {p op reply} (concerns : op.concerns hold) : Settles hold p op reply p
  | committed {p charged entry v} : Settles hold p (.transaction (.settle hold charged entry)) (.ok v) (.told v)
  | receipt {p charge} : Settles hold p .findSettlement (.ok (some charge)) (.told charge)

def BillingEnded : Except JsError BillingResult → BillingPhase → Prop
  | .ok (.settled charged), q => charged = 0 ∨ q = .told charged
  | _, _ => True

section Programs
variable {hold : CreditHold} {p : BillingPhase} {charged : JsNumber} {entry : CreditLedgerEntry} {rethrow : Bool}

def ToldCharge : Except JsError ℚ → BillingPhase → Prop
  | .ok v, q => v = 0 ∨ q = .told v
  | .error _, _ => True

theorem reconcile_then {f : Option ℚ → Calls ℚ} (settled : ∀ charge, Follows (Settles hold) ToldCharge (f (some charge)) (.told charge))
    (unsettled : Follows (Settles hold) ToldCharge (f none) p) : Follows (Settles hold) ToldCharge (reconcile.bind f) p := by
  intro reply
  rcases reply with e | (_ | charge)
  · exact ⟨p, .quiet trivial, unsettled⟩
  · exact ⟨p, .quiet trivial, unsettled⟩
  · exact ⟨_, .receipt, settled charge⟩

theorem settleAttempt_follows (remaining : Nat) :
    Follows (Settles hold) ToldCharge (settleAttempt hold charged entry rethrow remaining) p := by
  induction remaining with
  | zero =>
    intro reply
    cases reply with
    | ok v => exact ⟨_, .committed, Or.inr rfl⟩
    | error e =>
      refine ⟨p, .quiet rfl, reconcile_then (fun charge => Or.inr rfl) ?_⟩
      dsimp only
      split
      · trivial
      · exact Or.inl rfl
  | succ remaining ih =>
    intro reply
    cases reply with
    | ok v => exact ⟨_, .committed, Or.inr rfl⟩
    | error e => exact ⟨p, .quiet rfl, reconcile_then (fun charge => Or.inr rfl) ih⟩

theorem sweepAll_only {now : Time} (expired : List PendingCreditHold) : Only (BillingOp.concerns hold) (sweepAll now expired) := by
  induction expired with
  | nil => trivial
  | cons candidate rest ih =>
    have swept : (BillingOp.transaction (.sweep now)).concerns hold := trivial
    exact only_bind (only_tryCatch (only_bind (only_perform swept) fun _ => trivial) fun _ => trivial) fun _ => ih

theorem release_only : Only (BillingOp.concerns hold) (releaseHeldCredits hold) := by
  have refunds : (BillingOp.transaction (.refund hold)).concerns hold := rfl
  exact only_tryCatch (only_bind (only_perform refunds) fun _ => trivial) fun _ => trivial

theorem sweep_only : Only (BillingOp.concerns hold) runCreditHoldSweep :=
  only_bind (only_perform trivial) fun _ => only_bind (only_perform trivial) fun expired => sweepAll_only expired

theorem billing_follows (call : BillingCall) : Follows (Settles hold) BillingEnded (call.program hold) .working := by
  cases call with
  | refund =>
    refine follows_bind (release_only.follows (fun _ _ concerns => .quiet concerns) ?_)
    rintro (e | _) <;> trivial
  | settle charged entry rethrow =>
    refine follows_bind (follows_mono (settleAttempt_follows _) ?_)
    rintro (e | v) q told <;> exact told
  | sweep =>
    refine follows_bind (sweep_only.follows (fun _ _ concerns => .quiet concerns) ?_)
    rintro (e | _) <;> trivial

end Programs

/-! ### Every run -/

section Runs
variable {before s s' : Billing} {hold : CreditHold} {start : ℚ} {ph : Nat → BillingPhase} {i : Nat} {q : BillingPhase}

/-- The books are right, and what callers were told is what was charged. -/
structure Reconciled (before : Billing) (hold : CreditHold) (start : ℚ) (s : Billing) (ph : Nat → BillingPhase) : Prop
    extends Booked before hold start s where
  told : ∀ i charge, ph i = .told charge → charge = 0 ∨ s.outcome = .settled charge

/-- Every operation keeps the books, and only a pending hold comes to another outcome. -/
theorem billing_exec {op : BillingOp} {x : BillingChoice} {reply : Except JsError op.Value} (booked : Booked before hold start s)
    (positive : 0 < hold.reservedCredits) (concerns : op.concerns hold) (executed : s.exec op x = some (reply, s')) :
    Booked before hold start s' ∧ (s' = s ∨ s.outcome = .pending) := by
  cases x with
  | rejects error =>
    cases executed
    exact ⟨booked, Or.inl rfl⟩
  | resolves => cases op <;> cases executed <;> exact ⟨booked, Or.inl rfl⟩
  | commits faults acknowledged =>
    cases op with
    | transaction t =>
      obtain ⟨⟨v, after⟩, committed, same⟩ := Option.map_eq_some_iff.mp executed
      cases same
      cases t with
      | refund recorded =>
        obtain rfl : recorded = hold := concerns
        exact refund_commits booked positive committed
      | settle recorded charged entry =>
        obtain rfl : recorded = hold := concerns
        obtain ⟨kept, moved, _⟩ := settle_commits booked committed
        exact ⟨kept, moved⟩
      | sweep now => exact sweep_commits booked positive committed
    | _ => cases executed

theorem settle_returned {charged : JsNumber} {entry : CreditLedgerEntry} {x : BillingChoice} {v : ℚ}
    (executed : s.exec (.transaction (.settle hold charged entry)) x = some (.ok v, s')) :
    ∃ faults, (HoldTransaction.settle hold charged entry).commits faults s = some (v, s') := by
  cases x with
  | commits faults acknowledged =>
    obtain ⟨⟨v', after⟩, committed, same⟩ := Option.map_eq_some_iff.mp executed
    cases acknowledged with
    | true =>
      cases same
      exact ⟨faults, committed⟩
    | false => cases same
  | _ => cases executed

theorem receipt_returned {x : BillingChoice} {found : Option ℚ} (executed : s.exec .findSettlement x = some (.ok found, s')) :
    s.findSettlement = found ∧ s' = s := by
  cases x with
  | resolves =>
    cases executed
    exact ⟨rfl, rfl⟩
  | _ => cases executed

theorem settles_concerns {p : BillingPhase} {op : BillingOp} {reply : Except JsError op.Value}
    (step : Settles hold p op reply q) : op.concerns hold := by
  cases step with
  | quiet concerns => exact concerns
  | committed => exact rfl
  | receipt => trivial

theorem reconciled_step {op : BillingOp} {x : BillingChoice} {reply : Except JsError op.Value}
    (inv : Reconciled before hold start s ph) (positive : 0 < hold.reservedCredits) (executed : s.exec op x = some (reply, s'))
    (step : Settles hold (ph i) op reply q) : Reconciled before hold start s' (Function.update ph i q) := by
  obtain ⟨booked, moved⟩ := billing_exec inv.toBooked positive (settles_concerns step) executed
  have kept : ∀ charge, charge = 0 ∨ s.outcome = .settled charge → charge = 0 ∨ s'.outcome = .settled charge := by
    rintro charge (free | settled)
    · exact Or.inl free
    · rcases moved with rfl | pending
      · exact Or.inr settled
      · rw [pending] at settled
        cases settled
  refine ⟨booked, fun k charge told => ?_⟩
  rcases updated told with ⟨rfl, mine⟩ | ⟨_, told⟩
  · cases step with
    | quiet => exact kept charge (inv.told k charge mine)
    | committed =>
      cases mine
      obtain ⟨faults, committed⟩ := settle_returned executed
      exact (settle_commits inv.toBooked committed).2.2
    | receipt =>
      cases mine
      obtain ⟨found, rfl⟩ := receipt_returned executed
      exact Or.inr (findSettlement_some found)
  · exact kept charge (inv.told k charge told)

theorem reconciled_move {e : BillingMove} (inv : Reconciled before hold start s ph) (moved : s.move e = some s') :
    Reconciled before hold start s' ph ∧ s'.outcome = s.outcome := by
  cases e <;> cases moved <;> exact ⟨⟨⟨inv.row, inv.receipt, inv.balance, inv.ledger⟩, inv.told⟩, rfl⟩

theorem reconciled_preserves (positive : 0 < hold.reservedCredits) :
    Preserves billing (Settles hold) (fun _ _ _ _ => True) (Reconciled before hold start) where
  env inv moved := (reconciled_move inv moved).1
  step inv _ executed step := reconciled_step inv positive executed step

theorem concluded_preserves (positive : 0 < hold.reservedCredits) {outcome : HoldOutcome} (concluded : outcome ≠ .pending) :
    Preserves billing (Settles hold) (fun _ _ _ _ => True) (fun s ph => Reconciled before hold start s ph ∧ s.outcome = outcome) where
  env inv moved := by
    obtain ⟨reconciled, same⟩ := reconciled_move inv.1 moved
    exact ⟨reconciled, same.trans inv.2⟩
  step inv _ executed step := by
    refine ⟨reconciled_step inv.1 positive executed step, ?_⟩
    rcases (billing_exec inv.1.toBooked positive (settles_concerns step) executed).2 with rfl | pending
    · exact inv.2
    · exact (concluded (inv.2.symm.trans pending)).elim

abbrev BillingConfig := Config Nat Billing BillingOp BillingOp.Value JsError BillingResult

/-- Every call about to start on the recorded hold. -/
def billingStart (recorded : Billing) (hold : CreditHold) (calls : Nat → BillingCall) : BillingConfig where
  store := recorded
  threads i := (calls i).program hold

/-- A recorded hold is refunded or settled once and for all, the balance and the ledger say which, and a
caller that is told a charge is told the committed one. -/
theorem pending_hold_settles_once {request : HoldRequest} {expiresAt : Time} {faults : Faults} {recorded : Billing}
    {calls : Nat → BillingCall} {first later : List (Action Nat BillingChoice BillingMove)} {c₁ c₂ : BillingConfig}
    (reserved : (reserveRequestCredits request expiresAt).exec (performing faults) before = (.ok hold, recorded))
    (reached : billing.run (billingStart recorded hold calls) first = some c₁) (continued : billing.run c₁ later = some c₂) :
    (∃ start, before.balance hold.ownerType hold.ownerId = some start ∧ Booked before hold start c₂.store) ∧
      (c₁.store.outcome ≠ .pending → c₂.store.outcome = c₁.store.outcome) ∧
      (∀ charge, c₂.store.outcome = .settled charge → 0 ≤ charge ∧ charge ≤ hold.reservedCredits) ∧
      ∀ i charged, c₂.threads i = .pure (.settled charged) → 0 < charged → c₂.store.outcome = .settled charged := by
  obtain ⟨positive, row, ledger, start, began, balance⟩ := reserveRequestCredits_exec reserved
  have pending : recorded.outcome = .pending := outcome_pending row rfl
  have initial : Reconciled before hold start recorded (fun _ => .working) := by
    refine ⟨⟨fun r stored => ?_, fun r stored settled => ?_, ?_, [], by simpa using ledger, ?_⟩, fun _ _ told => by cases told⟩
    · rw [row] at stored
      cases stored
      rfl
    · rw [row] at stored
      cases stored
      cases settled
    · rw [pending]
      exact balance
    · rw [pending]
      rfl
  have tracked : Tracked (Settles hold) BillingEnded (Reconciled before hold start) (billingStart recorded hold calls) :=
    ⟨fun _ => .working, initial, fun i => billing_follows (calls i)⟩
  have free : ∀ {c : BillingConfig} {sched : List (Action Nat BillingChoice BillingMove)},
      billing.Meets (fun _ _ _ _ => True) c sched := Semantics.meets_all fun _ _ _ _ => trivial
  obtain ⟨ph₁, inv₁, follows₁⟩ := run_invariant (reconciled_preserves positive) tracked free reached
  obtain ⟨ph₂, inv₂, follows₂⟩ := run_invariant (reconciled_preserves positive) ⟨ph₁, inv₁, follows₁⟩ free continued
  refine ⟨⟨start, began, inv₂.toBooked⟩, fun concluded => ?_, fun charge settled => ?_, fun i charged thread charges => ?_⟩
  · obtain ⟨_, ⟨_, kept⟩, _⟩ :=
      run_invariant (concluded_preserves positive concluded) ⟨ph₁, ⟨inv₁, rfl⟩, follows₁⟩ free continued
    exact kept
  · cases stored : c₂.store.row with
    | none => simp [Billing.outcome, stored] at settled
    | some r =>
      simp only [Billing.outcome, stored] at settled
      split at settled
      · rename_i receipt
        obtain ⟨charged, committed⟩ := inv₂.receipt r stored receipt
        rw [committed] at settled
        cases settled
        exact ⟨charge_nonneg positive.le charged, charge_le_reserved hold charged⟩
      · cases settled
  · have here := follows₂ i
    rw [thread] at here
    rcases here with free | told
    · rw [free] at charges
      exact (lt_irrefl _ charges).elim
    · exact (inv₂.told i charged told).resolve_left charges.ne'

end Runs

namespace LostAcknowledgement

def before : Billing where
  balance
    | .user, "user" => some 1000
    | _, _ => none
  users _ := true
  organizations _ := none
  clock := 0

def request : HoldRequest := ⟨"user", none, .finite 100, "music"⟩

def hold : CreditHold where
  ownerId := "user"
  ownerType := .user
  userId := "user"
  organizationId := none
  reservedCredits := 100
  balanceAfterHold := 900

def recorded : Billing := ((reserveRequestCredits request CREDIT_HOLD_TTL_MS).exec (performing fun _ => none) before).2

def calls (i : Nat) : BillingCall := if i = 0 then .settle (.finite 40) ⟨"usage", "session", "model", none, none⟩ false else .refund

/-- The settlement commits without its acknowledgement, and a refund comes before the receipt is read. -/
def settles : List (Action Nat BillingChoice BillingMove) := [.resume 0 (.commits (fun _ => none) false)]

def reconciles : List (Action Nat BillingChoice BillingMove) := [.resume 1 (.commits (fun _ => none) true), .resume 0 .resolves]

end LostAcknowledgement

open LostAcknowledgement in
theorem settled_despite_lost_acknowledgement : ∃ c₂, billing.run (billingStart recorded hold calls) (settles ++ reconciles) = some c₂ ∧
    c₂.store.outcome = .settled 40 ∧ c₂.store.balance .user "user" = some 960 := by
  have reserved : (reserveRequestCredits request CREDIT_HOLD_TTL_MS).exec (performing fun _ => none) before = (.ok hold, recorded) :=
    Prod.ext (by decide +kernel) rfl
  have ran : (billing.run (billingStart recorded hold calls) (settles ++ reconciles)).map
      (fun c => (c.threads 0).result?) = some (some (.settled 40)) := by decide +kernel
  obtain ⟨c₂, ran, told⟩ := Option.map_eq_some_iff.mp ran
  obtain ⟨c₁, reached, continued⟩ := Semantics.run_append.mp ran
  obtain ⟨⟨start, began, booked⟩, _, _, charged⟩ := pending_hold_settles_once reserved reached continued
  have outcome := charged 0 40 (Program.result_some told) (by decide)
  obtain rfl : (1000 : ℚ) = start := Option.some.inj began
  have balance := booked.balance
  rw [outcome] at balance
  refine ⟨c₂, ran, outcome, balance.trans ?_⟩
  norm_num [HoldOutcome.kept]

end Bike4Mind.Credits
