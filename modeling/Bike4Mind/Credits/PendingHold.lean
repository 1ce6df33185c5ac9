import Bike4Mind.Concurrency.Atomic
import Bike4Mind.Credits.CreditHold

/-!
The pending row of a request's hold, and the four transactions that write it. A transaction is
atomic and isolated: it aborts, or it commits, and a commit may be reported as a failure. Receipts are
read before their TTL removes them.
-/

namespace Bike4Mind.Credits
open Concurrency

def CREDIT_HOLD_TTL_MS : Int := 60 * 60000
def SETTLEMENT_ATTEMPTS : Nat := 3
def CREDIT_HOLD_SWEEP_LIMIT : Nat := 200

structure PendingCreditHold extends CreditHold where
  featureLabel : String
  expiresAt : Time
  settledAt : Option Time := none
  settledCredits : Option ℚ := none
  deriving DecidableEq

/-- A usage row of the ledger. -/
structure CreditTransaction where
  entry : CreditLedgerEntry
  credits : ℚ
  currentCredits : ℚ
  deriving DecidableEq

structure Billing where
  balance : CreditHolderType → String → Option ℚ
  /-- The row under the hold's id. -/
  row : Option PendingCreditHold := none
  /-- Newest first. -/
  ledger : List CreditTransaction := []
  users : String → Bool
  organizations : String → Option Organization
  clock : Time

/-! ### Inside a transaction -/

inductive TransactionOp where
  | credit (op : CreditOp)
  | record (hold : CreditHold) (featureLabel : String) (expiresAt : Time)
  | markSettled (settledCredits : ℚ)
  | findSettlement
  | claim
  | claimExpired (now : Time)

abbrev TransactionOp.Value : TransactionOp → Type
  | .credit op => op.Value
  | .record .. => PendingCreditHold
  | .markSettled _ => Bool
  | .findSettlement => Option ℚ
  | .claim | .claimExpired _ => Option PendingCreditHold

abbrev Transaction (α : Type) := Program TransactionOp TransactionOp.Value JsError α

abbrev inside (op : TransactionOp) : Transaction op.Value := .perform op

def holdAdapters : CreditHoldAdapters (Program TransactionOp TransactionOp.Value JsError) := .ofCalls fun op => inside (.credit op)

namespace Billing

/-- `findOneAndDelete`. -/
def delete (s : Billing) (filter : PendingCreditHold → Bool) : Option PendingCreditHold × Billing :=
  match s.row.filter filter with
  | none => (none, s)
  | some row => (some row, { s with row := none })

def markSettled (s : Billing) (settledCredits : ℚ) : Bool × Billing :=
  match s.row.filter (·.settledAt.isNone) with
  | none => (false, s)
  | some row => (true, { s with row := some { row with settledAt := some s.clock, settledCredits := some settledCredits } })

def findSettlement (s : Billing) : Option ℚ :=
  match s.row with
  | some row => if row.settledAt.isSome then row.settledCredits else none
  | none => none

def increment (s : Billing) (ownerType : CreditHolderType) (ownerId : String) (amount : ℚ) : Option ℚ × Billing :=
  match s.balance ownerType ownerId with
  | none => (none, s)
  | some current => (some (current + amount), { s with
      balance := fun T id => if T = ownerType ∧ id = ownerId then some (current + amount) else s.balance T id })

def credit (s : Billing) : (op : CreditOp) → op.Value × Billing
  | .findUser id => (s.users id, s)
  | .findOrganization id => (s.organizations id, s)
  | .incrementCredits ownerType ownerId amount => s.increment ownerType ownerId amount
  | .deductCredits entry credits currentCredits => ((), { s with ledger := ⟨entry, credits, currentCredits⟩ :: s.ledger })
  | .assertBillable | .assertNewAccountSpendWithinCap .. | .onInsufficientCredits .. => ((), s)

def perform (s : Billing) : (op : TransactionOp) → op.Value × Billing
  | .credit op => s.credit op
  | .record hold featureLabel expiresAt =>
    let row : PendingCreditHold := { toCreditHold := hold, featureLabel := featureLabel, expiresAt := expiresAt }
    (row, { s with row := some row })
  | .markSettled settledCredits => s.markSettled settledCredits
  | .findSettlement => (s.findSettlement, s)
  | .claim => s.delete (·.settledAt.isNone)
  | .claimExpired now => s.delete fun row => row.expiresAt ≤ now && row.settledAt.isNone

end Billing

/-- The writes and reads of one transaction that fail. -/
abbrev Faults := TransactionOp → Option JsError

def performing (faults : Faults) (op : TransactionOp) (s : Billing) : Except JsError op.Value × Billing :=
  match faults op with
  | some error => (.error error, s)
  | none => (.ok (s.perform op).1, (s.perform op).2)

/-! ### The four transactions -/

/-- Its transaction: the balance never moves without a pending row that the sweep can find. -/
def reserveRequestCredits (request : HoldRequest) (expiresAt : Time) : Transaction CreditHold := do
  let hold ← holdCredits request holdAdapters
  let _ ← inside (.record hold request.featureLabel expiresAt)
  return hold

inductive HoldTransaction where
  | refund (hold : CreditHold)
  | settle (hold : CreditHold) (chargedCredits : JsNumber) (entry : CreditLedgerEntry)
  | sweep (now : Time)

abbrev HoldTransaction.Value : HoldTransaction → Type
  | .refund _ => Bool
  | .settle .. => ℚ
  | .sweep _ => Option PendingCreditHold

def HoldTransaction.body : (t : HoldTransaction) → Transaction t.Value
  | .refund hold => do
    match ← inside .claim with
    | none => return false
    | some _ =>
      releaseCreditHold hold holdAdapters
      return true
  | .settle hold chargedCredits entry => do
    if !(← inside (.markSettled (chargeOf hold chargedCredits))) then
      return (← inside .findSettlement).getD 0
    else
      settleCreditHold hold chargedCredits entry true holdAdapters
  | .sweep now => do
    match ← inside (.claimExpired now) with
    | none => return none
    | some claimed =>
      releaseCreditHold claimed.toCreditHold holdAdapters
      return some claimed

/-- What the transaction commits; a body that throws aborts. -/
def HoldTransaction.commits (t : HoldTransaction) (faults : Faults) (s : Billing) : Option (t.Value × Billing) :=
  match t.body.exec (performing faults) s with
  | (.ok v, s') => some (v, s')
  | (.error _, _) => none

/-! ### The calls on a recorded hold -/

inductive BillingOp where
  | now
  | transaction (t : HoldTransaction)
  | findSettlement
  | findExpired (now : Time)

abbrev BillingOp.Value : BillingOp → Type
  | .now => Time
  | .transaction t => t.Value
  | .findSettlement => Option ℚ
  | .findExpired _ => List PendingCreditHold

abbrev Calls (α : Type) := Program BillingOp BillingOp.Value JsError α

abbrev awaiting (op : BillingOp) : Calls op.Value := .perform op

/-- Never throws: a failed refund is left for the sweep. -/
def releaseHeldCredits (hold : CreditHold) : Calls Unit :=
  tryCatch (do let _ ← awaiting (.transaction (.refund hold))) fun _ => return

/-- The receipt, or `none` when there is none or it cannot be read. -/
def reconcile : Calls (Option ℚ) :=
  tryCatch (awaiting .findSettlement) fun _ => return none

/-- `remaining` attempts are left after this one. -/
def settleAttempt (hold : CreditHold) (chargedCredits : JsNumber) (entry : CreditLedgerEntry) (throwOnUnconfirmed : Bool) :
    Nat → Calls ℚ
  | 0 =>
    tryCatch (awaiting (.transaction (.settle hold chargedCredits entry))) fun error => do
      match ← reconcile with
      | some settled => return settled
      | none => if throwOnUnconfirmed then throw error else return 0
  | remaining + 1 =>
    tryCatch (awaiting (.transaction (.settle hold chargedCredits entry))) fun _ => do
      match ← reconcile with
      | some settled => return settled
      | none => settleAttempt hold chargedCredits entry throwOnUnconfirmed remaining

def settlePendingHold (hold : CreditHold) (chargedCredits : JsNumber) (entry : CreditLedgerEntry) (throwOnUnconfirmed : Bool) :
    Calls ℚ :=
  settleAttempt hold chargedCredits entry throwOnUnconfirmed (SETTLEMENT_ATTEMPTS - 1)

/-- One transaction for each candidate; a refund that fails is retried by the next run. -/
def sweepAll (now : Time) : List PendingCreditHold → Calls Unit
  | [] => return
  | _ :: rest => do
    tryCatch (do let _ ← awaiting (.transaction (.sweep now))) fun _ => pure ()
    sweepAll now rest

def runCreditHoldSweep : Calls Unit := do
  let now ← awaiting .now
  let expired ← awaiting (.findExpired now)
  sweepAll now expired

/-! ### Runs -/

inductive BillingChoice where
  | resolves
  | commits (faults : Faults) (acknowledged : Bool)
  | rejects (error : JsError)

inductive BillingMove where
  | tick (elapsed : Nat)
  | directory (users : String → Bool) (organizations : String → Option Organization)

def Billing.findExpired (s : Billing) (now : Time) : List PendingCreditHold :=
  ((s.row.filter fun row => row.expiresAt ≤ now && row.settledAt.isNone).toList).take CREDIT_HOLD_SWEEP_LIMIT

def lostAcknowledgement : JsError := .error "unknown transaction commit result"

def Billing.exec (s : Billing) : (op : BillingOp) → BillingChoice → Option (Except JsError op.Value × Billing)
  | _, .rejects error => some (.error error, s)
  | .now, .resolves => some (.ok s.clock, s)
  | .findSettlement, .resolves => some (.ok s.findSettlement, s)
  | .findExpired now, .resolves => some (.ok (s.findExpired now), s)
  | .transaction t, .commits faults acknowledged =>
    (t.commits faults s).map fun out => (if acknowledged then .ok out.1 else .error lostAcknowledgement, out.2)
  | _, _ => none

def Billing.move (s : Billing) : BillingMove → Option Billing
  | .tick elapsed => some { s with clock := s.clock + elapsed }
  | .directory users organizations => some { s with users := users, organizations := organizations }

def billing : Semantics Nat Billing BillingOp BillingOp.Value JsError BillingChoice BillingMove where
  exec _ := Billing.exec
  env := Billing.move

inductive BillingCall where
  | refund
  | settle (chargedCredits : JsNumber) (entry : CreditLedgerEntry) (throwOnUnconfirmed : Bool)
  | sweep

inductive BillingResult where
  | refunded
  | settled (charged : ℚ)
  | swept
  deriving DecidableEq

def BillingCall.program (hold : CreditHold) : BillingCall → Calls BillingResult
  | .refund => do
    releaseHeldCredits hold
    return .refunded
  | .settle chargedCredits entry throwOnUnconfirmed => do
    return .settled (← settlePendingHold hold chargedCredits entry throwOnUnconfirmed)
  | .sweep => do
    runCreditHoldSweep
    return .swept

end Bike4Mind.Credits
