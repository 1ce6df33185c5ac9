import Bike4Mind.Runtime

/-!
Credit holds: credits leave the balance before the provider is called, and come back when the hold
is released or settled. The three functions are written over any monad with rejections, so that the
interleaved calls and the bodies of transactions run the same text.
-/

namespace Bike4Mind.Credits

inductive CreditHolderType where
  | user
  | organization
  deriving DecidableEq

/-- Credits moved out of an owner's balance ahead of a paid provider call. -/
structure CreditHold where
  ownerId : String
  ownerType : CreditHolderType
  userId : String
  organizationId : Option String
  reservedCredits : ℚ
  balanceAfterHold : ℚ
  deriving DecidableEq

structure CreditLedgerEntry where
  type : String
  sessionId : String
  model : String
  questId : Option String := none
  apiKeyId : Option String := none
  deriving DecidableEq

structure Organization where
  isMemberCreditCapExceeded : String → ℚ → Bool

/-- The repositories a hold moves credits through; `incrementCredits` answers the new balance, or
`none` when the holder is gone. -/
structure CreditHoldAdapters (m : Type → Type) where
  findUser : String → m Bool
  findOrganization : String → m (Option Organization)
  incrementCredits : CreditHolderType → String → ℚ → m (Option ℚ)
  deductCredits : CreditLedgerEntry → ℚ → ℚ → m Unit
  assertBillable : m Unit
  assertNewAccountSpendWithinCap : String → ℚ → Bool → m Unit
  onInsufficientCredits : String → CreditRefusal → m Unit

section
variable {m : Type → Type} [Monad m] [MonadExcept JsError m]

def holderOf (hold : CreditHold) (db : CreditHoldAdapters m) (amount : ℚ) : m (Option ℚ) :=
  db.incrementCredits hold.ownerType hold.ownerId amount

def notifyInsufficientCredits (db : CreditHoldAdapters m) (userId : String) (refusal : CreditRefusal) : m Unit :=
  tryCatch (db.onInsufficientCredits userId refusal) fun _ => pure ()

structure HoldRequest where
  userId : String
  organizationId : Option String
  requiredCredits : JsNumber
  featureLabel : String
  deriving DecidableEq

def HoldRequest.amount? (request : HoldRequest) : Option ℚ :=
  match request.requiredCredits with
  | .finite q => if q ≤ 0 then none else some q
  | _ => none

theorem amount_pos {request : HoldRequest} {required : ℚ} (amount : request.amount? = some required) : 0 < required := by
  unfold HoldRequest.amount? at amount
  split at amount
  · split at amount
    · cases amount
    · rename_i positive
      cases amount
      exact not_le.mp positive
  · cases amount

/-- An empty id is falsy: no organization is loaded for it. -/
def loadOrganization (organizationId : Option String) (db : CreditHoldAdapters m) : m (Option Organization) :=
  match organizationId with
  | none | some "" => pure none
  | some id => do
    let some organization ← db.findOrganization id
      | throw (.badRequest "Billing organization not found")
    return some organization

def refuse {α : Type} (userId : String) (refusal : CreditRefusal) (db : CreditHoldAdapters m) : m α := do
  notifyInsufficientCredits db userId refusal
  throw (.insufficientCredits refusal)

def assertMemberCap (request : HoldRequest) (requiredCredits : ℚ) (organization : Option Organization)
    (db : CreditHoldAdapters m) : m Unit :=
  if organization.any (·.isMemberCreditCapExceeded request.userId requiredCredits) then
    refuse request.userId (.memberCap request.featureLabel) db
  else pure ()

/-- The atomic decrement doubles as the balance check; rolled back when it overdraws. -/
def reserve (request : HoldRequest) (requiredCredits : ℚ) (billedToOrganization : Bool) (db : CreditHoldAdapters m) :
    m CreditHold := do
  let ownerId := request.organizationId.getD request.userId
  let ownerType := if billedToOrganization then .organization else .user
  let some currentCredits ← db.incrementCredits ownerType ownerId (-requiredCredits)
    | throw (.badRequest (if billedToOrganization then "Billing organization not found" else "User not found"))
  if currentCredits < 0 then
    tryCatch (do let _ ← db.incrementCredits ownerType ownerId requiredCredits) fun _ => pure ()
    refuse request.userId (.balance request.featureLabel (currentCredits + requiredCredits) requiredCredits
      billedToOrganization) db
  else
    return {
      ownerId := ownerId
      ownerType := ownerType
      userId := request.userId
      organizationId := if billedToOrganization then request.organizationId else none
      reservedCredits := requiredCredits
      balanceAfterHold := currentCredits }

def holdCredits (request : HoldRequest) (db : CreditHoldAdapters m) : m CreditHold := do
  let some requiredCredits := request.amount?
    | throw (.error s!"{request.featureLabel} credit hold requires a positive finite amount")
  if !(← db.findUser request.userId) then
    throw (.badRequest "User not found")
  else
    let organization ← loadOrganization request.organizationId db
    db.assertBillable
    assertMemberCap request requiredCredits organization db
    db.assertNewAccountSpendWithinCap request.userId requiredCredits organization.isSome
    reserve request requiredCredits organization.isSome db

/-- Return the whole hold: the provider call failed and incurred no cost. -/
def releaseCreditHold (hold : CreditHold) (db : CreditHoldAdapters m) : m Unit := do
  if hold.reservedCredits ≤ 0 then
    return
  let _ ← holderOf hold db hold.reservedCredits

/-- `chargedCredits` clamped to the reservation; a charge that is not finite keeps all of it. -/
def chargeOf (hold : CreditHold) : JsNumber → ℚ
  | .finite credits => min (max credits 0) hold.reservedCredits
  | _ => hold.reservedCredits

/-- What the `catch` of a settlement's write does: transactional callers let every failure abort. -/
def onWriteFailure {α : Type} (throwOnWriteFailure : Bool) (fallback : α) (err : JsError) : m α :=
  if throwOnWriteFailure then throw err else pure fallback

/-- The refund of what was reserved but not charged, and the balance the ledger row records. The
provider already delivered, so a failed refund is logged rather than thrown. -/
def refundOverReserved (hold : CreditHold) (overReserved : ℚ) (throwOnWriteFailure : Bool) (db : CreditHoldAdapters m) :
    m ℚ :=
  if 0 < overReserved then
    tryCatch (do return (← holderOf hold db overReserved).getD hold.balanceAfterHold)
      (onWriteFailure throwOnWriteFailure hold.balanceAfterHold)
  else pure hold.balanceAfterHold

/-- The ledger row, for holders loaded here: a different process may settle the hold. -/
def deductHeldCredits (hold : CreditHold) (charged settledHolder : ℚ) (entry : CreditLedgerEntry)
    (db : CreditHoldAdapters m) : m Unit := do
  if !(← db.findUser hold.userId) then
    throw (.error "User not found")
  else match hold.organizationId with
    | none | some "" => db.deductCredits entry charged settledHolder
    | some organizationId => do
      let some _ ← db.findOrganization organizationId
        | throw (.error "Billing organization not found")
      db.deductCredits entry charged settledHolder

/-- Keep the charge, refund the rest and write the ledger row. Returns the credits charged. -/
def settleCreditHold (hold : CreditHold) (chargedCredits : JsNumber) (entry : CreditLedgerEntry)
    (throwOnWriteFailure : Bool) (db : CreditHoldAdapters m) : m ℚ := do
  let charged := chargeOf hold chargedCredits
  let settledHolder ← refundOverReserved hold (hold.reservedCredits - charged) throwOnWriteFailure db
  if charged = 0 then
    return 0
  else
    tryCatch (deductHeldCredits hold charged settledHolder entry db) (onWriteFailure throwOnWriteFailure ())
    return charged

end

/-! ### The adapters' calls as awaited operations -/

inductive CreditOp where
  | findUser (id : String)
  | findOrganization (id : String)
  | incrementCredits (ownerType : CreditHolderType) (ownerId : String) (amount : ℚ)
  | deductCredits (entry : CreditLedgerEntry) (credits currentCredits : ℚ)
  | assertBillable
  | assertNewAccountSpendWithinCap (userId : String) (requestedCredits : ℚ) (billedToOrganization : Bool)
  | onInsufficientCredits (userId : String) (refusal : CreditRefusal)

abbrev CreditOp.Value : CreditOp → Type
  | .findUser _ => Bool
  | .findOrganization _ => Option Organization
  | .incrementCredits .. => Option ℚ
  | .deductCredits .. | .assertBillable | .assertNewAccountSpendWithinCap .. | .onInsufficientCredits .. => Unit

def CreditHoldAdapters.ofCalls {m : Type → Type} (call : (op : CreditOp) → m op.Value) : CreditHoldAdapters m where
  findUser id := call (.findUser id)
  findOrganization id := call (.findOrganization id)
  incrementCredits ownerType ownerId amount := call (.incrementCredits ownerType ownerId amount)
  deductCredits entry credits currentCredits := call (.deductCredits entry credits currentCredits)
  assertBillable := call .assertBillable
  assertNewAccountSpendWithinCap userId credits org := call (.assertNewAccountSpendWithinCap userId credits org)
  onInsufficientCredits userId refusal := call (.onInsufficientCredits userId refusal)

theorem charge_nonneg {hold : CreditHold} (reserved : 0 ≤ hold.reservedCredits) (charged : JsNumber) :
    0 ≤ chargeOf hold charged := by
  cases charged with
  | finite credits => exact le_min (le_max_right _ _) reserved
  | _ => exact reserved

theorem charge_le_reserved (hold : CreditHold) (charged : JsNumber) :
    chargeOf hold charged ≤ hold.reservedCredits := by
  cases charged with
  | finite credits => exact min_le_right _ _
  | _ => exact le_rfl

end Bike4Mind.Credits
