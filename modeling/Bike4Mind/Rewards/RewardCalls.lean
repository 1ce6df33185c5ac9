import Bike4Mind.Rewards.RewardStore

/-! Paying a free reward, and releasing the queued ones. -/

namespace Bike4Mind.Rewards
open Concurrency

abbrev Call (α : Type) := Program Op Op.Value RewardError α

def ask (query : Query) : Call query.Answer := .perform (Op.ask query)
def budgetSetting : Call (Option PoolBudget) := .perform Op.budgetSetting
def reserve (key transactionId : String) (amount budget : ℚ) : Call (Option BudgetReservation) :=
  .perform (Op.reserve key transactionId amount budget)
def refund (key transactionId : String) (amount : ℚ) : Call Unit := .perform (Op.refund key transactionId amount)
def getSpent (key : String) : Call ℚ := .perform (Op.getSpent key)
def findTransaction (transactionId : String) : Call Bool := .perform (Op.findTransaction transactionId)
def createTransaction (row : LedgerRow) : Call (Option String) := .perform (Op.createTransaction row)
def incrementCredits (ownerId : String) (credits : ℚ) (transactionId : String) : Call Bool :=
  .perform (Op.incrementCredits ownerId credits transactionId)
def beginTransaction : Call Unit := .perform Op.beginTransaction
def commitTransaction : Call Unit := .perform Op.commitTransaction
def abortTransaction : Call Unit := .perform Op.abortTransaction

def findUser (id : String) : Call (Option RewardPartyFields) := ask (.user id)
def today : Call String := ask .today

structure Adapters where
  -- `signupProtection.grantBudget` is wired.
  grantBudget : Bool := true
  -- The most attempts an owned transaction gets beyond the first, where the caller passes `withTransaction`.
  withTransaction : Option Nat := none
  -- `duplicateTransactionId: 'throw'`
  duplicateThrows : Bool := false
  creditLots : Bool := true
  -- What `secureParameters` lets through.
  accepts : HeldCreditRewardInput → Bool := fun _ => true

/-! ### Accounts -/

inductive AccountBlockReason where
  | banned | disputePending | suspended
  deriving DecidableEq

def accountBlockReasons (user : RewardPartyFields) : List AccountBlockReason :=
  (if user.isBanned then [.banned] else []) ++ (if user.disputePending then [.disputePending] else []) ++
    if user.moderation = some .suspended then [.suspended] else []

def isRewardPartyBlocked (party : RewardPartyFields) : Bool :=
  party.deleted || party.isSynthetic || !(accountBlockReasons party).isEmpty || party.moderation == some .suspendPending

def isRewardRecipientBlocked (party : RewardPartyFields) : Bool := isRewardPartyBlocked party || party.signupGrantBlocked

inductive PartyBlock where
  | terminal | transient
  deriving DecidableEq

def partyBlock (isRecipient : Bool) : Option RewardPartyFields → Option PartyBlock
  | none => some .terminal
  | some party =>
    if party.deleted || party.isSynthetic || party.isBanned then some .terminal
    else if if isRecipient then isRewardRecipientBlocked party else isRewardPartyBlocked party then some .transient
    else none

def partiesBlock (reward : HeldCreditRewardInput) : Call (Option PartyBlock) := do
  let userBlock := partyBlock true (← findUser reward.userId)
  if userBlock = some .terminal then return userBlock
  else
    match reward.source, reward.referredUserId with
    | .referralFirstAnswer, some friendId => return (partyBlock false (← findUser friendId)).or userBlock
    | _, _ => return userBlock

/-! ### The pool -/

structure ResolvedBudget where
  budget : ℚ
  missing : Bool

def resolvePoolBudget : Call ResolvedBudget := do
  match ← budgetSetting with
  | some setting => return { budget := setting.value, missing := false }
  | none => return { budget := 0, missing := true }

def signupGrantBudgetKey (day : String) : String := "trickle:" ++ day

/-- What it reports is passed on without being awaited. -/
def alertCrossing (key : String) (threshold : SignupGrantBudgetThreshold) (readSpent : Call ℚ) : Call Unit :=
  tryCatch (do
    if ← ask (.markAlerted key threshold) then
      let _ ← readSpent
      return ()
    else return ()) fun _ => return ()

def alertWhen (crossed : Bool) (key : String) (threshold : SignupGrantBudgetThreshold) (readSpent : Call ℚ) : Call Unit :=
  if crossed then alertCrossing key threshold readSpent else return ()

def queueHeadBlocks (a : Adapters) (amount : ℚ) : Call Bool := do
  if !a.grantBudget then return false
  else
    let day ← today
    let pool ← resolvePoolBudget
    let oldestHeld ← ask (.oldestHeldCredits (if 0 < pool.budget then some pool.budget else none))
    if oldestHeld.getD 0 = 0 then return false
    else return pool.budget - (← getSpent (signupGrantBudgetKey day)) < oldestHeld.getD 0 + amount

inductive ReservationOutcome where
  | unmetered | reserved | exhausted
  deriving DecidableEq

/-- The draw a reservation may hand back, where it made one. -/
structure Draw where
  key : String
  transactionId : String
  amount : ℚ
  deriving DecidableEq

structure SignupGrantBudgetReservation where
  outcome : ReservationOutcome
  fresh : Bool := false
  draw : Option Draw := none

/-- A failed refund is only reported. -/
def SignupGrantBudgetReservation.release (reservation : SignupGrantBudgetReservation) : Call Unit :=
  match reservation.draw with
  | none => return ()
  | some draw => tryCatch (refund draw.key draw.transactionId draw.amount) fun _ => return ()

/-- The draw itself, with its alerts. -/
def drawFrom (key transactionId : String) (amount budget : ℚ) : Call SignupGrantBudgetReservation := do
  match ← reserve key transactionId amount budget with
  | none =>
    alertCrossing key .full (getSpent key)
    return { outcome := .exhausted }
  | some reservation =>
    alertWhen (budget ≤ reservation.spent * 2) key .half (return reservation.spent)
    alertWhen (budget ≤ reservation.spent) key .full (return reservation.spent)
    return { outcome := .reserved, fresh := reservation.fresh, draw := if reservation.fresh then some { key, transactionId, amount } else none }

/-- Called outside any `refundBudgetOnFailure` scope. -/
def reserveSignupGrantBudget (a : Adapters) (transactionId : String) (amount : ℚ) : Call SignupGrantBudgetReservation := do
  if !a.grantBudget || amount ≤ 0 then return { outcome := .unmetered }
  else
    let key := signupGrantBudgetKey (← today)
    let pool ← resolvePoolBudget
    alertWhen pool.missing key .missing (getSpent key)
    if pool.budget ≤ 0 then return { outcome := .exhausted } else drawFrom key transactionId amount pool.budget

/-! ### The payout -/

/-- Where `db.creditLots` is wired; a failure is only logged. -/
def stampCreditLot (a : Adapters) (ownerId : String) (amount : ℚ) : Call Unit :=
  if a.creditLots then tryCatch (ask (.createLot ownerId amount)) fun _ => return () else return ()

def ledgerRow (a : Adapters) (reward : HeldCreditRewardInput) (reservation : SignupGrantBudgetReservation) : LedgerRow where
  transactionId := reward.transactionId
  ownerId := reward.userId
  credits := |reward.credits|
  reason := reward.reason
  description := reward.description
  rewardSource := reward.source
  metered := a.grantBudget && 0 < reward.credits
  drawnOn := reservation.draw.map (·.key)

/-- The `generic_add` arm; the result is the id of the row it wrote. -/
def addCreditsWithLedgerRow (a : Adapters) (reward : HeldCreditRewardInput) (reservation : SignupGrantBudgetReservation)
    (duplicateThrows : Bool) : Call (Option String) := do
  if !a.accepts reward then throw (.badRequest "invalid parameters")
  else
    match ← createTransaction (ledgerRow a reward reservation) with
    | none =>
      if duplicateThrows then throw .duplicateCreditTransaction
      else if ← ask (.loadHolder reward.userId) then return none
      else throw (.badRequest "Failed to load credit holder for idempotent add")
    | some creditTransactionId =>
      if ← incrementCredits reward.userId reward.credits reward.transactionId then
        stampCreditLot a reward.userId |reward.credits|
        return some creditTransactionId
      else throw (.badRequest "Failed to update credits")

/-- One attempt of an owned transaction. -/
def attempt {α : Type} (fn : Call α) : Call α := do
  beginTransaction
  let a ← tryCatch fn fun err => do
    abortTransaction
    throw err
  commitTransaction
  return a

/-- The driver runs the function again while it calls the error transient. -/
def withTransaction {α : Type} (fn : Call α) : Nat → Call α
  | 0 => attempt fn
  | retries + 1 => tryCatch (attempt fn) fun err => do
    if ← ask (.isTransient err) then withTransaction fn retries else throw err

inductive PayNowResult where
  | paid (creditTransactionId : String)
  | exhausted
  | contended
  | duplicate
  | blocked
  deriving DecidableEq

/-- What the callback credited: `none` for a blocked recipient, `some none` for a duplicate. -/
def credit (a : Adapters) (reward : HeldCreditRewardInput) (reservation : SignupGrantBudgetReservation) (duplicateThrows : Bool) :
    Call (Option (Option String)) := do
  if ((← findUser reward.userId).getD {}).signupGrantBlocked then return none
  else return some (← addCreditsWithLedgerRow a reward reservation duplicateThrows)

/-- The handler of a payout that threw. -/
def afterFailure (a : Adapters) (reward : HeldCreditRewardInput) (reservation : SignupGrantBudgetReservation) (err : RewardError) :
    Call PayNowResult := do
  if a.withTransaction.isSome && err = .duplicateCreditTransaction then
    reservation.release
    return .duplicate
  else
    -- An unreadable ledger keeps the draw.
    if ← tryCatch (findTransaction reward.transactionId) fun _ => return true then throw err
    else
      reservation.release
      throw err

/-- In a transaction of its own where the caller passes `withTransaction`. -/
def creditOwned (a : Adapters) (reward : HeldCreditRewardInput) (reservation : SignupGrantBudgetReservation) : Call (Option (Option String)) :=
  match a.withTransaction with
  | some retries => withTransaction (credit a reward reservation true) retries
  | none => credit a reward reservation a.duplicateThrows

def payout (a : Adapters) (reward : HeldCreditRewardInput) (reservation : SignupGrantBudgetReservation) : Call PayNowResult := do
  match ← creditOwned a reward reservation with
  | none =>
    reservation.release
    return .blocked
  | some none =>
    reservation.release
    return .duplicate
  | some (some creditTransactionId) => return .paid creditTransactionId

def payNow (a : Adapters) (reward : HeldCreditRewardInput) : Call PayNowResult := do
  let reservation ← reserveSignupGrantBudget a reward.transactionId reward.credits
  if reservation.outcome = .exhausted then return .exhausted
  else if reservation.outcome = .reserved && !reservation.fresh then return .contended
  else tryCatch (payout a reward reservation) (afterFailure a reward reservation)

inductive PayCreditRewardOutcome where
  | paid (creditTransactionId : String)
  | queued
  | duplicate
  | blocked
  deriving DecidableEq

def holdReward (reward : HeldCreditRewardInput) : Call PayCreditRewardOutcome := do
  let _ ← ask (.hold reward)
  if ((← findUser reward.userId).getD {}).signupGrantBlocked then
    let _ ← ask (.pauseOne reward.transactionId)
    return .blocked
  else return .queued

/-- The answer to a reward that was queued before. -/
def queuedBefore (own : HeldCreditRewardRow) : PayCreditRewardOutcome :=
  match own.status with
  | .held => .queued
  | .void | .paused => .blocked
  | .paid => .duplicate

def payOrHold (a : Adapters) (reward : HeldCreditRewardInput) : Call PayCreditRewardOutcome := do
  match ← payNow a reward with
  | .paid creditTransactionId => return .paid creditTransactionId
  | .duplicate => return .duplicate
  | .blocked => return .blocked
  | _ => holdReward reward

def payCreditReward (a : Adapters) (reward : HeldCreditRewardInput) : Call PayCreditRewardOutcome := do
  if ← findTransaction reward.transactionId then return .duplicate
  else if (← partiesBlock reward).isSome then return .blocked
  else
    match (← ask (.heldRewards [reward.transactionId])).head? with
    | some own => return queuedBefore own
    | none => if ← queueHeadBlocks a reward.credits then holdReward reward else payOrHold a reward

/-! ### The release -/

structure ReleaseHeldCreditRewardsResult where
  scanned : Nat := 0
  paid : Nat := 0
  voided : Nat := 0
  deferred : Nat := 0
  failed : Nat := 0
  budgetExhausted : Bool := false
  paidRewards : List (CreditRewardSource × String) := []
  deriving DecidableEq

/-- What the run makes of a payout; `true` where it stops. -/
def afterPayout (reward : HeldCreditRewardInput) (result : ReleaseHeldCreditRewardsResult) :
    PayNowResult → Call (ReleaseHeldCreditRewardsResult × Bool)
  | .exhausted => do
    let current ← resolvePoolBudget
    if 0 < current.budget ∧ current.budget < reward.credits then return (result, false)
    else return ({ result with budgetExhausted := true }, true)
  | .contended => return (result, false)
  | .blocked => return ({ result with deferred := result.deferred + 1 }, false)
  | .duplicate => do
    ask (.settle reward.transactionId .paid)
    return (result, false)
  | .paid creditTransactionId => do
    ask (.settle reward.transactionId .paid)
    return ({ result with
      paid := result.paid + 1
      paidRewards := result.paidRewards ++ [(reward.source, creditTransactionId)] }, false)

def releaseOne (a : Adapters) (reward : HeldCreditRewardInput) (result : ReleaseHeldCreditRewardsResult) :
    Call (ReleaseHeldCreditRewardsResult × Bool) := do
  if ← findTransaction reward.transactionId then
    ask (.settle reward.transactionId .paid)
    return (result, false)
  else
    match ← partiesBlock reward with
    | some .transient => return ({ result with deferred := result.deferred + 1 }, false)
    | some .terminal =>
      ask (.settle reward.transactionId .void)
      return ({ result with voided := result.voided + 1 }, false)
    | none => afterPayout reward result (← payNow a reward)

def releaseAll (a : Adapters) : List HeldCreditRewardRow → ReleaseHeldCreditRewardsResult → Call ReleaseHeldCreditRewardsResult
  | [], result => return result
  | reward :: rest, result => do
    let scanned := { result with scanned := result.scanned + 1 }
    let released ← tryCatch (releaseOne a reward.toHeldCreditRewardInput scanned) fun _ =>
      return ({ scanned with failed := scanned.failed + 1 }, false)
    if released.2 then return released.1 else releaseAll a rest released.1

def releaseHeldCreditRewards (a : Adapters) (limit : Nat) : Call ReleaseHeldCreditRewardsResult := do
  let pool ← resolvePoolBudget
  let held ← ask (.listHeld limit (if 0 < pool.budget then some pool.budget else none))
  releaseAll a held {}

/-! ### Runs -/

inductive Run where
  | pay (a : Adapters) (reward : HeldCreditRewardInput)
  | release (a : Adapters) (limit : Nat)

inductive Outcome where
  | pay (outcome : PayCreditRewardOutcome)
  | release (result : ReleaseHeldCreditRewardsResult)

def Run.program : Run → Call Outcome
  | pay a reward => (payCreditReward a reward).bind fun outcome => .pure (.pay outcome)
  | release a limit => (releaseHeldCreditRewards a limit).bind fun result => .pure (.release result)

abbrev Configuration := Config Nat World Op Op.Value RewardError Outcome

def start (runs : Nat → Run) : Configuration where
  store := .empty
  threads i := (runs i).program

end Bike4Mind.Rewards
