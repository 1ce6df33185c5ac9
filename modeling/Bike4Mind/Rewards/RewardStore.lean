import Bike4Mind.Concurrency.Protocol
import Bike4Mind.Runtime

/-! The trickle pool's day counters, the credit ledger and the transactions on it, and the calls that free rewards make to them. -/

namespace Bike4Mind.Rewards
open Concurrency

inductive RewardError where
  -- `DuplicateCreditTransactionError`
  | duplicateCreditTransaction
  | badRequest (message : String)
  -- Any other rejection.
  | error (message : String)
  deriving DecidableEq

inductive CreditRewardSource where
  | gear | referralFirstAnswer
  deriving DecidableEq

structure HeldCreditRewardInput where
  transactionId : String
  userId : String
  credits : ℚ
  source : CreditRewardSource
  reason : String
  description : String
  -- `metadata.referredUserId`, where it is a string.
  referredUserId : Option String := none
  deriving DecidableEq

inductive HeldStatus where
  | held | paid | void | paused
  deriving DecidableEq

structure HeldCreditRewardRow extends HeldCreditRewardInput where
  status : HeldStatus
  deriving DecidableEq

inductive ModerationStatus where
  | throttled | suspendPending | suspended
  deriving DecidableEq

structure RewardPartyFields where
  isBanned : Bool := false
  disputePending : Bool := false
  moderation : Option ModerationStatus := none
  isSynthetic : Bool := false
  deleted : Bool := false
  signupGrantBlocked : Bool := false
  deriving DecidableEq

inductive SignupGrantBudgetThreshold where
  | half | full | missing
  deriving DecidableEq

/-- A row of the ledger. The last two fields are not stored: whether the payout was metered, and the counter it drew on. -/
structure LedgerRow where
  transactionId : String
  ownerId : String
  credits : ℚ
  reason : String
  description : String
  rewardSource : CreditRewardSource
  metered : Bool
  drawnOn : Option String
  deriving DecidableEq

structure BudgetDay where
  spent : ℚ := 0
  reservedIds : List String := []
  deriving DecidableEq

/-- The writes of a transaction that is still open. -/
structure Session where
  rows : List LedgerRow := []
  credited : List String := []

inductive Event where
  | drawn (key transactionId : String) (amount : ℚ)
  | refunded (key transactionId : String)
  | committed (row : LedgerRow)
  -- The balance credit of the row with this id.
  | credited (transactionId : String)
  deriving DecidableEq

structure World where
  counters : String → BudgetDay
  rows : List LedgerRow
  sessions : Nat → Option Session
  log : List Event

def World.empty : World where
  counters _ := {}
  rows := []
  sessions _ := none
  log := []

/-- A stored setting that parses. -/
structure PoolBudget where
  value : ℚ
  nonneg : 0 ≤ value

/-- Questions to adapters that hold none of the state above. -/
inductive Query where
  | user (id : String)
  | heldRewards (transactionIds : List String)
  | oldestHeldCredits (maxCredits : Option ℚ)
  | listHeld (limit : Nat) (maxCredits : Option ℚ)
  | hold (reward : HeldCreditRewardInput)
  | settle (transactionId : String) (status : HeldStatus)
  | pauseOne (transactionId : String)
  -- `signupGrantBudgetDay(now())`
  | today
  | markAlerted (key : String) (threshold : SignupGrantBudgetThreshold)
  -- `incrementCredits(ownerId, 0)`
  | loadHolder (ownerId : String)
  | createLot (ownerId : String) (amount : ℚ)
  -- The driver runs the transaction again after this error.
  | isTransient (err : RewardError)

@[reducible] def Query.Answer : Query → Type
  | user _ => Option RewardPartyFields
  | heldRewards _ => List HeldCreditRewardRow
  | oldestHeldCredits _ => Option ℚ
  | listHeld _ _ => List HeldCreditRewardRow
  | hold _ | settle _ _ | createLot _ _ => Unit
  | pauseOne _ => Nat
  | today => String
  | markAlerted _ _ | loadHolder _ | isTransient _ => Bool

structure BudgetReservation where
  spent : ℚ
  fresh : Bool
  deriving DecidableEq

inductive Op where
  | ask (query : Query)
  | budgetSetting
  | reserve (key transactionId : String) (amount budget : ℚ)
  | refund (key transactionId : String) (amount : ℚ)
  | getSpent (key : String)
  | findTransaction (transactionId : String)
  | createTransaction (row : LedgerRow)
  -- The last argument is not passed on: the row whose credit this is.
  | incrementCredits (ownerId : String) (credits : ℚ) (transactionId : String)
  | beginTransaction
  | commitTransaction
  | abortTransaction

@[reducible] def Op.Value : Op → Type
  | ask query => query.Answer
  | budgetSetting => Option PoolBudget
  | reserve _ _ _ _ => Option BudgetReservation
  | getSpent _ => ℚ
  | findTransaction _ => Bool
  | createTransaction _ => Option String
  | incrementCredits _ _ _ => Bool
  | refund _ _ _ | beginTransaction | commitTransaction | abortTransaction => Unit

/-- A call rejects before it took effect, or after. -/
inductive Fault where
  | before | after
  deriving DecidableEq

structure Choice where
  fault : Option Fault := none
  answer : (query : Query) → query.Answer
  rowId : String := ""
  holderFound : Bool := true

namespace World

def setCounter (w : World) (key : String) (day : BudgetDay) : World := { w with counters := Function.update w.counters key day }

def record (w : World) (e : Event) : World := { w with log := e :: w.log }

/-- `signupGrantBudgetRepository.reserve` -/
def reserve (w : World) (key transactionId : String) (amount budget : ℚ) : Option BudgetReservation × World :=
  let day := w.counters key
  if transactionId ∈ day.reservedIds then (some { spent := day.spent, fresh := false }, w)
  else if day.spent ≤ max 0 (budget - amount) then
    (some { spent := day.spent + amount, fresh := true },
      (w.setCounter key { spent := day.spent + amount, reservedIds := day.reservedIds ++ [transactionId] }).record
        (.drawn key transactionId amount))
  else (none, w)

/-- `signupGrantBudgetRepository.refund` -/
def refund (w : World) (key transactionId : String) (amount : ℚ) : World :=
  let day := w.counters key
  if transactionId ∈ day.reservedIds then
    (w.setCounter key { spent := day.spent - amount, reservedIds := day.reservedIds.filter (· ≠ transactionId) }).record
      (.refunded key transactionId)
  else w

def ledgerHas (w : World) (transactionId : String) : Bool := w.rows.any (·.transactionId == transactionId)

def setSession (w : World) (i : Nat) (session : Option Session) : World := { w with sessions := Function.update w.sessions i session }

def commitRow (w : World) (row : LedgerRow) : World := { w with rows := row :: w.rows, log := .committed row :: w.log }

/-- The insert under the unique index on `transactionId`, at once or into the open transaction. -/
def createTransaction (w : World) (i : Nat) (row : LedgerRow) (rowId : String) : Option String × World :=
  match w.sessions i with
  | some session =>
    if w.ledgerHas row.transactionId || session.rows.any (·.transactionId == row.transactionId) then (none, w)
    else (some rowId, w.setSession i (some { session with rows := row :: session.rows }))
  | none => if w.ledgerHas row.transactionId then (none, w) else (some rowId, w.commitRow row)

def incrementCredits (w : World) (i : Nat) (transactionId : String) : World :=
  match w.sessions i with
  | some session => w.setSession i (some { session with credited := transactionId :: session.credited })
  | none => w.record (.credited transactionId)

/-- Everything the transaction wrote becomes visible at once. -/
def apply (w : World) (i : Nat) (session : Session) : World :=
  { counters := w.counters
    rows := session.rows ++ w.rows
    sessions := Function.update w.sessions i none
    log := session.credited.map .credited ++ (session.rows.map .committed ++ w.log) }

def conflicts (w : World) (session : Session) : Bool := session.rows.any fun row => w.ledgerHas row.transactionId

end World

def FAILED : RewardError := .error "the call was rejected"

/-- The effect of one call that does not fail. `setting` is the pool's daily budget, `none` when missing or invalid. -/
def World.perform (setting : Option PoolBudget) (i : Nat) (w : World) (op : Op) (x : Choice) : op.Value × World :=
  match op with
  | .ask query => (x.answer query, w)
  | .budgetSetting => (setting, w)
  | .reserve key transactionId amount budget => w.reserve key transactionId amount budget
  | .refund key transactionId amount => ((), w.refund key transactionId amount)
  | .getSpent key => ((w.counters key).spent, w)
  | .findTransaction transactionId => (w.ledgerHas transactionId, w)
  | .createTransaction row => w.createTransaction i row x.rowId
  | .incrementCredits _ _ transactionId => (x.holderFound, if x.holderFound then w.incrementCredits i transactionId else w)
  | .beginTransaction => ((), w.setSession i (some {}))
  | .commitTransaction => ((), match w.sessions i with
    | some session => w.apply i session
    | none => w)
  | .abortTransaction => ((), w.setSession i none)

/-- A commit that cannot take effect, or fails, rolls back. -/
def World.exec (setting : Option PoolBudget) (i : Nat) (w : World) (op : Op) (x : Choice) : Except RewardError op.Value × World :=
  match op with
  | .commitTransaction =>
    if x.fault.isSome || (w.sessions i).any w.conflicts then (.error FAILED, w.setSession i none)
    else (.ok (), (w.perform setting i .commitTransaction x).2)
  | .beginTransaction => (.ok (), (w.perform setting i .beginTransaction x).2)
  | .abortTransaction => (.ok (), (w.perform setting i .abortTransaction x).2)
  | op =>
    match x.fault with
    | none => (.ok (w.perform setting i op x).1, (w.perform setting i op x).2)
    | some .before => (.error FAILED, w)
    | some .after => (.error FAILED, (w.perform setting i op x).2)

def semantics (setting : Option PoolBudget) : Semantics Nat World Op Op.Value RewardError Choice Empty where
  exec i w op x := some (w.exec setting i op x)
  env _ move := nomatch move

end Bike4Mind.Rewards
