import Mathlib.Tactic.Linarith
import Bike4Mind.Credits.CreditCalls

/-!
The life of a hold on a stored balance, from the request to its settlement or release.
`incrementCredits` is atomic; a rejected one has not been applied.
-/

namespace Bike4Mind.Credits
open Concurrency

/-- What becomes of a hold once it is granted: each is settled or released at most once. -/
inductive Disposition where
  | keep
  | release
  | settle (chargedCredits : JsNumber) (entry : CreditLedgerEntry) (throwOnWriteFailure : Bool)

structure HoldCall where
  request : HoldRequest
  disposition : Disposition

inductive HoldResult where
  | granted (hold : CreditHold)
  | released (hold : CreditHold)
  | settled (hold : CreditHold) (charged : ℚ)

abbrev CreditCalls (α : Type) := Program CreditOp CreditOp.Value JsError α

def credits : CreditHoldAdapters (Program CreditOp CreditOp.Value JsError) := .ofCalls fun op => .perform op

def HoldCall.program (call : HoldCall) : CreditCalls HoldResult := do
  let hold ← holdCredits call.request credits
  match call.disposition with
  | .keep => return .granted hold
  | .release =>
    releaseCreditHold hold credits
    return .released hold
  | .settle chargedCredits entry throwOnWriteFailure =>
    return .settled hold (← settleCreditHold hold chargedCredits entry throwOnWriteFailure credits)

/-! ### The balances -/

/-- An `incrementCredits` that took effect, and the balance it answered. -/
structure Transfer (ι : Type) where
  worker : ι
  ownerType : CreditHolderType
  ownerId : String
  amount : ℚ
  balance : ℚ

structure Balances (ι : Type) where
  balance : CreditHolderType → String → Option ℚ
  /-- Newest first. -/
  log : List (Transfer ι) := []

inductive CreditChoice where
  | resolves
  | found (present : Bool)
  | loads (organization : Option Organization)
  | rejects (error : JsError)

section Exec
variable {ι : Type}

def Balances.increment (s : Balances ι) (i : ι) (ownerType : CreditHolderType) (ownerId : String) (amount : ℚ) :
    Option ℚ × Balances ι :=
  match s.balance ownerType ownerId with
  | none => (none, s)
  | some current => (some (current + amount), {
      balance := fun T id => if T = ownerType ∧ id = ownerId then some (current + amount) else s.balance T id
      log := ⟨i, ownerType, ownerId, amount, current + amount⟩ :: s.log })

def Balances.exec (i : ι) (s : Balances ι) : (op : CreditOp) → CreditChoice → Option (Except JsError op.Value × Balances ι)
  | _, .rejects error => some (.error error, s)
  | .incrementCredits ownerType ownerId amount, .resolves =>
    some (.ok (s.increment i ownerType ownerId amount).1, (s.increment i ownerType ownerId amount).2)
  | .findUser _, .found present => some (.ok present, s)
  | .findOrganization _, .loads organization => some (.ok organization, s)
  | .deductCredits .., .resolves | .assertBillable, .resolves | .assertNewAccountSpendWithinCap .., .resolves
  | .onInsufficientCredits .., .resolves => some (.ok (), s)
  | _, _ => none

def balances (ι : Type) : Semantics ι (Balances ι) CreditOp CreditOp.Value JsError CreditChoice Empty where
  exec := Balances.exec
  env _ move := nomatch move

end Exec

/-! ### Where a call stands with a holder -/

inductive Standing where
  | untouched
  | refused (credits : ℚ)
  | rolledBack
  | granted (credits : ℚ)
  | closed (charged : ℚ)
  deriving DecidableEq

namespace Standing

/-- The first transfer of a call is its decrement, granted unless it overdraws; the second gives
credits back. -/
def after (amount balance : ℚ) : Standing → Standing
  | .untouched => if balance < 0 then .refused (-amount) else .granted (-amount)
  | .refused _ => .rolledBack
  | .granted credits => .closed (credits - amount)
  | s => s

/-- Credits of a hold that is granted and open, or charged. -/
def taken : Standing → ℚ
  | .granted credits => credits
  | .closed charged => charged
  | _ => 0

def pending : Standing → Bool
  | .refused _ => true
  | _ => false

/-- Credits of a refused hold that its rollback has yet to return. -/
def owed : Standing → ℚ
  | .refused credits => credits
  | _ => 0

end Standing

def standing {ι : Type} [DecidableEq ι] (ownerType : CreditHolderType) (ownerId : String) (i : ι) : List (Transfer ι) → Standing
  | [] => .untouched
  | t :: earlier =>
    if t.worker = i ∧ t.ownerType = ownerType ∧ t.ownerId = ownerId then
      (standing ownerType ownerId i earlier).after t.amount t.balance
    else standing ownerType ownerId i earlier

/-- What a call has moved on a balance in all. -/
def net {ι : Type} [DecidableEq ι] (ownerType : CreditHolderType) (ownerId : String) (i : ι) : List (Transfer ι) → ℚ
  | [] => 0
  | t :: earlier =>
    if t.worker = i ∧ t.ownerType = ownerType ∧ t.ownerId = ownerId then net ownerType ownerId i earlier + t.amount
    else net ownerType ownerId i earlier

/-! ### The life of a hold -/

inductive HoldPhase where
  | asking
  | overdrawn (ownerType : CreditHolderType) (ownerId : String) (credits : ℚ)
  | returned (ownerType : CreditHolderType) (ownerId : String)
  | held (ownerType : CreditHolderType) (ownerId : String) (credits : ℚ)
  | closed (ownerType : CreditHolderType) (ownerId : String) (charged : ℚ)
  | gone
  | lost

namespace HoldPhase

/-- `credits` of the phase's own holder, and nothing of any other. -/
def standing (T : CreditHolderType) (id : String) : HoldPhase → Standing
  | .overdrawn ownerType ownerId credits => if T = ownerType ∧ id = ownerId then .refused credits else .untouched
  | .returned ownerType ownerId => if T = ownerType ∧ id = ownerId then .rolledBack else .untouched
  | .held ownerType ownerId credits => if T = ownerType ∧ id = ownerId then .granted credits else .untouched
  | .closed ownerType ownerId charged => if T = ownerType ∧ id = ownerId then .closed charged else .untouched
  | _ => .untouched

def owing : HoldPhase → Bool
  | .overdrawn .. => true
  | _ => false

end HoldPhase

/-- A hold is asked for once, and gives back what it took, all or in part, once. `lost` is a write whose
outcome leaves the balance short: a rollback that fails, or a holder that is not there any more. -/
inductive Holds : Protocol HoldPhase CreditOp CreditOp.Value JsError
  | quiet {p op reply} (quiet : op.increments = false) : Holds p op reply p
  | granted {T id credits balance} (positive : 0 < credits) (covered : 0 ≤ balance) :
      Holds .asking (.incrementCredits T id (-credits)) (.ok (some balance)) (.held T id credits)
  | overdrawn {T id credits balance} (positive : 0 < credits) (short : balance < 0) :
      Holds .asking (.incrementCredits T id (-credits)) (.ok (some balance)) (.overdrawn T id credits)
  | nobody {T id amount} : Holds .asking (.incrementCredits T id amount) (.ok none) .gone
  | unasked {T id amount e} : Holds .asking (.incrementCredits T id amount) (.error e) .gone
  | rolledBack {T id credits balance} :
      Holds (.overdrawn T id credits) (.incrementCredits T id credits) (.ok (some balance)) (.returned T id)
  | rollbackMissed {T id credits} : Holds (.overdrawn T id credits) (.incrementCredits T id credits) (.ok none) .lost
  | rollbackFailed {T id credits e} : Holds (.overdrawn T id credits) (.incrementCredits T id credits) (.error e) .lost
  | refunded {T id credits amount balance} (positive : 0 ≤ amount) (within : amount ≤ credits) :
      Holds (.held T id credits) (.incrementCredits T id amount) (.ok (some balance)) (.closed T id (credits - amount))
  | refundMissed {T id credits amount} : Holds (.held T id credits) (.incrementCredits T id amount) (.ok none) .lost
  | refundFailed {T id credits amount e} :
      Holds (.held T id credits) (.incrementCredits T id amount) (.error e) (.held T id credits)

/-- Where a call ends: with its hold as the result says, and no rollback pending. -/
def HoldEnded : Except JsError HoldResult → HoldPhase → Prop
  | .ok (.granted hold), q => q = .held hold.ownerType hold.ownerId hold.reservedCredits
  | .ok (.released hold), q => q = .closed hold.ownerType hold.ownerId 0 ∨ q = .lost
  | .ok (.settled hold charged), q => q = .closed hold.ownerType hold.ownerId charged ∨
      q = .held hold.ownerType hold.ownerId hold.reservedCredits ∨ q = .lost
  | .error _, q => q.owing = false

section Programs
variable {α β : Type} {p : HoldPhase} {post : Except JsError β → HoldPhase → Prop}

theorem quiet_then {program : CreditCalls α} {f : α → CreditCalls β} (quiet : Only (fun op => op.increments = false) program)
    (resolved : ∀ a, Follows Holds post (f a) p) (rejected : ∀ e, post (.error e) p) :
    Follows Holds post (program.bind f) p := by
  refine follows_bind (quiet.follows (fun op reply other => .quiet other) ?_)
  rintro (e | a)
  · exact rejected e
  · exact resolved a

theorem reads_quiet (op : CreditOp) (reads : op.writes = false) :
    Only (fun op => op.increments = false) (.perform op : CreditCalls op.Value) :=
  only_perform (by cases op <;> first | rfl | cases reads)

theorem refuse_follows {userId : String} {refusal : CreditRefusal} (rejected : ∀ e, post (.error e) p) :
    Follows Holds post (refuse userId refusal credits) p :=
  quiet_then (notifyInsufficientCredits_only reads_quiet) (fun _ => rejected _) rejected

/-- The hold a call was granted, or no rollback left to run. -/
def Asked : Except JsError CreditHold → HoldPhase → Prop
  | .ok hold, q => q = .held hold.ownerType hold.ownerId hold.reservedCredits ∧ 0 < hold.reservedCredits
  | .error _, q => q.owing = false

theorem reserve_follows {request : HoldRequest} {required : ℚ} {organization : Bool} (positive : 0 < required) :
    Follows Holds Asked (reserve request required organization credits) .asking := by
  intro reply
  rcases reply with e | (_ | balance)
  · exact ⟨_, .unasked, rfl⟩
  · exact ⟨_, .nobody, rfl⟩
  · by_cases short : balance < 0
    · refine ⟨_, .overdrawn positive short, ?_⟩
      show Follows Holds Asked (ite _ _ _) _
      rw [if_pos short]
      intro reply
      rcases reply with e | (_ | balance)
      · exact ⟨_, .rollbackFailed, refuse_follows fun _ => rfl⟩
      · exact ⟨_, .rollbackMissed, refuse_follows fun _ => rfl⟩
      · exact ⟨_, .rolledBack, refuse_follows fun _ => rfl⟩
    · refine ⟨_, .granted positive (not_lt.mp short), ?_⟩
      show Follows Holds Asked (ite _ _ _) _
      rw [if_neg short]
      exact ⟨rfl, positive⟩

theorem holdCredits_follows {request : HoldRequest} : Follows Holds Asked (holdCredits request credits) .asking := by
  unfold holdCredits
  cases amount : request.amount? with
  | none => rfl
  | some required =>
    refine quiet_then (only_perform rfl) (fun found => ?_) (fun _ => rfl)
    split
    · rfl
    · refine quiet_then (loadOrganization_only reads_quiet) (fun organization => ?_) (fun _ => rfl)
      refine quiet_then (only_perform rfl) (fun _ => ?_) (fun _ => rfl)
      refine quiet_then (assertMemberCap_only reads_quiet) (fun _ => ?_) (fun _ => rfl)
      exact quiet_then (only_perform rfl) (fun _ => reserve_follows (amount_pos amount)) (fun _ => rfl)

theorem releaseCreditHold_follows {hold : CreditHold} (positive : 0 < hold.reservedCredits) :
    Follows Holds (fun r q => match r with
      | .ok _ => q = .closed hold.ownerType hold.ownerId 0 ∨ q = .lost
      | .error _ => q.owing = false) (releaseCreditHold hold credits)
      (.held hold.ownerType hold.ownerId hold.reservedCredits) := by
  unfold releaseCreditHold
  rw [if_neg (not_le.mpr positive)]
  intro reply
  rcases reply with e | (_ | balance)
  · exact ⟨_, .refundFailed, rfl⟩
  · exact ⟨_, .refundMissed, Or.inr rfl⟩
  · exact ⟨_, .refunded positive.le le_rfl, Or.inl (by rw [sub_self])⟩

/-- The phases a settlement of `charged` credits may leave a hold in. -/
def Settled (hold : CreditHold) (charged : ℚ) (q : HoldPhase) : Prop :=
  q = .closed hold.ownerType hold.ownerId charged ∨ q = .held hold.ownerType hold.ownerId hold.reservedCredits ∨ q = .lost

theorem settled_owing {hold : CreditHold} {charged : ℚ} {q : HoldPhase} (settled : Settled hold charged q) :
    q.owing = false := by
  rcases settled with rfl | rfl | rfl <;> rfl

theorem refundOverReserved_follows {hold : CreditHold} {charged : ℚ} {rethrow : Bool} (nonneg : 0 ≤ charged) :
    Follows Holds (fun _ q => Settled hold charged q) (refundOverReserved hold (hold.reservedCredits - charged) rethrow credits)
      (.held hold.ownerType hold.ownerId hold.reservedCredits) := by
  unfold refundOverReserved
  split
  · rename_i surplus
    intro reply
    rcases reply with e | (_ | balance)
    · refine ⟨_, .refundFailed, ?_⟩
      show Follows Holds _ (onWriteFailure rethrow _ e) _
      unfold onWriteFailure
      split <;> exact Or.inr (Or.inl rfl)
    · exact ⟨_, .refundMissed, Or.inr (Or.inr rfl)⟩
    · refine ⟨_, .refunded surplus.le (by linarith), Or.inl ?_⟩
      rw [sub_sub_cancel]
  · exact Or.inr (Or.inl rfl)

theorem settleCreditHold_follows {hold : CreditHold} {charged : JsNumber} {entry : CreditLedgerEntry} {rethrow : Bool}
    (positive : 0 < hold.reservedCredits) :
    Follows Holds (fun r q => match r with
      | .ok charged => Settled hold charged q
      | .error _ => q.owing = false) (settleCreditHold hold charged entry rethrow credits)
      (.held hold.ownerType hold.ownerId hold.reservedCredits) := by
  refine follows_bind (follows_mono (refundOverReserved_follows (charge_nonneg positive.le charged)) ?_)
  rintro (e | settledHolder) q settled
  · exact settled_owing settled
  · show Follows Holds _ (ite _ _ _) q
    split
    · rename_i free
      rw [free] at settled
      exact settled
    · exact quiet_then (only_tryCatch (deductHeldCredits_only fun op other => only_perform other) fun _ => onWriteFailure_only)
        (fun _ => settled) (fun _ => settled_owing settled)

theorem program_follows (call : HoldCall) : Follows Holds HoldEnded call.program .asking := by
  refine follows_bind (follows_mono holdCredits_follows ?_)
  rintro (e | hold) q asked
  · exact asked
  · obtain ⟨rfl, positive⟩ := asked
    show Follows Holds HoldEnded (match call.disposition with
      | .keep => _
      | .release => _
      | .settle chargedCredits entry throwOnWriteFailure => _) _
    cases call.disposition with
    | keep => rfl
    | release =>
      refine follows_bind (follows_mono (releaseCreditHold_follows positive) ?_)
      rintro (e | _) q released <;> exact released
    | settle charged entry rethrow =>
      refine follows_bind (follows_mono (settleCreditHold_follows positive) ?_)
      rintro (e | charged) q settled <;> exact settled

end Programs

end Bike4Mind.Credits
