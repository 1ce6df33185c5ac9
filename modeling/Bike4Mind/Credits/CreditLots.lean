import Mathlib.Algebra.BigOperators.Group.List.Basic
import Mathlib.Algebra.Order.BigOperators.Group.List
import Mathlib.Tactic.Linarith
import Bike4Mind.Runtime

/-!
Credit lots and the daily sweep. A holder's lots are kept in the order of their index, soonest to
expire first; the sweep of one holder commits as a whole.
-/

namespace Bike4Mind.Credits

structure CreditLot where
  id : Nat
  source : String
  amount : ℚ
  expiresAt : Time
  consumedAssigned : ℚ := 0
  settledAt : Option Time := none
  deriving DecidableEq

structure AssignedCreditLot where
  lot : CreditLot
  consumedAssigned : ℚ
  remaining : ℚ

def totalGranted (lots : List CreditLot) : ℚ := (lots.map (·.amount)).sum

def computeConsumption (lots : List CreditLot) (currentCredits : ℚ) : ℚ := max 0 (totalGranted lots - currentCredits)

/-- The walk of `assignConsumptionFIFO`, with what is left to assign. -/
def assignFrom : ℚ → List CreditLot → List AssignedCreditLot
  | _, [] => []
  | remaining, lot :: rest =>
    let consumedAssigned := min lot.amount remaining
    ⟨lot, consumedAssigned, lot.amount - consumedAssigned⟩ :: assignFrom (remaining - consumedAssigned) rest

def assignConsumptionFIFO (lots : List CreditLot) (consumption : ℚ) : List AssignedCreditLot :=
  assignFrom (max 0 consumption) lots

/-- The `credit_expiry` deduction of one lot. -/
structure LotDebit where
  lotId : Nat
  credits : ℚ
  deriving DecidableEq

structure Swept where
  lots : List CreditLot
  remainingBalance : ℚ
  debits : List LotDebit

namespace CreditLot

def isStale (now : Time) (lot : CreditLot) : Bool := decide (lot.expiresAt ≤ now)

end CreditLot

namespace AssignedCreditLot
variable (now : Time) (a : AssignedCreditLot)

/-- What the sweep takes as consumed before it expires the rest. -/
def consumed : ℚ := if a.lot.isStale now && a.lot.settledAt.isSome then a.lot.amount else a.consumedAssigned

def expires : Bool := a.lot.isStale now && decide (0 < a.lot.amount - a.consumed now)

/-- What is subtracted from the holder for the lot. -/
def debit (remainingBalance : ℚ) : ℚ :=
  if a.expires now then max 0 (min (a.lot.amount - a.consumed now) remainingBalance) else 0

def finalConsumedAssigned : ℚ := if a.expires now then a.lot.amount else a.consumed now

/-- The lot as the sweep leaves it. -/
def updated : CreditLot :=
  let stamps := a.lot.isStale now && a.lot.settledAt.isNone
  if a.finalConsumedAssigned now ≠ a.lot.consumedAssigned ∨ stamps then
    { a.lot with
      consumedAssigned := a.finalConsumedAssigned now
      settledAt := if stamps then some now else a.lot.settledAt }
  else a.lot

end AssignedCreditLot

def sweepLots (now : Time) : List AssignedCreditLot → ℚ → Swept
  | [], remainingBalance => ⟨[], remainingBalance, []⟩
  | a :: rest, remainingBalance =>
    let dec := a.debit now remainingBalance
    let later := sweepLots now rest (remainingBalance - dec)
    ⟨a.updated now :: later.lots, later.remainingBalance,
      if 0 < dec then ⟨a.lot.id, dec⟩ :: later.debits else later.debits⟩

/-- `processHolder`, with the lots it leaves, the balance and what it expired. -/
def processHolder (now : Time) (lots : List CreditLot) (currentCredits : ℚ) : Swept :=
  if currentCredits ≤ 0 then ⟨lots, currentCredits, []⟩
  else if lots = [] then ⟨lots, currentCredits, []⟩
  else sweepLots now (assignConsumptionFIFO lots (computeConsumption lots currentCredits)) currentCredits

/-! ### One lot -/

section Lot
variable {now : Time} {a : AssignedCreditLot} {balance : ℚ}

theorem debit_nonneg : 0 ≤ a.debit now balance := by
  unfold AssignedCreditLot.debit
  split
  · exact le_max_left 0 _
  · exact le_rfl

theorem debit_le_balance (solvent : 0 ≤ balance) : a.debit now balance ≤ balance := by
  unfold AssignedCreditLot.debit
  split
  · exact max_le solvent (min_le_right _ _)
  · exact solvent

/-- A debit expires a stale lot that no sweep has settled, and no more than it had left. -/
theorem debit_pos (pos : 0 < a.debit now balance) :
    a.lot.isStale now = true ∧ a.lot.settledAt = none ∧ a.debit now balance ≤ a.lot.amount - a.consumedAssigned := by
  unfold AssignedCreditLot.debit at pos ⊢
  split at pos
  · rename_i expires
    rw [if_pos expires]
    simp only [AssignedCreditLot.expires, Bool.and_eq_true, decide_eq_true_eq] at expires
    obtain ⟨stale, left⟩ := expires
    have unsettled : a.lot.settledAt = none := by
      by_contra settled
      have all : a.consumed now = a.lot.amount := by
        simp [AssignedCreditLot.consumed, stale, Option.isSome_iff_ne_none.mpr settled]
      linarith
    have assigned : a.consumed now = a.consumedAssigned := by simp [AssignedCreditLot.consumed, unsettled]
    rw [assigned] at left ⊢
    exact ⟨stale, unsettled, max_le (le_of_lt left) (min_le_left _ _)⟩
  · exact absurd pos (lt_irrefl 0)

theorem debit_live (live : a.lot.isStale now = false) : a.debit now balance = 0 := by
  simp [AssignedCreditLot.debit, AssignedCreditLot.expires, live]

@[simp] theorem updated_id : (a.updated now).id = a.lot.id := by
  unfold AssignedCreditLot.updated
  dsimp only
  split <;> rfl

@[simp] theorem updated_amount : (a.updated now).amount = a.lot.amount := by
  unfold AssignedCreditLot.updated
  dsimp only
  split <;> rfl

@[simp] theorem updated_expiresAt : (a.updated now).expiresAt = a.lot.expiresAt := by
  unfold AssignedCreditLot.updated
  dsimp only
  split <;> rfl

@[simp] theorem updated_isStale : (a.updated now).isStale now = a.lot.isStale now := by
  simp [CreditLot.isStale]

theorem updated_settled : (a.updated now).settledAt.isSome = (a.lot.settledAt.isSome || a.lot.isStale now) := by
  unfold AssignedCreditLot.updated
  dsimp only
  split
  · cases a.lot.settledAt <;> cases a.lot.isStale now <;> rfl
  · rename_i kept
    cases settled : a.lot.settledAt with
    | some at' => rfl
    | none =>
      have live : a.lot.isStale now = false := by
        by_contra stale
        exact kept (Or.inr (by simp [stale, settled]))
      simp [live]

theorem updated_settledAt (settled : a.lot.settledAt.isSome = true) : (a.updated now).settledAt = a.lot.settledAt := by
  unfold AssignedCreditLot.updated
  dsimp only
  have unstamped : (a.lot.isStale now && a.lot.settledAt.isNone) = false := by
    cases found : a.lot.settledAt with
    | none => rw [found] at settled; cases settled
    | some at' => simp
  split
  · simp [unstamped]
  · rfl

theorem updated_consumed : (a.updated now).consumedAssigned = a.finalConsumedAssigned now := by
  unfold AssignedCreditLot.updated
  dsimp only
  split
  · rfl
  · rename_i kept
    by_contra changed
    exact kept (Or.inl (Ne.symm changed))

theorem final_stale (stale : a.lot.isStale now = true) (bounded : a.consumedAssigned ≤ a.lot.amount) :
    a.finalConsumedAssigned now = a.lot.amount := by
  unfold AssignedCreditLot.finalConsumedAssigned
  split
  · rfl
  · rename_i kept
    have exhausted : ¬ 0 < a.lot.amount - a.consumed now := by
      intro left
      exact kept (by simp [AssignedCreditLot.expires, stale, left])
    have within : a.consumed now ≤ a.lot.amount := by
      unfold AssignedCreditLot.consumed
      split
      · exact le_rfl
      · exact bounded
    linarith

theorem updated_same (final : a.finalConsumedAssigned now = a.lot.consumedAssigned)
    (stamped : a.lot.isStale now = true → a.lot.settledAt.isSome = true) : a.updated now = a.lot := by
  unfold AssignedCreditLot.updated
  dsimp only
  rw [if_neg]
  rintro (changed | stamps)
  · exact changed final
  · simp only [Bool.and_eq_true] at stamps
    have settled := stamped stamps.1
    rw [Option.isSome_iff_ne_none] at settled
    exact settled (Option.isNone_iff_eq_none.mp stamps.2)

end Lot

/-! ### The walk -/

section Walk
variable {now : Time} {lots : List CreditLot} {consumption balance : ℚ}

@[simp] theorem totalGranted_nil : totalGranted [] = 0 := rfl

@[simp] theorem totalGranted_cons {lot : CreditLot} : totalGranted (lot :: lots) = lot.amount + totalGranted lots := by
  simp [totalGranted]

theorem totalGranted_append {more : List CreditLot} : totalGranted (lots ++ more) = totalGranted lots + totalGranted more := by
  simp [totalGranted]

theorem totalGranted_nonneg (amounts : ∀ lot ∈ lots, 0 ≤ lot.amount) : 0 ≤ totalGranted lots :=
  List.sum_nonneg (by simpa using amounts)

theorem computeConsumption_nonneg {currentCredits : ℚ} : 0 ≤ computeConsumption lots currentCredits := le_max_left 0 _

/-- What the walk has not assigned when it is through. -/
def unassigned : ℚ → List CreditLot → ℚ
  | remaining, [] => remaining
  | remaining, lot :: rest => unassigned (remaining - min lot.amount remaining) rest

theorem unassigned_eq (amounts : ∀ lot ∈ lots, 0 ≤ lot.amount) (nonneg : 0 ≤ consumption) :
    unassigned consumption lots = max 0 (consumption - totalGranted lots) := by
  induction lots generalizing consumption with
  | nil => simp [unassigned, nonneg]
  | cons lot rest ih =>
    have amount := amounts lot List.mem_cons_self
    have others := fun other member => amounts other (List.mem_cons_of_mem _ member)
    have more := totalGranted_nonneg others
    rw [unassigned, totalGranted_cons, ih others (sub_nonneg.mpr (min_le_right _ _))]
    rcases le_total lot.amount consumption with within | beyond
    · rw [min_eq_left within, sub_sub]
    · rw [min_eq_right beyond, sub_self, max_eq_left (by linarith), max_eq_left (by linarith)]

theorem assignFrom_append {more : List CreditLot} :
    assignFrom consumption (lots ++ more) = assignFrom consumption lots ++ assignFrom (unassigned consumption lots) more := by
  induction lots generalizing consumption with
  | nil => rfl
  | cons lot rest ih => simp [assignFrom, unassigned, ih]

theorem assignFrom_bounded {a : AssignedCreditLot} (member : a ∈ assignFrom consumption lots) :
    a.lot ∈ lots ∧ a.consumedAssigned ≤ a.lot.amount := by
  induction lots generalizing consumption with
  | nil => cases member
  | cons lot rest ih =>
    rcases List.mem_cons.mp member with rfl | member
    · exact ⟨List.mem_cons_self, min_le_left _ _⟩
    · obtain ⟨among, bounded⟩ := ih member
      exact ⟨List.mem_cons_of_mem _ among, bounded⟩

theorem assignFrom_nonneg (amounts : ∀ lot ∈ lots, 0 ≤ lot.amount) (nonneg : 0 ≤ consumption) {a : AssignedCreditLot}
    (member : a ∈ assignFrom consumption lots) : 0 ≤ a.consumedAssigned := by
  induction lots generalizing consumption with
  | nil => cases member
  | cons lot rest ih =>
    rcases List.mem_cons.mp member with rfl | member
    · exact le_min (amounts lot List.mem_cons_self) nonneg
    · exact ih (fun other among => amounts other (List.mem_cons_of_mem _ among)) (sub_nonneg.mpr (min_le_right _ _)) member

theorem sweepLots_append {first more : List AssignedCreditLot} :
    sweepLots now (first ++ more) balance =
      ⟨(sweepLots now first balance).lots ++ (sweepLots now more (sweepLots now first balance).remainingBalance).lots,
        (sweepLots now more (sweepLots now first balance).remainingBalance).remainingBalance,
        (sweepLots now first balance).debits ++ (sweepLots now more (sweepLots now first balance).remainingBalance).debits⟩ := by
  induction first generalizing balance with
  | nil => simp [sweepLots]
  | cons a rest ih =>
    simp only [List.cons_append, sweepLots, ih]
    split <;> rfl

theorem sweepLots_solvent {assigned : List AssignedCreditLot} (solvent : 0 ≤ balance) :
    0 ≤ (sweepLots now assigned balance).remainingBalance := by
  induction assigned generalizing balance with
  | nil => exact solvent
  | cons a rest ih => exact ih (sub_nonneg.mpr (debit_le_balance solvent))

/-- Every debit of a walk is of one of its lots: stale, unsettled, and no more than the lot had left. -/
theorem sweepLots_debit {assigned : List AssignedCreditLot} {d : LotDebit}
    (member : d ∈ (sweepLots now assigned balance).debits) :
    ∃ a ∈ assigned, d.lotId = a.lot.id ∧ 0 < d.credits ∧ d.credits ≤ a.lot.amount - a.consumedAssigned ∧
      a.lot.isStale now = true ∧ a.lot.settledAt = none := by
  induction assigned generalizing balance with
  | nil => cases member
  | cons a rest ih =>
    simp only [sweepLots] at member
    have later : d ∈ (sweepLots now rest (balance - a.debit now balance)).debits →
        ∃ b ∈ a :: rest, d.lotId = b.lot.id ∧ 0 < d.credits ∧ d.credits ≤ b.lot.amount - b.consumedAssigned ∧
          b.lot.isStale now = true ∧ b.lot.settledAt = none := by
      intro member
      obtain ⟨b, among, facts⟩ := ih member
      exact ⟨b, List.mem_cons_of_mem _ among, facts⟩
    split at member
    · rename_i pos
      rcases List.mem_cons.mp member with rfl | member
      · obtain ⟨stale, unsettled, bounded⟩ := debit_pos pos
        exact ⟨a, List.mem_cons_self, rfl, pos, bounded, stale, unsettled⟩
      · exact later member
    · exact later member

theorem sweepLots_debitIds {assigned : List AssignedCreditLot} :
    ((sweepLots now assigned balance).debits.map (·.lotId)).Sublist (assigned.map (·.lot.id)) := by
  induction assigned generalizing balance with
  | nil => exact List.Sublist.slnil
  | cons a rest ih =>
    simp only [sweepLots]
    split
    · exact ih.cons_cons a.lot.id
    · exact ih.cons a.lot.id

variable (consumption lots) in
theorem assignFrom_lots : (assignFrom consumption lots).map (·.lot) = lots := by
  induction lots generalizing consumption with
  | nil => rfl
  | cons lot rest ih => simp [assignFrom, ih]

theorem sweepLots_lots {assigned : List AssignedCreditLot} :
    (sweepLots now assigned balance).lots = assigned.map (·.updated now) := by
  induction assigned generalizing balance with
  | nil => rfl
  | cons a rest ih => simp [sweepLots, ih]

theorem sweepLots_live {assigned : List AssignedCreditLot} (live : ∀ a ∈ assigned, a.lot.isStale now = false) :
    (sweepLots now assigned balance).remainingBalance = balance ∧ (sweepLots now assigned balance).debits = [] := by
  induction assigned generalizing balance with
  | nil => exact ⟨rfl, rfl⟩
  | cons a rest ih =>
    have none : a.debit now balance = 0 := debit_live (live a List.mem_cons_self)
    simp only [sweepLots, none, sub_zero, lt_self_iff_false, ↓reduceIte]
    exact ih fun b member => live b (List.mem_cons_of_mem _ member)

variable (now) in
/-- The walk over the lots that are due: what it debits was not yet consumed, so it either debits
nothing or has assigned all consumption when it is through. -/
theorem sweepLots_due (amounts : ∀ lot ∈ lots, 0 ≤ lot.amount) {rest : ℚ} (nonneg : 0 ≤ consumption)
    (covered : totalGranted lots + rest ≤ balance + consumption) :
    rest ≤ (sweepLots now (assignFrom consumption lots) balance).remainingBalance + unassigned consumption lots ∧
      ((sweepLots now (assignFrom consumption lots) balance).remainingBalance = balance ∧
          (sweepLots now (assignFrom consumption lots) balance).debits = [] ∨
        unassigned consumption lots = 0) := by
  induction lots generalizing consumption balance with
  | nil => exact ⟨by simpa [assignFrom, sweepLots, unassigned] using covered, Or.inl ⟨rfl, rfl⟩⟩
  | cons lot others ih =>
    have amount := amounts lot List.mem_cons_self
    have later := fun other member => amounts other (List.mem_cons_of_mem _ member)
    rw [totalGranted_cons] at covered
    simp only [assignFrom, sweepLots, unassigned]
    generalize entry : (⟨lot, min lot.amount consumption, lot.amount - min lot.amount consumption⟩ : AssignedCreditLot) = a
    have same : a.lot = lot ∧ a.consumedAssigned = min lot.amount consumption := by
      subst entry
      exact ⟨rfl, rfl⟩
    have left : 0 ≤ consumption - min lot.amount consumption := sub_nonneg.mpr (min_le_right _ _)
    by_cases pos : 0 < a.debit now balance
    · obtain ⟨_, _, bounded⟩ := debit_pos pos
      rw [same.1, same.2] at bounded
      -- The lot had credits left, so the consumption ran out on it.
      have short : consumption < lot.amount := by
        by_contra within
        rw [min_eq_left (not_lt.mp within)] at bounded
        linarith
      have ran : min lot.amount consumption = consumption := min_eq_right (le_of_lt short)
      rw [ran] at bounded left ⊢
      rw [sub_self] at left ⊢
      have covered : totalGranted others + rest ≤ balance - a.debit now balance + 0 := by linarith
      obtain ⟨floor, _⟩ := ih later left covered
      have done : unassigned 0 others = 0 := by
        rw [unassigned_eq later le_rfl]
        exact max_eq_left (by linarith [totalGranted_nonneg later])
      exact ⟨floor, Or.inr done⟩
    · have none : a.debit now balance = 0 := le_antisymm (not_lt.mp pos) debit_nonneg
      rw [none, sub_zero, if_neg (lt_irrefl 0)]
      have taken : min lot.amount consumption ≤ lot.amount := min_le_left _ _
      exact ih later left (by linarith)

theorem processHolder_solvent (solvent : 0 ≤ balance) : 0 ≤ (processHolder now lots balance).remainingBalance := by
  unfold processHolder
  split
  · exact solvent
  · split
    · exact solvent
    · exact sweepLots_solvent solvent

end Walk
end Bike4Mind.Credits
