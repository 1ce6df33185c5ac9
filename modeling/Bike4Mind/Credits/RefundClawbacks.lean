import Bike4Mind.Runtime
import Mathlib.Algebra.BigOperators.Field
import Mathlib.Algebra.Order.Floor.Ring
import Mathlib.Data.Rat.Floor
import Mathlib.Tactic.FieldSimp
import Mathlib.Tactic.Positivity
import Mathlib.Tactic.Linarith
import Mathlib.Tactic.Ring

/-! Clawbacks of a refunded credit purchase. Every refund is rounded on its own. -/

namespace Bike4Mind.Credits.Clawbacks

/-- `Math.round` -/
def mathRound (x : ℚ) : ℤ := ⌊x + 1 / 2⌋

structure Refund where
  id : String
  amount : ℚ
  deriving DecidableEq

structure Purchase where
  userId : String
  paymentIntentId : String
  purchasedCredits : ℚ
  chargeAmount : ℚ
  deriving DecidableEq

/-- A `generic_deduct` row. -/
structure DeductRow where
  ownerId : String
  credits : ℚ
  reason : String
  stripeRefundId : String
  description : String
  deriving DecidableEq

structure PackLot where
  stripeRef : String
  amount : ℚ
  consumedAssigned : ℚ
  deriving DecidableEq

/-- The ledger, with the balance and the lots of the buyer. -/
structure Books where
  rows : List DeductRow
  currentCredits : ℚ
  lots : List PackLot
  deriving DecidableEq

structure Clawback where
  credits : ℤ
  ratio : ℚ
  deriving DecidableEq

def Books.recorded (books : Books) (refundId : String) : Bool := books.rows.any (·.stripeRefundId = refundId)

/-- The row is written first: its unique `stripeRefundId` decides whether the balance moves. -/
def subtractCredits (ownerId : String) (credits : ℚ) (reason stripeRefundId description : String) (books : Books) :
    Except JsError Books :=
  if books.recorded stripeRefundId then .error (.duplicateKey "E11000 duplicate key error: stripeRefundId")
  else .ok { books with
    rows := books.rows ++ [⟨ownerId, -|credits|, reason, stripeRefundId, description⟩]
    currentCredits := books.currentCredits + -credits }

def clawbackCreditLotsByStripeRef (stripeRef : String) (clawedCredits : ℚ) (books : Books) : Books :=
  { books with lots := books.lots.map fun lot =>
      if lot.stripeRef = stripeRef then { lot with amount := max lot.consumedAssigned (lot.amount - clawedCredits) } else lot }

def isDuplicateKey : JsError → Bool
  | .duplicateKey _ => true
  | _ => false

namespace Purchase
variable (purchase : Purchase) (refund : Refund)

def ratio : ℚ := if 0 < purchase.chargeAmount then refund.amount / purchase.chargeAmount else 0

def credits : ℤ := mathRound (purchase.purchasedCredits * purchase.ratio refund)

def description : String :=
  s!"Refund clawback: Stripe refund {refund.id} ({mathRound (purchase.ratio refund * 100)}% of purchase)"

end Purchase

def clawbackRefundCredits (purchase : Purchase) (refund : Refund) (books : Books) : Except JsError (Option Clawback × Books) :=
  if purchase.credits refund ≤ 0 then .ok (none, books) else
  match subtractCredits purchase.userId (purchase.credits refund) "refund_clawback" refund.id (purchase.description refund) books with
  | .error error => if isDuplicateKey error then .ok (none, books) else .error error
  | .ok deducted => .ok (some ⟨purchase.credits refund, purchase.ratio refund⟩,
      clawbackCreditLotsByStripeRef purchase.paymentIntentId (purchase.credits refund) deducted)

/-- The deliveries of a purchase's refunds, one after another. -/
def deliver (purchase : Purchase) : List Refund → Books → Except JsError Books
  | [], books => .ok books
  | refund :: rest, books =>
    match clawbackRefundCredits purchase refund books with
    | .error error => .error error
    | .ok (_, after) => deliver purchase rest after

/-! ### One delivery -/

section Delivery
variable {purchase : Purchase} {refund : Refund} {books : Books}

/-- What one delivery takes: nothing when its refund has a row already. -/
def owed (purchase : Purchase) (books : Books) (refund : Refund) : ℚ :=
  if books.recorded refund.id then 0 else max 0 (purchase.credits refund)

theorem clawback_spec (purchase : Purchase) (refund : Refund) (books : Books) :
    ∃ reply after, clawbackRefundCredits purchase refund books = .ok (reply, after) ∧
      after.currentCredits = books.currentCredits - owed purchase books refund ∧
      ∀ id, after.recorded id = (books.recorded id || decide (0 < purchase.credits refund ∧ refund.id = id)) := by
  unfold clawbackRefundCredits owed
  by_cases nothing : purchase.credits refund ≤ 0
  · rw [if_pos nothing]
    refine ⟨none, books, rfl, ?_, fun id => ?_⟩
    · have none : ((purchase.credits refund : ℤ) : ℚ) ≤ 0 := by exact_mod_cast nothing
      rw [max_eq_left none, ite_self, sub_zero]
    · have never : ¬(0 < purchase.credits refund ∧ refund.id = id) := by omega
      simp [never]
  · rw [if_neg nothing]
    have some : 0 < purchase.credits refund := by omega
    have credited : (0 : ℚ) < (purchase.credits refund : ℤ) := by exact_mod_cast some
    unfold subtractCredits
    by_cases known : books.recorded refund.id = true
    · rw [if_pos known, if_pos known]
      refine ⟨none, books, rfl, (sub_zero _).symm, fun id => ?_⟩
      by_cases same : refund.id = id
      · simp [← same, known]
      · simp [same]
    · rw [if_neg known, if_neg known]
      refine ⟨_, _, rfl, ?_, fun id => ?_⟩
      · show books.currentCredits + -(purchase.credits refund : ℚ) = _
        rw [max_eq_right credited.le, sub_eq_add_neg]
      · show (books.rows ++ [_]).any _ = _
        simp [Books.recorded, some]

end Delivery

/-! ### A sequence of deliveries -/

section Deliveries
variable {purchase : Purchase} {books : Books} {deliveries : List Refund}

/-- A refund that is delivered again is the same refund. -/
def Redelivered (deliveries : List Refund) : Prop :=
  ∀ refund ∈ deliveries, ∀ again ∈ deliveries, refund.id = again.id → refund = again

instance : Decidable (Redelivered deliveries) :=
  inferInstanceAs (Decidable (∀ refund ∈ deliveries, ∀ again ∈ deliveries, refund.id = again.id → refund = again))

theorem Redelivered.tail {refund : Refund} (same : Redelivered (refund :: deliveries)) : Redelivered deliveries :=
  fun _ first _ again => same _ (List.mem_cons_of_mem _ first) _ (List.mem_cons_of_mem _ again)

theorem owed_after {refund other : Refund} {after : Books}
    (recorded : ∀ id, after.recorded id = (books.recorded id || decide (0 < purchase.credits refund ∧ refund.id = id)))
    (same : refund.id = other.id → refund = other) :
    owed purchase after other = if other = refund then 0 else owed purchase books other := by
  unfold owed
  rw [recorded]
  by_cases own : other = refund
  · subst own
    by_cases some : 0 < purchase.credits other
    · simp [some]
    · have none : ((purchase.credits other : ℤ) : ℚ) ≤ 0 := by exact_mod_cast not_lt.mp some
      simp [max_eq_left none]
  · have apart : refund.id ≠ other.id := fun equal => own (same equal).symm
    simp [own, apart]

/-- What is taken in all: each refund without a row yet, once. -/
theorem deliver_spec (same : Redelivered deliveries) :
    ∃ after, deliver purchase deliveries books = .ok after ∧
      after.currentCredits = books.currentCredits - ∑ refund ∈ deliveries.toFinset, owed purchase books refund := by
  induction deliveries generalizing books with
  | nil => exact ⟨books, rfl, by simp⟩
  | cons refund rest ih =>
    obtain ⟨reply, next, called, balance, recorded⟩ := clawback_spec purchase refund books
    obtain ⟨after, delivered, total⟩ := @ih next same.tail
    refine ⟨after, ?_, ?_⟩
    · unfold deliver
      rw [called]
      exact delivered
    · have each : ∑ other ∈ rest.toFinset, owed purchase next other =
          ∑ other ∈ rest.toFinset, if other = refund then 0 else owed purchase books other := by
        refine Finset.sum_congr rfl fun other member => owed_after recorded ?_
        exact same _ List.mem_cons_self _ (List.mem_cons_of_mem _ (List.mem_toFinset.mp member))
      have others : ∑ other ∈ rest.toFinset, (if other = refund then 0 else owed purchase books other) =
          ∑ other ∈ (insert refund rest.toFinset).erase refund, owed purchase books other := by
        rw [Finset.erase_insert_eq_erase, ← Finset.filter_ne', Finset.sum_filter]
        exact Finset.sum_congr rfl fun other _ => (ite_not _ _ _).symm
      have whole := Finset.add_sum_erase (insert refund rest.toFinset) (owed purchase books)
        (Finset.mem_insert_self refund rest.toFinset)
      rw [total, balance, each, others, List.toFinset_cons]
      linarith

end Deliveries

/-! ### What rounding does to the total -/

section Rounding
variable {purchase : Purchase} {books : Books} {deliveries : List Refund}

namespace Purchase
variable (purchase : Purchase) (refund : Refund)

/-- The share that the refund returned, before it is rounded. -/
def share : ℚ := purchase.purchasedCredits * (refund.amount / purchase.chargeAmount)

/-- What rounding adds to a share, when it is rounded up. -/
def gained : ℚ := if 1 / 2 ≤ Int.fract (purchase.share refund) then 1 - Int.fract (purchase.share refund) else 0

/-- What rounding drops from a share, when it is rounded down. -/
def dropped : ℚ := if 1 / 2 ≤ Int.fract (purchase.share refund) then 0 else Int.fract (purchase.share refund)

end Purchase

theorem mathRound_fract (x : ℚ) : (mathRound x : ℚ) = x + (if 1 / 2 ≤ Int.fract x then 1 - Int.fract x else 0) -
    if 1 / 2 ≤ Int.fract x then 0 else Int.fract x := by
  have parts := Int.floor_add_fract x
  have above := Int.fract_nonneg x
  have below := Int.fract_lt_one x
  unfold mathRound
  by_cases up : 1 / 2 ≤ Int.fract x
  · have rounded : ⌊x + 1 / 2⌋ = ⌊x⌋ + 1 := by
      rw [Int.floor_eq_iff]
      push_cast
      constructor <;> linarith
    rw [rounded, if_pos up, if_pos up]
    push_cast
    linarith
  · have rounded : ⌊x + 1 / 2⌋ = ⌊x⌋ := by
      rw [Int.floor_eq_iff]
      constructor <;> linarith
    rw [rounded, if_neg up, if_neg up]
    linarith

theorem credits_eq (captured : 0 < purchase.chargeAmount) (refund : Refund) :
    ((purchase.credits refund : ℤ) : ℚ) = purchase.share refund + purchase.gained refund - purchase.dropped refund := by
  unfold Purchase.credits Purchase.ratio
  rw [if_pos captured]
  exact mathRound_fract _

theorem credits_nonneg (bought : 0 ≤ purchase.purchasedCredits) (captured : 0 < purchase.chargeAmount) {refund : Refund}
    (returned : 0 ≤ refund.amount) : 0 ≤ purchase.credits refund := by
  unfold Purchase.credits Purchase.ratio mathRound
  rw [if_pos captured]
  have share : 0 ≤ purchase.purchasedCredits * (refund.amount / purchase.chargeAmount) := by positivity
  exact Int.floor_nonneg.mpr (by linarith)

def returned (deliveries : List Refund) : ℚ := ∑ refund ∈ deliveries.toFinset, refund.amount

/-- What rounding up adds stays within what rounding down drops and what was not refunded; the two are even
once everything was refunded. -/
def RoundingEvens (purchase : Purchase) (deliveries : List Refund) : Prop :=
  ∑ refund ∈ deliveries.toFinset, purchase.gained refund ≤ ∑ refund ∈ deliveries.toFinset, purchase.dropped refund +
    purchase.purchasedCredits * ((purchase.chargeAmount - returned deliveries) / purchase.chargeAmount) ∧
  (returned deliveries = purchase.chargeAmount →
    ∑ refund ∈ deliveries.toFinset, purchase.gained refund = ∑ refund ∈ deliveries.toFinset, purchase.dropped refund)

theorem shares_sum (purchase : Purchase) (deliveries : List Refund) : ∑ refund ∈ deliveries.toFinset, purchase.share refund =
    purchase.purchasedCredits * (returned deliveries / purchase.chargeAmount) := by
  unfold Purchase.share returned
  rw [← Finset.mul_sum, Finset.sum_div]

/-- What the refunds take: their shares, and what rounding makes of them. -/
theorem owed_sum (bought : 0 ≤ purchase.purchasedCredits) (captured : 0 < purchase.chargeAmount)
    (positive : ∀ refund ∈ deliveries, 0 < refund.amount) (fresh : ∀ refund ∈ deliveries, books.recorded refund.id = false) :
    ∑ refund ∈ deliveries.toFinset, owed purchase books refund =
      purchase.purchasedCredits * (returned deliveries / purchase.chargeAmount) +
        ∑ refund ∈ deliveries.toFinset, purchase.gained refund - ∑ refund ∈ deliveries.toFinset, purchase.dropped refund := by
  rw [← shares_sum, ← Finset.sum_add_distrib, ← Finset.sum_sub_distrib]
  refine Finset.sum_congr rfl fun refund member => ?_
  have listed := List.mem_toFinset.mp member
  have credited : (0 : ℚ) ≤ (purchase.credits refund : ℤ) := by
    exact_mod_cast credits_nonneg bought captured (positive refund listed).le
  unfold owed
  rw [fresh refund listed, if_neg Bool.false_ne_true, max_eq_right credited]
  exact credits_eq captured refund

end Rounding

def fiveCredits : Purchase := ⟨"user", "pi_1", 5, 1000⟩

def halves : List Refund := [⟨"re_1", 500⟩, ⟨"re_2", 500⟩]

/-- However often and in whatever order the refunds are delivered, the balance ends up the same. -/
theorem deliveries_agree (purchase : Purchase) (books : Books) {deliveries deliveries' : List Refund} (same : Redelivered deliveries)
    (members : ∀ refund, refund ∈ deliveries' ↔ refund ∈ deliveries) : ∃ after after', deliver purchase deliveries books = .ok after ∧
      deliver purchase deliveries' books = .ok after' ∧ after'.currentCredits = after.currentCredits := by
  have same' : Redelivered deliveries' := fun refund first again second => same refund ((members refund).mp first) again ((members again).mp second)
  obtain ⟨after, delivered, balance⟩ := @deliver_spec purchase books deliveries same
  obtain ⟨after', delivered', balance'⟩ := @deliver_spec purchase books deliveries' same'
  refine ⟨after, after', delivered, delivered', ?_⟩
  have listed : deliveries'.toFinset = deliveries.toFinset := Finset.ext fun refund => by simp [members]
  rw [balance, balance', listed]

theorem halves_redelivered : ∃ after after', deliver fiveCredits halves ⟨[], 5, []⟩ = .ok after ∧
    deliver fiveCredits (halves.reverse ++ halves) ⟨[], 5, []⟩ = .ok after' ∧ after'.currentCredits = after.currentCredits :=
  deliveries_agree fiveCredits ⟨[], 5, []⟩ (by decide) (by simp)

end Bike4Mind.Credits.Clawbacks
