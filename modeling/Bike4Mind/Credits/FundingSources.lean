import Bike4Mind.Credits.CreditLots
import Mathlib.Tactic.Ring

/-! Which funding sources a charge drew on: the charge is the newest slice of what the lots have been spent on so far. -/

namespace Bike4Mind.Credits

/-! ### Overlaps -/

/-- The length that `[a, b]` and `[lo, hi]` share. -/
def overlap (a b lo hi : ℚ) : ℚ := max 0 (min b hi - max a lo)

section Overlap
variable {a b lo mid hi : ℚ}

theorem overlap_nonneg : 0 ≤ overlap a b lo hi := le_max_left 0 _

theorem overlap_le_left (ordered : a ≤ b) : overlap a b lo hi ≤ b - a :=
  max_le (by linarith) (by linarith [min_le_left b hi, le_max_left a lo])

theorem overlap_le_right (ordered : lo ≤ hi) : overlap a b lo hi ≤ hi - lo :=
  max_le (by linarith) (by linarith [min_le_right b hi, le_max_right a lo])

theorem overlap_tiles (ordered : a ≤ b) (left : lo ≤ mid) (right : mid ≤ hi) :
    overlap a b lo mid + overlap a b mid hi = overlap a b lo hi := by
  unfold overlap
  rcases max_cases a lo with ⟨h₁, _⟩ | ⟨h₁, _⟩ <;> rcases max_cases a mid with ⟨h₂, _⟩ | ⟨h₂, _⟩ <;>
    rcases min_cases b mid with ⟨h₃, _⟩ | ⟨h₃, _⟩ <;> rcases min_cases b hi with ⟨h₄, _⟩ | ⟨h₄, _⟩ <;>
    rw [h₁, h₂, h₃, h₄]
  all_goals
    simp only [max_def]
    split_ifs <;> linarith

theorem overlap_joins {c : ℚ} (left : a ≤ b) (right : b ≤ c) (ordered : lo ≤ hi) :
    overlap a b lo hi + overlap b c lo hi = overlap a c lo hi := by
  have swap : ∀ a b lo hi : ℚ, overlap a b lo hi = overlap lo hi a b := fun a b lo hi => by
    unfold overlap
    rw [min_comm, max_comm a lo]
  rw [swap a b, swap b c, swap a c]
  exact overlap_tiles ordered left right

theorem overlap_self : overlap a a lo hi = 0 := by
  refine max_eq_left ?_
  linarith [min_le_left a hi, le_max_left a lo]

theorem overlap_empty : overlap a b lo lo = 0 := by
  refine max_eq_left ?_
  linarith [min_le_right b lo, le_max_right a lo]

theorem overlap_clamped (start : 0 ≤ a) : overlap a b (max 0 lo) (max 0 hi) = overlap a b lo hi := by
  unfold overlap
  have low : max a (max 0 lo) = max a lo := by rw [← max_assoc, max_eq_left start]
  rw [low]
  rcases le_total 0 hi with up | down
  · rw [max_eq_right up]
  · rw [max_eq_left down]
    have above : min b 0 - max a lo ≤ 0 := by linarith [min_le_right b 0, le_max_left a lo]
    have below : min b hi - max a lo ≤ 0 := by linarith [min_le_right b hi, le_max_left a lo]
    rw [max_eq_left above, max_eq_left below]

end Overlap

/-! ### Attribution -/

inductive CreditLotSource where
  | pack | subscription | promo | transfer | legacy
  deriving DecidableEq

inductive UsageFundingSource where
  | granted | purchased | subscription | unknown
  deriving DecidableEq

def FUNDING_SOURCE_BY_LOT_SOURCE : CreditLotSource → UsageFundingSource
  | .pack => .purchased
  | .subscription => .subscription
  | .promo => .granted
  | .transfer => .granted
  | .legacy => .unknown

/-- `FundingLotLike` -/
structure FundingLot where
  amount : ℚ
  source : CreditLotSource
  fundingSource : Option UsageFundingSource := none
  settledAt : Option Time := none
  deriving DecidableEq

def FundingLot.fundedBy (lot : FundingLot) : UsageFundingSource :=
  lot.fundingSource.getD (FUNDING_SOURCE_BY_LOT_SOURCE lot.source)

abbrev UsageFundingBreakdown := UsageFundingSource → ℚ

def UsageFundingBreakdown.add (breakdown : UsageFundingBreakdown) (source : UsageFundingSource) (credits : ℚ) :
    UsageFundingBreakdown := Function.update breakdown source (breakdown source + credits)

def UsageFundingBreakdown.total (breakdown : UsageFundingBreakdown) : ℚ :=
  breakdown .granted + breakdown .purchased + breakdown .subscription + breakdown .unknown

def liveLots (lots : List FundingLot) : List FundingLot := lots.filter (·.settledAt.isNone)

/-- `computeConsumption` over the amounts of the lots. -/
def consumptionOf (amounts : List ℚ) (currentCredits : ℚ) : ℚ := max 0 (amounts.sum - currentCredits)

/-- The walk over the live lots, with what it has added up so far. -/
def attributeFrom (sliceStart consumption : ℚ) : List FundingLot → (lotStart : ℚ) → (breakdown : UsageFundingBreakdown) →
    (attributed : ℚ) → UsageFundingBreakdown × ℚ
  | [], _, breakdown, attributed => (breakdown, attributed)
  | lot :: rest, lotStart, breakdown, attributed =>
    let lotEnd := lotStart + lot.amount
    let overlap := max 0 (min lotEnd consumption - max lotStart sliceStart)
    attributeFrom sliceStart consumption rest lotEnd (breakdown.add lot.fundedBy overlap) (attributed + overlap)

def attributeChargeToFundingSources (lots : List FundingLot) (currentCredits chargedCredits : ℚ) : UsageFundingBreakdown :=
  let charged := max 0 chargedCredits
  let consumption := consumptionOf ((liveLots lots).map (·.amount)) currentCredits
  let sliceStart := max 0 (consumption - charged)
  let (breakdown, attributed) := attributeFrom sliceStart consumption (liveLots lots) 0 (fun _ => 0) 0
  breakdown.add .unknown (charged - attributed)

/-! ### Where the lots lie -/

/-- A lot with the stretch of all consumption that draws on it. -/
structure Span where
  lot : FundingLot
  start : ℚ
  finish : ℚ

def spansFrom : ℚ → List FundingLot → List Span
  | _, [] => []
  | start, lot :: rest => ⟨lot, start, start + lot.amount⟩ :: spansFrom (start + lot.amount) rest

def spans (lots : List FundingLot) : List Span := spansFrom 0 (liveLots lots)

def granted (lots : List FundingLot) : ℚ := ((liveLots lots).map (·.amount)).sum

/-- What a charge draws on one lot, when it leaves the balance at `currentCredits`. -/
def drawn (lots : List FundingLot) (currentCredits charged : ℚ) (span : Span) : ℚ :=
  overlap span.start span.finish (granted lots - currentCredits - charged) (granted lots - currentCredits)

/-- The part of a charge that lies outside the live lots. -/
def outside (lots : List FundingLot) (currentCredits charged : ℚ) : ℚ :=
  charged - overlap 0 (granted lots) (granted lots - currentCredits - charged) (granted lots - currentCredits)

/-- What a charge draws on the lots of one source. -/
def drawnFrom (lots : List FundingLot) (currentCredits charged : ℚ) (source : UsageFundingSource) : ℚ :=
  (((spans lots).filter (·.lot.fundedBy = source)).map (drawn lots currentCredits charged)).sum

/-! ### One charge -/

section Charge
variable {lots : List FundingLot} {start sliceStart consumption attributed : ℚ} {breakdown : UsageFundingBreakdown}
variable {source : UsageFundingSource} {span : Span}

theorem add_apply (breakdown : UsageFundingBreakdown) (funded source : UsageFundingSource) (credits : ℚ) :
    breakdown.add funded credits source = breakdown source + if funded = source then credits else 0 := by
  unfold UsageFundingBreakdown.add
  by_cases same : funded = source
  · rw [same, Function.update_self, if_pos rfl]
  · rw [Function.update_of_ne (Ne.symm same), if_neg same, add_zero]

theorem attributeFrom_source : (attributeFrom sliceStart consumption lots start breakdown attributed).1 source = breakdown source +
    (((spansFrom start lots).filter (·.lot.fundedBy = source)).map fun span =>
      overlap span.start span.finish sliceStart consumption).sum := by
  induction lots generalizing start breakdown attributed with
  | nil => exact (add_zero _).symm
  | cons lot rest ih =>
    unfold attributeFrom spansFrom
    dsimp only
    rw [ih, add_apply, add_assoc]
    congr 1
    by_cases same : lot.fundedBy = source
    · rw [List.filter_cons_of_pos (by simpa using same), List.map_cons, List.sum_cons, if_pos same]
      rfl
    · rw [List.filter_cons_of_neg (by simpa using same), if_neg same, zero_add]

theorem attributeFrom_attributed : (attributeFrom sliceStart consumption lots start breakdown attributed).2 = attributed +
    ((spansFrom start lots).map fun span => overlap span.start span.finish sliceStart consumption).sum := by
  induction lots generalizing start breakdown attributed with
  | nil => exact (add_zero _).symm
  | cons lot rest ih =>
    unfold attributeFrom spansFrom
    dsimp only
    rw [ih, List.map_cons, List.sum_cons, add_assoc]
    rfl

theorem mem_spansFrom (amounts : ∀ lot ∈ lots, 0 ≤ lot.amount) (listed : span ∈ spansFrom start lots) :
    start ≤ span.start ∧ span.start ≤ span.finish ∧ span.finish - span.start = span.lot.amount := by
  induction lots generalizing start with
  | nil => cases listed
  | cons lot rest ih =>
    have here := amounts lot List.mem_cons_self
    rcases List.mem_cons.mp listed with same | later
    · subst same
      exact ⟨le_rfl, le_add_of_nonneg_right here, add_sub_cancel_left start lot.amount⟩
    · have rest := ih (fun lot member => amounts lot (List.mem_cons_of_mem _ member)) later
      exact ⟨le_trans (le_add_of_nonneg_right here) rest.1, rest.2⟩

theorem spansFrom_cover (amounts : ∀ lot ∈ lots, 0 ≤ lot.amount) {lo hi : ℚ} (ordered : lo ≤ hi) :
    ((spansFrom start lots).map fun span => overlap span.start span.finish lo hi).sum =
      overlap start (start + (lots.map (·.amount)).sum) lo hi := by
  induction lots generalizing start with
  | nil =>
    show (0 : ℚ) = overlap start (start + 0) lo hi
    rw [add_zero, overlap_self]
  | cons lot rest ih =>
    have here := amounts lot List.mem_cons_self
    have later : ∀ lot ∈ rest, 0 ≤ lot.amount := fun lot member => amounts lot (List.mem_cons_of_mem _ member)
    have total : 0 ≤ (rest.map (·.amount)).sum := List.sum_nonneg (List.forall_mem_map.mpr later)
    unfold spansFrom
    rw [List.map_cons, List.sum_cons, ih later, List.map_cons, List.sum_cons, ← add_assoc]
    exact overlap_joins (le_add_of_nonneg_right here) (le_add_of_nonneg_right total) ordered

theorem liveLots_amounts (amounts : ∀ lot ∈ lots, 0 ≤ lot.amount) : ∀ lot ∈ liveLots lots, 0 ≤ lot.amount :=
  fun lot live => amounts lot (List.mem_of_mem_filter live)

theorem slice_clamped {x charged : ℚ} (paid : 0 ≤ charged) : max 0 (max 0 x - charged) = max 0 (x - charged) := by
  rcases le_total 0 x with up | down
  · rw [max_eq_right up]
  · rw [max_eq_left down, max_eq_left (by linarith), max_eq_left (by linarith)]

variable {currentCredits charged : ℚ}

theorem slice_drawn (amounts : ∀ lot ∈ lots, 0 ≤ lot.amount) (paid : 0 ≤ charged) (listed : span ∈ spans lots) :
    overlap span.start span.finish
      (max 0 (consumptionOf ((liveLots lots).map (·.amount)) currentCredits - max 0 charged))
      (consumptionOf ((liveLots lots).map (·.amount)) currentCredits) = drawn lots currentCredits charged span := by
  unfold consumptionOf drawn granted
  rw [max_eq_right paid, slice_clamped paid]
  exact overlap_clamped (mem_spansFrom (liveLots_amounts amounts) listed).1

theorem drawn_cover (amounts : ∀ lot ∈ lots, 0 ≤ lot.amount) (paid : 0 ≤ charged) :
    ((spans lots).map (drawn lots currentCredits charged)).sum =
      overlap 0 (granted lots) (granted lots - currentCredits - charged) (granted lots - currentCredits) := by
  have covered := @spansFrom_cover (liveLots lots) 0 (liveLots_amounts amounts) (granted lots - currentCredits - charged)
    (granted lots - currentCredits) (by linarith)
  rw [zero_add] at covered
  exact covered

/-- Each source gets what the charge draws on its lots, and `unknown` besides what lies outside of them. -/
theorem attribute_eq (amounts : ∀ lot ∈ lots, 0 ≤ lot.amount) (paid : 0 ≤ charged) (source : UsageFundingSource) :
    attributeChargeToFundingSources lots currentCredits charged source =
      drawnFrom lots currentCredits charged source + if source = .unknown then outside lots currentCredits charged else 0 := by
  unfold attributeChargeToFundingSources
  dsimp only
  rw [add_apply, attributeFrom_source, attributeFrom_attributed, zero_add, zero_add]
  have drawnHere : ((spansFrom 0 (liveLots lots)).map fun span => overlap span.start span.finish
      (max 0 (consumptionOf ((liveLots lots).map (·.amount)) currentCredits - max 0 charged))
      (consumptionOf ((liveLots lots).map (·.amount)) currentCredits)) = (spans lots).map (drawn lots currentCredits charged) :=
    List.map_congr_left fun span listed => slice_drawn amounts paid listed
  congr 1
  · unfold drawnFrom
    congr 1
    exact List.map_congr_left fun span listed => slice_drawn amounts paid (List.mem_of_mem_filter listed)
  · rw [drawnHere, drawn_cover amounts paid, max_eq_right paid]
    by_cases unknown : source = .unknown
    · rw [if_pos unknown, if_pos unknown.symm]
      rfl
    · rw [if_neg unknown, if_neg (Ne.symm unknown)]

theorem drawnFrom_nonneg : 0 ≤ drawnFrom lots currentCredits charged source :=
  List.sum_nonneg (List.forall_mem_map.mpr fun _ _ => overlap_nonneg)

theorem outside_nonneg (paid : 0 ≤ charged) : 0 ≤ outside lots currentCredits charged := by
  have fits := @overlap_le_right 0 (granted lots) (granted lots - currentCredits - charged) (granted lots - currentCredits)
    (by linarith)
  unfold outside
  linarith

/-- The lots of the four sources are all the lots. -/
theorem sources_partition {spans : List Span} {f : Span → ℚ} :
    ((spans.filter (·.lot.fundedBy = .granted)).map f).sum + ((spans.filter (·.lot.fundedBy = .purchased)).map f).sum +
      ((spans.filter (·.lot.fundedBy = .subscription)).map f).sum + ((spans.filter (·.lot.fundedBy = .unknown)).map f).sum =
        (spans.map f).sum := by
  induction spans with
  | nil => simp
  | cons span rest ih =>
    rw [List.map_cons, List.sum_cons, ← ih]
    cases source : span.lot.fundedBy <;> simp only [List.filter_cons, source, decide_true, reduceCtorEq, decide_false,
      Bool.false_eq_true, ↓reduceIte, List.map_cons, List.sum_cons] <;> ring

theorem attribute_nonneg (amounts : ∀ lot ∈ lots, 0 ≤ lot.amount) (paid : 0 ≤ charged) (source : UsageFundingSource) :
    0 ≤ attributeChargeToFundingSources lots currentCredits charged source := by
  rw [attribute_eq amounts paid]
  refine add_nonneg drawnFrom_nonneg ?_
  split
  · exact outside_nonneg paid
  · exact le_rfl

theorem attribute_total (amounts : ∀ lot ∈ lots, 0 ≤ lot.amount) (paid : 0 ≤ charged) :
    (attributeChargeToFundingSources lots currentCredits charged).total = charged := by
  have partition := @sources_partition (spans lots) (drawn lots currentCredits charged)
  rw [drawn_cover amounts paid] at partition
  unfold UsageFundingBreakdown.total
  rw [attribute_eq amounts paid, attribute_eq amounts paid, attribute_eq amounts paid, attribute_eq amounts paid]
  simp only [reduceCtorEq, ↓reduceIte, add_zero]
  unfold drawnFrom outside
  linarith

end Charge

/-! ### Charges in a row -/

/-- A charge, and the balance it leaves. -/
structure Debit where
  currentCredits : ℚ
  charged : ℚ

def debits : ℚ → List ℚ → List Debit
  | _, [] => []
  | balance, charge :: rest => ⟨balance - charge, charge⟩ :: debits (balance - charge) rest

section Charges
variable {lots : List FundingLot} {charges : List ℚ}

theorem debits_charged {balance : ℚ} (charged : ∀ charge ∈ charges, 0 ≤ charge) : ∀ debit ∈ debits balance charges, 0 ≤ debit.charged := by
  induction charges generalizing balance with
  | nil => exact fun _ listed => (List.not_mem_nil listed).elim
  | cons charge rest ih =>
    exact List.forall_mem_cons.mpr ⟨charged charge List.mem_cons_self,
      ih fun charge member => charged charge (List.mem_cons_of_mem _ member)⟩

theorem debits_total {balance : ℚ} : ((debits balance charges).map (·.charged)).sum = charges.sum := by
  induction charges generalizing balance with
  | nil => rfl
  | cons charge rest ih =>
    unfold debits
    rw [List.map_cons, List.sum_cons, ih, List.sum_cons]

/-- The slices of charges in a row tile the slice of one charge for all of them. -/
theorem slices_tile {a b total balance : ℚ} (ordered : a ≤ b) (charged : ∀ charge ∈ charges, 0 ≤ charge) :
    ((debits balance charges).map fun debit =>
      overlap a b (total - debit.currentCredits - debit.charged) (total - debit.currentCredits)).sum =
        overlap a b (total - balance) (total - balance + charges.sum) := by
  induction charges generalizing balance with
  | nil =>
    show (0 : ℚ) = overlap a b (total - balance) (total - balance + 0)
    rw [add_zero, overlap_empty]
  | cons charge rest ih =>
    have here := charged charge List.mem_cons_self
    have later : ∀ charge ∈ rest, 0 ≤ charge := fun charge member => charged charge (List.mem_cons_of_mem _ member)
    have sum : 0 ≤ rest.sum := List.sum_nonneg later
    unfold debits
    rw [List.map_cons, List.sum_cons, ih later, List.sum_cons]
    have low : total - (balance - charge) - charge = total - balance := by ring
    have high : total - balance + (charge + rest.sum) = total - (balance - charge) + rest.sum := by ring
    rw [low, high]
    exact overlap_tiles ordered (by linarith) (by linarith)

variable {balance : ℚ}

theorem sum_exchange {α β : Type} (xs : List α) (ys : List β) (f : α → β → ℚ) :
    (xs.map fun x => (ys.map (f x)).sum).sum = (ys.map fun y => (xs.map fun x => f x y).sum).sum := by
  induction xs with
  | nil => simp
  | cons x rest ih =>
    simp only [List.map_cons, List.sum_cons]
    rw [ih, List.sum_map_add]

theorem drawn_tile (amounts : ∀ lot ∈ lots, 0 ≤ lot.amount) (charged : ∀ charge ∈ charges, 0 ≤ charge) {span : Span}
    (listed : span ∈ spans lots) :
    ((debits balance charges).map fun debit => drawn lots debit.currentCredits debit.charged span).sum =
      drawn lots (balance - charges.sum) charges.sum span := by
  have ordered := (mem_spansFrom (liveLots_amounts amounts) listed).2.1
  have tiled := @slices_tile charges span.start span.finish (granted lots) balance ordered charged
  have low : granted lots - (balance - charges.sum) - charges.sum = granted lots - balance := by ring
  have high : granted lots - (balance - charges.sum) = granted lots - balance + charges.sum := by ring
  unfold drawn
  rw [low, high]
  exact tiled

theorem drawnFrom_tile (amounts : ∀ lot ∈ lots, 0 ≤ lot.amount) (charged : ∀ charge ∈ charges, 0 ≤ charge)
    (source : UsageFundingSource) :
    ((debits balance charges).map fun debit => drawnFrom lots debit.currentCredits debit.charged source).sum =
      drawnFrom lots (balance - charges.sum) charges.sum source := by
  unfold drawnFrom
  rw [sum_exchange]
  congr 1
  exact List.map_congr_left fun span listed => drawn_tile amounts charged (List.mem_of_mem_filter listed)

theorem outside_tile (amounts : ∀ lot ∈ lots, 0 ≤ lot.amount) (charged : ∀ charge ∈ charges, 0 ≤ charge) :
    ((debits balance charges).map fun debit => outside lots debit.currentCredits debit.charged).sum =
      outside lots (balance - charges.sum) charges.sum := by
  have all : 0 ≤ granted lots := List.sum_nonneg (List.forall_mem_map.mpr (liveLots_amounts amounts))
  have tiled := @slices_tile charges 0 (granted lots) (granted lots) balance all charged
  have split : ∀ debits : List Debit, (debits.map fun debit => outside lots debit.currentCredits debit.charged).sum =
      (debits.map (·.charged)).sum - (debits.map fun debit => overlap 0 (granted lots)
        (granted lots - debit.currentCredits - debit.charged) (granted lots - debit.currentCredits)).sum := by
    intro debits
    induction debits with
    | nil => simp
    | cons debit rest ih =>
      simp only [List.map_cons, List.sum_cons]
      rw [ih]
      unfold outside
      ring
  have low : granted lots - (balance - charges.sum) - charges.sum = granted lots - balance := by ring
  have high : granted lots - (balance - charges.sum) = granted lots - balance + charges.sum := by ring
  rw [split, debits_total, tiled]
  unfold outside
  rw [low, high]

theorem attribute_tile (amounts : ∀ lot ∈ lots, 0 ≤ lot.amount) (charged : ∀ charge ∈ charges, 0 ≤ charge)
    (source : UsageFundingSource) :
    ((debits balance charges).map fun debit =>
      attributeChargeToFundingSources lots debit.currentCredits debit.charged source).sum =
        attributeChargeToFundingSources lots (balance - charges.sum) charges.sum source := by
  have total : 0 ≤ charges.sum := List.sum_nonneg charged
  have each : (debits balance charges).map (fun debit =>
      attributeChargeToFundingSources lots debit.currentCredits debit.charged source) =
      (debits balance charges).map fun debit => drawnFrom lots debit.currentCredits debit.charged source +
        if source = .unknown then outside lots debit.currentCredits debit.charged else 0 :=
    List.map_congr_left fun debit listed => attribute_eq amounts (debits_charged charged debit listed) source
  rw [each, attribute_eq amounts total, List.sum_map_add, drawnFrom_tile amounts charged]
  by_cases unknown : source = .unknown
  · simp only [unknown, ↓reduceIte]
    rw [outside_tile amounts charged]
  · simp [unknown]

/-- Over charges in a row no lot is drawn on for more than its amount. -/
theorem drawn_fits (amounts : ∀ lot ∈ lots, 0 ≤ lot.amount) (charged : ∀ charge ∈ charges, 0 ≤ charge) {span : Span}
    (listed : span ∈ spans lots) :
    ((debits balance charges).map fun debit => drawn lots debit.currentCredits debit.charged span).sum ≤ span.lot.amount := by
  obtain ⟨_, ordered, size⟩ := mem_spansFrom (liveLots_amounts amounts) listed
  rw [drawn_tile amounts charged listed, ← size]
  exact overlap_le_left ordered

end Charges

theorem charges_tile (lots : List FundingLot) (charges : List ℚ) (balance : ℚ) (amounts : ∀ lot ∈ lots, 0 ≤ lot.amount)
    (charged : ∀ charge ∈ charges, 0 ≤ charge) :
    (∀ debit ∈ debits balance charges,
      (∀ source, 0 ≤ attributeChargeToFundingSources lots debit.currentCredits debit.charged source) ∧
      (attributeChargeToFundingSources lots debit.currentCredits debit.charged).total = debit.charged) ∧
    (∀ source, ((debits balance charges).map fun debit =>
      attributeChargeToFundingSources lots debit.currentCredits debit.charged source).sum =
        attributeChargeToFundingSources lots (balance - charges.sum) charges.sum source) ∧
    (∀ span ∈ spans lots,
      ((debits balance charges).map fun debit => drawn lots debit.currentCredits debit.charged span).sum ≤ span.lot.amount) ∧
    (∀ debit ∈ debits balance charges, ∀ source,
      attributeChargeToFundingSources lots debit.currentCredits debit.charged source =
        drawnFrom lots debit.currentCredits debit.charged source +
          if source = .unknown then outside lots debit.currentCredits debit.charged else 0) := by
  have paid := @debits_charged charges balance charged
  refine ⟨fun debit listed => ⟨attribute_nonneg amounts (paid debit listed), attribute_total amounts (paid debit listed)⟩,
    attribute_tile amounts charged, ?_, fun debit listed => attribute_eq amounts (paid debit listed)⟩
  intro span listed
  exact drawn_fits amounts charged listed

def packThenPromo : List FundingLot :=
  [⟨10, .promo, none, none⟩, ⟨7, .pack, none, some 3⟩, ⟨5, .pack, none, none⟩, ⟨4, .legacy, some .subscription, none⟩]

theorem packThenPromo_tiled :
    ((debits 12 [4, 3, 8]).map fun debit =>
      attributeChargeToFundingSources packThenPromo debit.currentCredits debit.charged .purchased).sum =
        attributeChargeToFundingSources packThenPromo (12 - [4, 3, 8].sum) [4, 3, 8].sum .purchased :=
  (charges_tile packThenPromo [4, 3, 8] 12 (by decide) (by decide)).2.1 .purchased

end Bike4Mind.Credits
