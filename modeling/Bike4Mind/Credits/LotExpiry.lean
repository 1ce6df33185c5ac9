import Mathlib.Data.List.Nodup
import Bike4Mind.Credits.CreditLots

/-!
A holder's balance and lots over any history of grants, charges, refunds and sweeps.
-/

namespace Bike4Mind.Credits

/-- A holder's lots, as the index of the collection orders them. -/
@[ext] structure LotBook where
  lots : List CreditLot
  sorted : lots.Pairwise fun a b => a.expiresAt ≤ b.expiresAt
  amounts : ∀ lot ∈ lots, 0 ≤ lot.amount
  distinct : (lots.map (·.id)).Nodup

/-- A new lot behind the ones that expire no later. -/
def insertLot (lot : CreditLot) : List CreditLot → List CreditLot
  | [] => [lot]
  | first :: rest => if lot.expiresAt < first.expiresAt then lot :: first :: rest else first :: insertLot lot rest

theorem insertLot_perm {lot : CreditLot} {lots : List CreditLot} : (insertLot lot lots).Perm (lot :: lots) := by
  induction lots with
  | nil => exact .refl _
  | cons first rest ih =>
    unfold insertLot
    split
    · exact .refl _
    · exact (ih.cons first).trans (.swap lot first rest)

theorem insertLot_sorted {lot : CreditLot} {lots : List CreditLot}
    (sorted : lots.Pairwise fun a b => a.expiresAt ≤ b.expiresAt) :
    (insertLot lot lots).Pairwise fun a b => a.expiresAt ≤ b.expiresAt := by
  induction lots with
  | nil => simp [insertLot]
  | cons first rest ih =>
    obtain ⟨head, tail⟩ := List.pairwise_cons.mp sorted
    unfold insertLot
    split
    · rename_i sooner
      refine List.pairwise_cons.mpr ⟨fun other member => ?_, sorted⟩
      rcases List.mem_cons.mp member with rfl | member
      · exact le_of_lt sooner
      · exact le_trans (le_of_lt sooner) (head other member)
    · rename_i later
      refine List.pairwise_cons.mpr ⟨fun other member => ?_, ih tail⟩
      rcases List.mem_cons.mp (insertLot_perm.mem_iff.mp member) with rfl | member
      · exact not_lt.mp later
      · exact head other member

namespace LotBook

def insert (book : LotBook) (lot : CreditLot) (amount : 0 ≤ lot.amount) (fresh : lot.id ∉ book.lots.map (·.id)) : LotBook where
  lots := insertLot lot book.lots
  sorted := insertLot_sorted book.sorted
  amounts other member := by
    rcases List.mem_cons.mp (insertLot_perm.mem_iff.mp member) with rfl | member
    · exact amount
    · exact book.amounts other member
  distinct := (insertLot_perm.map _).nodup_iff.mpr (List.nodup_cons.mpr ⟨fresh, book.distinct⟩)

end LotBook

section Swept
variable {now : Time} {lots : List CreditLot} {balance : ℚ}

/-- A sweep rewrites lots in place, keeping what identifies them. -/
theorem processHolder_lots {β : Type} (f : CreditLot → β) (kept : ∀ a : AssignedCreditLot, f (a.updated now) = f a.lot) :
    (processHolder now lots balance).lots.map f = lots.map f := by
  unfold processHolder
  split
  · rfl
  · split
    · rfl
    · have same : (fun a : AssignedCreditLot => f (a.updated now)) = fun a => f a.lot := funext kept
      rw [sweepLots_lots, List.map_map, Function.comp_def, same]
      conv_rhs => rw [← assignFrom_lots lots (max 0 (computeConsumption lots balance)), List.map_map]
      rfl

theorem processHolder_debit {d : LotDebit} (member : d ∈ (processHolder now lots balance).debits) :
    ∃ lot ∈ lots, d.lotId = lot.id ∧ 0 < d.credits ∧ lot.isStale now = true ∧ lot.settledAt = none ∧
      ∃ a ∈ assignConsumptionFIFO lots (computeConsumption lots balance), a.lot = lot ∧
        d.credits ≤ lot.amount - a.consumedAssigned := by
  unfold processHolder at member
  split at member
  · cases member
  · split at member
    · cases member
    · obtain ⟨a, among, named, pos, bounded, stale, unsettled⟩ := sweepLots_debit member
      exact ⟨a.lot, (assignFrom_bounded among).1, named, pos, stale, unsettled, a, among, rfl, bounded⟩

theorem processHolder_debitIds :
    ((processHolder now lots balance).debits.map (·.lotId)).Sublist (lots.map (·.id)) := by
  unfold processHolder
  split
  · exact List.nil_sublist _
  · split
    · exact List.nil_sublist _
    · have whole : lots.map (·.id) =
          (assignFrom (max 0 (computeConsumption lots balance)) lots).map (·.lot.id) := by
        conv_lhs => rw [← assignFrom_lots lots (max 0 (computeConsumption lots balance)), List.map_map]
        rfl
      rw [whole]
      exact sweepLots_debitIds

/-- The stamps after a sweep: a debited lot is settled, and a settled one keeps its stamp. -/
theorem processHolder_settled {lot : CreditLot} (member : lot ∈ (processHolder now lots balance).lots) :
    ∃ before ∈ lots, lot.id = before.id ∧ lot.amount = before.amount ∧ lot.expiresAt = before.expiresAt ∧
      (before.settledAt.isSome = true → lot.settledAt = before.settledAt) ∧
      (lot.settledAt.isSome = true → before.settledAt.isSome = true ∨ before.isStale now = true) ∧
      (∀ d ∈ (processHolder now lots balance).debits, d.lotId = before.id → before.isStale now = true →
        lot.settledAt.isSome = true) := by
  unfold processHolder at member ⊢
  split at member
  · rename_i broke
    simp only [if_pos broke]
    exact ⟨lot, member, rfl, rfl, rfl, fun _ => rfl, Or.inl, by simp⟩
  · rename_i solvent
    simp only [if_neg solvent]
    split at member
    · rename_i empty
      simp only [if_pos empty]
      exact ⟨lot, member, rfl, rfl, rfl, fun _ => rfl, Or.inl, by simp⟩
    · rename_i some
      simp only [if_neg some]
      rw [sweepLots_lots] at member
      obtain ⟨a, among, rfl⟩ := List.mem_map.mp member
      refine ⟨a.lot, (assignFrom_bounded among).1, updated_id, updated_amount, updated_expiresAt,
        fun settled => updated_settledAt settled, fun settled => ?_, fun _ _ _ stale => ?_⟩
      · rw [updated_settled, Bool.or_eq_true] at settled
        exact settled
      · rw [updated_settled, stale, Bool.or_true]

end Swept

/-! ### A second sweep at the same time -/

section Again
variable {now : Time} {lots : List CreditLot} {consumption balance : ℚ}

theorem sweepLots_unchanged {assigned : List AssignedCreditLot} (same : ∀ a ∈ assigned, a.updated now = a.lot)
    (free : ∀ a ∈ assigned, ∀ b, a.debit now b = 0) :
    sweepLots now assigned balance = ⟨assigned.map (·.lot), balance, []⟩ := by
  induction assigned generalizing balance with
  | nil => rfl
  | cons a rest ih =>
    have none := free a List.mem_cons_self balance
    have later := fun b member => same b (List.mem_cons_of_mem _ member)
    simp only [sweepLots, none, sub_zero, lt_self_iff_false, ↓reduceIte, List.map_cons, same a List.mem_cons_self]
    rw [ih later fun b member => free b (List.mem_cons_of_mem _ member)]

theorem retired_unchanged {a : AssignedCreditLot} (bounded : a.consumedAssigned ≤ a.lot.amount)
    (stale : a.lot.isStale now = true) (settled : a.lot.settledAt.isSome = true)
    (consumed : a.lot.consumedAssigned = a.lot.amount) : a.updated now = a.lot ∧ ∀ b, a.debit now b = 0 := by
  refine ⟨updated_same ((final_stale stale bounded).trans consumed.symm) fun _ => settled, fun b => ?_⟩
  by_contra debited
  obtain ⟨_, unsettled, _⟩ := debit_pos (lt_of_le_of_ne debit_nonneg (Ne.symm debited))
  rw [unsettled] at settled
  cases settled

theorem final_live {a : AssignedCreditLot} (live : a.lot.isStale now = false) :
    a.finalConsumedAssigned now = a.consumedAssigned := by
  simp [AssignedCreditLot.finalConsumedAssigned, AssignedCreditLot.expires, AssignedCreditLot.consumed, live]

theorem live_reassigned (live : ∀ lot ∈ lots, lot.isStale now = false) {a : AssignedCreditLot}
    (member : a ∈ assignFrom consumption ((assignFrom consumption lots).map (·.updated now))) :
    a.consumedAssigned = a.lot.consumedAssigned ∧ a.lot.isStale now = false := by
  induction lots generalizing consumption with
  | nil => cases member
  | cons lot rest ih =>
    simp only [assignFrom, List.map_cons, updated_amount] at member
    rcases List.mem_cons.mp member with rfl | member
    · have current := live lot List.mem_cons_self
      refine ⟨?_, by rw [updated_isStale]; exact current⟩
      rw [updated_consumed, final_live current]
    · exact ih (fun other among => live other (List.mem_cons_of_mem _ among)) member

end Again

section Sorted
variable {now : Time} {lots : List CreditLot} {balance : ℚ}

/-- Lots that have not expired. -/
def liveTotal (now : Time) (lots : List CreditLot) : ℚ := totalGranted (lots.filter fun lot => !lot.isStale now)

theorem due_first (sorted : lots.Pairwise fun a b => a.expiresAt ≤ b.expiresAt) :
    lots = lots.filter (·.isStale now) ++ lots.filter fun lot => !lot.isStale now := by
  induction lots with
  | nil => rfl
  | cons lot rest ih =>
    obtain ⟨head, tail⟩ := List.pairwise_cons.mp sorted
    by_cases stale : lot.isStale now = true
    · rw [List.filter_cons_of_pos stale, List.filter_cons_of_neg (by simp [stale]), List.cons_append, ← ih tail]
    · have live : ∀ other ∈ lot :: rest, ¬ other.isStale now = true := by
        intro other member due
        simp only [CreditLot.isStale, decide_eq_true_eq] at stale due
        rcases List.mem_cons.mp member with rfl | member
        · exact stale due
        · exact stale (le_trans (head other member) due)
      rw [List.filter_eq_nil_iff.mpr live, List.filter_eq_self.mpr (by simpa using live), List.nil_append]

variable (sorted : lots.Pairwise fun a b => a.expiresAt ≤ b.expiresAt) (amounts : ∀ lot ∈ lots, 0 ≤ lot.amount)
include sorted amounts

/-- A sweep in two parts: the lots that are due, which leave the balance no lower than the live lots
or untouched, and the live lots, which do not change it. -/
theorem processHolder_parts (solvent : 0 < balance) (some : lots ≠ []) :
    ∃ due live : List CreditLot, ∃ c c' : ℚ, lots = due ++ live ∧ (∀ lot ∈ due, lot.isStale now = true) ∧
      (∀ lot ∈ live, lot.isStale now = false) ∧ live = (lots.filter fun lot => !lot.isStale now) ∧
      c = computeConsumption lots balance ∧ c' = max 0 (c - totalGranted due) ∧
      (processHolder now lots balance).lots =
        (assignFrom c due).map (·.updated now) ++ (assignFrom c' live).map (·.updated now) ∧
      totalGranted live ≤ (processHolder now lots balance).remainingBalance + c' ∧
      ((processHolder now lots balance).remainingBalance = balance ∧ (processHolder now lots balance).debits = [] ∨
        c' = 0) := by
  obtain ⟨due, isDue⟩ : ∃ due, due = lots.filter (·.isStale now) := ⟨_, rfl⟩
  obtain ⟨live, isLive⟩ : ∃ live, live = lots.filter fun lot => !lot.isStale now := ⟨_, rfl⟩
  have split : lots = due ++ live := by
    rw [isDue, isLive]
    exact due_first sorted
  have nonneg := (computeConsumption_nonneg : 0 ≤ computeConsumption lots balance)
  have dueAmounts : ∀ lot ∈ due, 0 ≤ lot.amount := fun lot member => amounts lot (by rw [split]; simp [member])
  have stale : ∀ lot ∈ due, lot.isStale now = true := by
    intro lot member
    rw [isDue] at member
    exact (List.mem_filter.mp member).2
  have current : ∀ lot ∈ live, lot.isStale now = false := by
    intro lot member
    rw [isLive] at member
    simpa using (List.mem_filter.mp member).2
  have rest := unassigned_eq dueAmounts nonneg
  have covered : totalGranted due + totalGranted live ≤ balance + computeConsumption lots balance := by
    rw [← totalGranted_append, ← split]
    have most := le_max_right 0 (totalGranted lots - balance)
    unfold computeConsumption
    linarith
  obtain ⟨floor, spent⟩ := sweepLots_due now dueAmounts nonneg covered
  have walked : processHolder now lots balance = sweepLots now (assignFrom (computeConsumption lots balance) due ++
      assignFrom (unassigned (computeConsumption lots balance) due) live) balance := by
    unfold processHolder
    rw [if_neg (not_le.mpr solvent), if_neg some, assignConsumptionFIFO, max_eq_right nonneg, ← assignFrom_append, ← split]
  have liveAssigned : ∀ a ∈ assignFrom (unassigned (computeConsumption lots balance) due) live, a.lot.isStale now = false :=
    fun a member => current a.lot (assignFrom_bounded member).1
  have quiet := fun b : ℚ => @sweepLots_live now b _ liveAssigned
  refine ⟨due, live, computeConsumption lots balance, _, split, stale, current, isLive, rfl, rest, ?_, ?_, ?_⟩
  · rw [walked, sweepLots_append, sweepLots_lots, sweepLots_lots]
  · rw [walked, sweepLots_append, (quiet _).1]
    exact floor
  · rw [walked, sweepLots_append, (quiet _).1, (quiet _).2, List.append_nil]
    exact spent

/-- A sweep takes the balance no lower than the live lots, or leaves it alone. -/
theorem processHolder_floor : min balance (liveTotal now lots) ≤ (processHolder now lots balance).remainingBalance := by
  by_cases solvent : 0 < balance
  · by_cases some : lots = []
    · rw [processHolder, if_neg (not_le.mpr solvent), if_pos some]
      exact min_le_left _ _
    · obtain ⟨due, live, c, c', _, _, _, isLive, _, _, _, floor, spent⟩ := processHolder_parts sorted amounts solvent some
      rcases spent with ⟨kept, _⟩ | none
      · rw [kept]
        exact min_le_left _ _
      · refine le_trans (min_le_right _ _) ?_
        rw [none, add_zero, isLive] at floor
        exact floor
  · rw [processHolder, if_pos (not_lt.mp solvent)]
    exact min_le_left _ _

/-- A second sweep at the same time finds nothing to expire and no lot to rewrite. -/
theorem processHolder_again :
    processHolder now (processHolder now lots balance).lots (processHolder now lots balance).remainingBalance =
      ⟨(processHolder now lots balance).lots, (processHolder now lots balance).remainingBalance, []⟩ := by
  by_cases solvent : 0 < balance
  · by_cases empty : lots = []
    · simp [processHolder, not_le.mpr solvent, empty]
    · obtain ⟨due, live, c, c', split, stale, current, _, isC, isC', left, floor, spent⟩ :=
        processHolder_parts sorted amounts solvent empty
      have sameTotal : totalGranted (processHolder now lots balance).lots = totalGranted lots := by
        unfold totalGranted
        rw [processHolder_lots _ fun a => updated_amount]
      have dueAmounts : ∀ lot ∈ due, 0 ≤ lot.amount := fun lot member => amounts lot (by rw [split]; simp [member])
      generalize (processHolder now lots balance).remainingBalance = balance' at floor spent ⊢
      generalize (processHolder now lots balance).lots = lots' at left sameTotal ⊢
      obtain ⟨retired, isRetired⟩ : ∃ retired, retired = (assignFrom c due).map (·.updated now) := ⟨_, rfl⟩
      obtain ⟨kept, isKept⟩ : ∃ kept, kept = (assignFrom c' live).map (·.updated now) := ⟨_, rfl⟩
      rw [← isRetired, ← isKept] at left
      unfold processHolder
      split
      · rfl
      · split
        · rfl
        · have retiredLot : ∀ lot ∈ retired, 0 ≤ lot.amount ∧ lot.isStale now = true ∧ lot.settledAt.isSome = true ∧
              lot.consumedAssigned = lot.amount := by
            intro lot member
            rw [isRetired] at member
            obtain ⟨a, among, rfl⟩ := List.mem_map.mp member
            obtain ⟨inDue, bounded⟩ := assignFrom_bounded among
            have due := stale a.lot inDue
            refine ⟨by rw [updated_amount]; exact dueAmounts a.lot inDue, by rw [updated_isStale]; exact due, ?_, ?_⟩
            · rw [updated_settled, due, Bool.or_true]
            · rw [updated_consumed, updated_amount, final_stale due bounded]
          have retiredTotal : totalGranted retired = totalGranted due := by
            rw [isRetired]
            conv_rhs => rw [← assignFrom_lots due c]
            simp [totalGranted, Function.comp_def]
          -- What is left for the live lots is what was left for them before.
          have sameLeft : unassigned (computeConsumption lots' balance') retired = c' := by
            rw [unassigned_eq (fun lot member => (retiredLot lot member).1) computeConsumption_nonneg, retiredTotal]
            unfold computeConsumption
            rw [sameTotal]
            rcases spent with ⟨same, _⟩ | none
            · rw [same, isC', isC]
              rfl
            · rw [none]
              have total : totalGranted lots = totalGranted due + totalGranted live := by rw [← totalGranted_append, ← split]
              have due := totalGranted_nonneg dueAmounts
              refine max_eq_left (sub_nonpos.mpr (max_le due ?_))
              linarith
          rw [assignConsumptionFIFO, max_eq_right computeConsumption_nonneg]
          obtain ⟨consumption', isConsumption⟩ : ∃ consumption', consumption' = computeConsumption lots' balance' := ⟨_, rfl⟩
          rw [← isConsumption] at sameLeft ⊢
          rw [left, assignFrom_append, sameLeft]
          have fixed : ∀ a ∈ assignFrom consumption' retired ++ assignFrom c' kept,
              a.updated now = a.lot ∧ ∀ b, a.debit now b = 0 := by
            intro a member
            rcases List.mem_append.mp member with due | live
            · obtain ⟨among, bounded⟩ := assignFrom_bounded due
              obtain ⟨_, stale, settled, consumed⟩ := retiredLot a.lot among
              exact retired_unchanged bounded stale settled consumed
            · rw [isKept] at live
              obtain ⟨same, fresh⟩ := live_reassigned current live
              exact ⟨updated_same ((final_live fresh).trans same) (by simp [fresh]), fun b => debit_live fresh⟩
          rw [sweepLots_unchanged (fun a member => (fixed a member).1) fun a member => (fixed a member).2, List.map_append,
            assignFrom_lots, assignFrom_lots]
  · simp [processHolder, not_lt.mp solvent]

end Sorted
/-! ### Histories of one holder -/

namespace LotBook

def sweep (book : LotBook) (now : Time) (balance : ℚ) : LotBook where
  lots := (processHolder now book.lots balance).lots
  sorted := by
    have same : (processHolder now book.lots balance).lots.map (·.expiresAt) = book.lots.map (·.expiresAt) :=
      processHolder_lots _ fun a => updated_expiresAt
    have before : (book.lots.map (·.expiresAt)).Pairwise (· ≤ ·) := List.pairwise_map.mpr book.sorted
    rw [← same] at before
    exact List.pairwise_map.mp before
  amounts lot member := by
    obtain ⟨before, among, _, amount, _⟩ := processHolder_settled member
    rw [amount]
    exact book.amounts before among
  distinct := by
    rw [processHolder_lots _ fun a => updated_id]
    exact book.distinct

end LotBook

@[ext] structure LotHolder where
  currentCredits : ℚ
  book : LotBook
  clock : Time
  /-- Every `credit_expiry` deduction so far. -/
  debits : List LotDebit := []

inductive LotStep where
  -- A new lot and the same increase of the balance.
  | grant (id : Nat) (source : String) (amount : ℚ) (expiresAt : Time)
  -- A charge, a refund or any other change of the balance alone.
  | adjust (credits : ℚ)
  | sweep (now : Time)

namespace LotHolder

def swept (h : LotHolder) (now : Time) : LotHolder where
  currentCredits := (processHolder now h.book.lots h.currentCredits).remainingBalance
  book := h.book.sweep now h.currentCredits
  clock := now
  debits := (processHolder now h.book.lots h.currentCredits).debits ++ h.debits

def step (h : LotHolder) : LotStep → Option LotHolder
  | .grant id source amount expiresAt =>
    if legal : 0 ≤ amount ∧ id ∉ h.book.lots.map (·.id) then
      some { h with
        currentCredits := h.currentCredits + amount
        book := h.book.insert ⟨id, source, amount, expiresAt, 0, none⟩ legal.1 legal.2 }
    else none
  | .adjust credits => some { h with currentCredits := h.currentCredits + credits }
  | .sweep now => if h.clock ≤ now then some (h.swept now) else none

def run (h : LotHolder) : List LotStep → Option LotHolder
  | [] => some h
  | s :: rest => (h.step s).bind fun h' => h'.run rest

/-- Lots settled by now were due, and only they have been debited, once each and within their amounts. -/
structure Accounted (h : LotHolder) : Prop where
  due : ∀ lot ∈ h.book.lots, lot.settledAt.isSome = true → lot.expiresAt ≤ h.clock
  once : (h.debits.map (·.lotId)).Nodup
  within : ∀ d ∈ h.debits, ∃ lot ∈ h.book.lots, lot.id = d.lotId ∧ lot.settledAt.isSome = true ∧ d.credits ≤ lot.amount

variable {h h' : LotHolder} {now : Time}

theorem debited_lot {d : LotDebit} (member : d ∈ (processHolder now h.book.lots h.currentCredits).debits) :
    ∃ before ∈ h.book.lots, before.id = d.lotId ∧ before.settledAt = none ∧
      ∃ lot ∈ (h.book.sweep now h.currentCredits).lots, lot.id = d.lotId ∧ lot.settledAt.isSome = true ∧
        d.credits ≤ lot.amount := by
  obtain ⟨before, among, named, _, stale, unsettled, a, assigned, same, bounded⟩ := processHolder_debit member
  have listed : before.id ∈ (h.book.sweep now h.currentCredits).lots.map (·.id) := by
    rw [show (h.book.sweep now h.currentCredits).lots.map (·.id) = h.book.lots.map (·.id) from
      processHolder_lots _ fun a => updated_id]
    exact List.mem_map_of_mem among
  obtain ⟨lot, found, sameId⟩ := List.mem_map.mp listed
  obtain ⟨before', among', id, amount, _, _, _, stamped⟩ := processHolder_settled found
  have one : before' = before := List.inj_on_of_nodup_map h.book.distinct among' among (id.symm.trans sameId)
  subst one
  refine ⟨before', among, named.symm, unsettled, lot, found, sameId.trans named.symm, stamped d member named stale, ?_⟩
  rw [amount]
  have taken : 0 ≤ a.consumedAssigned := assignFrom_nonneg h.book.amounts (le_max_left 0 _) assigned
  linarith

theorem step_accounted {s : LotStep} (accounted : h.Accounted) (stepped : h.step s = some h') : h'.Accounted := by
  cases s with
  | adjust credits =>
    cases stepped
    exact ⟨accounted.due, accounted.once, accounted.within⟩
  | grant id source amount expiresAt =>
    simp only [step] at stepped
    split at stepped
    · rename_i legal
      cases stepped
      refine ⟨fun lot member settled => ?_, accounted.once, fun d member => ?_⟩
      · rcases List.mem_cons.mp (insertLot_perm.mem_iff.mp member) with rfl | member
        · cases settled
        · exact accounted.due lot member settled
      · obtain ⟨lot, among, facts⟩ := accounted.within d member
        exact ⟨lot, insertLot_perm.mem_iff.mpr (List.mem_cons_of_mem _ among), facts⟩
    · cases stepped
  | sweep now =>
    simp only [step] at stepped
    split at stepped
    · rename_i later
      cases stepped
      refine ⟨fun lot member settled => ?_, ?_, fun d member => ?_⟩
      · obtain ⟨before, among, _, _, expires, _, stamped, _⟩ := processHolder_settled member
        rw [expires]
        rcases stamped settled with settled | stale
        · exact le_trans (accounted.due before among settled) later
        · exact of_decide_eq_true stale
      · have sweptOnce : ((processHolder now h.book.lots h.currentCredits).debits.map (·.lotId)).Nodup :=
          processHolder_debitIds.nodup h.book.distinct
        simp only [swept, List.map_append]
        refine List.nodup_append.mpr ⟨sweptOnce, accounted.once, ?_⟩
        rintro id new _ old rfl
        obtain ⟨d, member, rfl⟩ := List.mem_map.mp new
        obtain ⟨earlier, debited, same⟩ := List.mem_map.mp old
        obtain ⟨before, among, named, unsettled, _⟩ := debited_lot member
        obtain ⟨settled, among', named', stamped, _⟩ := accounted.within earlier debited
        have one : settled = before :=
          List.inj_on_of_nodup_map h.book.distinct among' among (named'.trans (same.trans named.symm))
        rw [one, unsettled] at stamped
        cases stamped
      · rcases List.mem_append.mp member with new | old
        · obtain ⟨_, _, _, _, lot, found, facts⟩ := debited_lot new
          exact ⟨lot, found, facts⟩
        · obtain ⟨before, among, named, settled, within⟩ := accounted.within d old
          have listed : before.id ∈ (h.book.sweep now h.currentCredits).lots.map (·.id) := by
            rw [show (h.book.sweep now h.currentCredits).lots.map (·.id) = h.book.lots.map (·.id) from
              processHolder_lots _ fun a => updated_id]
            exact List.mem_map_of_mem among
          obtain ⟨lot, found, sameId⟩ := List.mem_map.mp listed
          obtain ⟨before', among', id, amount, _, kept, _, _⟩ := processHolder_settled found
          have one : before' = before := List.inj_on_of_nodup_map h.book.distinct among' among (id.symm.trans sameId)
          subst one
          refine ⟨lot, found, sameId.trans named, ?_, by rw [amount]; exact within⟩
          rw [kept settled]
          exact settled
    · cases stepped

theorem run_accounted {steps : List LotStep} (accounted : h.Accounted) (ran : h.run steps = some h') : h'.Accounted := by
  induction steps generalizing h with
  | nil =>
    cases ran
    exact accounted
  | cons s rest ih =>
    obtain ⟨mid, stepped, ran⟩ := Option.bind_eq_some_iff.mp ran
    exact ih (step_accounted accounted stepped) ran

/-- What holds of a holder and of the next sweep of it. -/
structure NeverOverCollects (h : LotHolder) (now : Time) : Prop where
  solvent : 0 ≤ h.currentCredits → 0 ≤ (h.swept now).currentCredits
  indebted : h.currentCredits < 0 → (h.swept now).currentCredits = h.currentCredits
  floor : min h.currentCredits (liveTotal now h.book.lots) ≤ (h.swept now).currentCredits
  once : ((h.swept now).debits.map (·.lotId)).Nodup
  within : ∀ d ∈ (h.swept now).debits, ∃ lot ∈ (h.swept now).book.lots, lot.id = d.lotId ∧ d.credits ≤ lot.amount
  settled : ∀ lot ∈ h.book.lots, lot.settledAt.isSome = true →
    ∀ d ∈ (processHolder now h.book.lots h.currentCredits).debits, d.lotId ≠ lot.id
  again : (h.swept now).swept now = h.swept now

end LotHolder

/-- At every point of a history that starts with no lot settled, and for any sweep that may come next. -/
theorem lot_expiry_never_over_collects {start h : LotHolder} {steps : List LotStep} {now : Time}
    (unsettled : ∀ lot ∈ start.book.lots, lot.settledAt = none) (undebited : start.debits = [])
    (ran : start.run steps = some h) (later : h.clock ≤ now) : h.NeverOverCollects now := by
  have first : start.Accounted := by
    refine ⟨fun lot member settled => ?_, by simp [undebited], by simp [undebited]⟩
    rw [unsettled lot member] at settled
    cases settled
  have accounted := LotHolder.run_accounted first ran
  have next := LotHolder.step_accounted (s := .sweep now) accounted (if_pos later)
  refine ⟨fun solvent => ?_, fun indebted => ?_, processHolder_floor h.book.sorted h.book.amounts, next.once, ?_, ?_, ?_⟩
  · exact processHolder_solvent solvent
  · simp [LotHolder.swept, processHolder, le_of_lt indebted]
  · intro d member
    obtain ⟨lot, among, named, _, within⟩ := next.within d member
    exact ⟨lot, among, named, within⟩
  · intro lot member settled d debited same
    obtain ⟨before, among, named, unsettled, _⟩ := LotHolder.debited_lot debited
    have one : before = lot := List.inj_on_of_nodup_map h.book.distinct among member (named.trans same)
    rw [one] at unsettled
    rw [unsettled] at settled
    cases settled
  · have again : processHolder now (h.swept now).book.lots (h.swept now).currentCredits =
        ⟨(h.swept now).book.lots, (h.swept now).currentCredits, []⟩ := processHolder_again h.book.sorted h.book.amounts
    refine LotHolder.ext ?_ (LotBook.ext ?_) rfl ?_
    · show (processHolder now (h.swept now).book.lots (h.swept now).currentCredits).remainingBalance = _
      rw [again]
    · show (processHolder now (h.swept now).book.lots (h.swept now).currentCredits).lots = _
      rw [again]
    · show (processHolder now (h.swept now).book.lots (h.swept now).currentCredits).debits ++ (h.swept now).debits = _
      rw [again, List.nil_append]

namespace Refunded

def start : LotHolder := ⟨10, ⟨[], by simp, by simp, by simp⟩, 0, []⟩

/-- Two lots, a charge, a sweep once the first is due, and a refund after it. -/
def history : List LotStep :=
  [.grant 1 "promo" 50 90, .grant 2 "pack" 100 365, .adjust (-40), .sweep 100, .adjust 40]

end Refunded

/-- The refund does not reopen the lot that expired: of its 50 credits, 20 were left to expire. -/
theorem refunded_holder : ∃ h, Refunded.start.run Refunded.history = some h ∧ h.debits = [⟨1, 20⟩] ∧
    h.currentCredits = 140 ∧ h.NeverOverCollects 200 := by
  have reached : (Refunded.start.run Refunded.history).map (fun h => (h.debits, h.currentCredits, h.clock)) =
      some ([⟨1, 20⟩], 140, 100) := by decide +kernel
  obtain ⟨h, ran, seen⟩ := Option.map_eq_some_iff.mp reached
  obtain ⟨debits, credits, clock⟩ : h.debits = [⟨1, 20⟩] ∧ h.currentCredits = 140 ∧ h.clock = 100 := by simpa using seen
  exact ⟨h, ran, debits, credits, lot_expiry_never_over_collects (by simp [Refunded.start]) rfl ran (by rw [clock]; decide)⟩

end Bike4Mind.Credits
