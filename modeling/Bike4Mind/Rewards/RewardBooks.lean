import Mathlib.Algebra.BigOperators.Group.List.Basic
import Mathlib.Data.List.Nodup
import Mathlib.Tactic.Linarith
import Bike4Mind.Concurrency.History
import Bike4Mind.Rewards.RewardProtocol

/-! The day counters and the ledger against the history of draws, refunds, rows and credits. -/

namespace Bike4Mind.Rewards
open Concurrency

/-! ### Reading the history -/

/-- The amount of the newest draw under the id. -/
def drawnAmount : List Event → String → String → ℚ
  | [], _, _ => 0
  | .drawn key' id' amount :: earlier, key, id => if key' = key ∧ id' = id then amount else drawnAmount earlier key id
  | _ :: earlier, key, id => drawnAmount earlier key id

/-- The id was drawn on this counter and not refunded since. -/
def Standing : List Event → String → String → Prop
  | [], _, _ => False
  | .drawn key' id' _ :: earlier, key, id => (key' = key ∧ id' = id) ∨ Standing earlier key id
  | .refunded key' id' :: earlier, key, id => ¬ (key' = key ∧ id' = id) ∧ Standing earlier key id
  | _ :: earlier, key, id => Standing earlier key id

def committedRows : List Event → List LedgerRow
  | [] => []
  | .committed row :: earlier => row :: committedRows earlier
  | _ :: earlier => committedRows earlier

def creditedIds : List Event → List String
  | [] => []
  | .credited id :: earlier => id :: creditedIds earlier
  | _ :: earlier => creditedIds earlier

/-- The budget a run works with; a missing setting leaves none. -/
def dailyBudget (setting : Option PoolBudget) : ℚ := (setting.map (·.value)).getD 0

/-! ### The books -/

/-- A row is committed under a standing draw, and the draw of a row is not handed back. -/
def Backed : Event → List Event → Prop
  | .committed row, earlier => (row.metered = true → ∃ key, row.drawnOn = some key) ∧
      ∀ key, row.drawnOn = some key → Standing earlier key row.transactionId
  | .refunded key id, earlier => ∀ row ∈ committedRows earlier, row.drawnOn = some key → row.transactionId ≠ id
  | _, _ => True

structure Books (setting : Option PoolBudget) (w : World) : Prop where
  recorded : w.rows = committedRows w.log
  soleRow : (w.rows.map (·.transactionId)).Nodup
  soleCredit : (creditedIds w.log).Nodup
  credited : ∀ id ∈ creditedIds w.log, ∃ row ∈ w.rows, row.transactionId = id
  reserved : ∀ key id, id ∈ (w.counters key).reservedIds ↔ Standing w.log key id
  reservedOnce : ∀ key, (w.counters key).reservedIds.Nodup
  spent : ∀ key, (w.counters key).spent = ((w.counters key).reservedIds.map (drawnAmount w.log key)).sum
  capped : (∀ key id amount, .drawn key id amount ∈ w.log → amount ≤ dailyBudget setting) → ∀ key, (w.counters key).spent ≤ dailyBudget setting
  positive : ∀ key id amount, .drawn key id amount ∈ w.log → 0 < amount
  backed : Justified Backed w.log

theorem mem_committedRows {log : List Event} {row : LedgerRow} : row ∈ committedRows log ↔ .committed row ∈ log := by
  induction log with
  | nil => simp [committedRows]
  | cons e earlier ih => cases e <;> simp [committedRows, ih]

theorem drawnAmount_nonneg {log : List Event} {key id : String} (positive : ∀ key id amount, .drawn key id amount ∈ log → 0 < amount) :
    0 ≤ drawnAmount log key id := by
  induction log with
  | nil => exact le_refl _
  | cons e earlier ih =>
    have rest := ih fun key id amount before => positive key id amount (List.mem_cons_of_mem _ before)
    cases e with
    | drawn key' id' amount =>
      unfold drawnAmount
      split
      · exact (positive key' id' amount List.mem_cons_self).le
      · exact rest
    | _ => exact rest

theorem refund_spares {later earlier log : List Event} {row : LedgerRow} {key : String} (backed : Justified Backed log)
    (split : log = later ++ .committed row :: earlier) (drawnOn : row.drawnOn = some key) : .refunded key row.transactionId ∉ later := by
  intro handed
  obtain ⟨newest, older, apart⟩ := List.append_of_mem handed
  have whole : log = newest ++ .refunded key row.transactionId :: (older ++ .committed row :: earlier) := by
    rw [split, apart, List.append_assoc, List.cons_append]
  have kept : Backed (.refunded key row.transactionId) (older ++ .committed row :: earlier) := justified_at backed whole
  have before : row ∈ committedRows (older ++ .committed row :: earlier) :=
    mem_committedRows.mpr (List.mem_append_right older List.mem_cons_self)
  exact kept row before drawnOn rfl

theorem standing_after {later log : List Event} {key id : String} (standing : Standing log key id)
    (unrefunded : .refunded key id ∉ later) : Standing (later ++ log) key id := by
  induction later with
  | nil => exact standing
  | cons e later ih =>
    rw [List.mem_cons, not_or] at unrefunded
    have rest := ih unrefunded.2
    cases e with
    | drawn key' id' amount => exact Or.inr rest
    | refunded key' id' =>
      refine ⟨fun same => unrefunded.1 ?_, rest⟩
      rw [same.1, same.2]
    | committed row => exact rest
    | credited id' => exact rest

/-! ### What one operation does to the books -/

namespace World

def drawing (w : World) (h : Draw) : World :=
  (w.setCounter h.key { spent := (w.counters h.key).spent + h.amount, reservedIds := (w.counters h.key).reservedIds ++ [h.transactionId] }).record
    (.drawn h.key h.transactionId h.amount)

def returning (w : World) (h : Draw) : World :=
  (w.setCounter h.key {
    spent := (w.counters h.key).spent - h.amount
    reservedIds := (w.counters h.key).reservedIds.filter (· ≠ h.transactionId) }).record (.refunded h.key h.transactionId)

/-- The draw may be made. -/
structure Free (w : World) (budget : ℚ) (h : Draw) : Prop where
  fresh : h.transactionId ∉ (w.counters h.key).reservedIds
  room : (w.counters h.key).spent ≤ max 0 (budget - h.amount)

theorem reserve_cases (w : World) (budget : ℚ) (h : Draw) :
    (∃ r, w.reserve h.key h.transactionId h.amount budget = (some r, w) ∧ r.fresh = false) ∨
    (∃ r, w.reserve h.key h.transactionId h.amount budget = (some r, w.drawing h) ∧ w.Free budget h) ∨
    w.reserve h.key h.transactionId h.amount budget = (none, w) := by
  unfold reserve
  dsimp only
  split
  · exact Or.inl ⟨_, rfl, rfl⟩
  · rename_i fresh
    split
    · rename_i room
      exact Or.inr (Or.inl ⟨_, rfl, fresh, room⟩)
    · exact Or.inr (Or.inr rfl)

end World

/-- The draw is on its counter with its amount. -/
structure Owned (w : World) (h : Draw) : Prop where
  reserved : h.transactionId ∈ (w.counters h.key).reservedIds
  amount : drawnAmount w.log h.key h.transactionId = h.amount

/-- No row is written under the draw. -/
def Unspent (w : World) (h : Draw) : Prop := ∀ row ∈ w.rows, row.drawnOn = some h.key → row.transactionId ≠ h.transactionId

theorem World.refund_owned {w : World} {h : Draw} (owned : Owned w h) : w.refund h.key h.transactionId h.amount = w.returning h :=
  if_pos owned.reserved

section Books
variable {setting : Option PoolBudget} {w : World}

theorem Books.drawing {b : PoolBudget} {h : Draw} (books : Books (some b) w) (free : w.Free b.value h) (due : 0 < h.amount) :
    Books (some b) (w.drawing h) where
  recorded := books.recorded
  soleRow := books.soleRow
  soleCredit := books.soleCredit
  credited := books.credited
  reserved key id := by
    show id ∈ (Function.update w.counters h.key _ key).reservedIds ↔ (h.key = key ∧ h.transactionId = id) ∨ Standing w.log key id
    rw [← books.reserved]
    by_cases same : key = h.key
    · subst same
      simp [eq_comm, or_comm]
    · simp [same, Ne.symm same]
  reservedOnce key := by
    show (Function.update w.counters h.key _ key).reservedIds.Nodup
    by_cases same : key = h.key
    · subst same
      rw [Function.update_self]
      rw [← List.concat_eq_append]
      exact List.Nodup.concat free.fresh (books.reservedOnce h.key)
    · rw [Function.update_of_ne same]
      exact books.reservedOnce key
  spent key := by
    show (Function.update w.counters h.key _ key).spent = ((Function.update w.counters h.key _ key).reservedIds.map _).sum
    by_cases same : key = h.key
    · subst same
      rw [Function.update_self]
      have others : (w.counters h.key).reservedIds.map (drawnAmount (w.drawing h).log h.key) =
          (w.counters h.key).reservedIds.map (drawnAmount w.log h.key) := by
        refine List.map_congr_left fun id member => if_neg fun same => free.fresh ?_
        rw [same.2]
        exact member
      have own : drawnAmount (w.drawing h).log h.key h.transactionId = h.amount := if_pos ⟨rfl, rfl⟩
      rw [List.map_append, List.sum_append, others, List.map_singleton, List.sum_singleton, own, books.spent]
    · rw [Function.update_of_ne same]
      have others : (w.counters key).reservedIds.map (drawnAmount (w.drawing h).log key) =
          (w.counters key).reservedIds.map (drawnAmount w.log key) :=
        List.map_congr_left fun id _ => if_neg fun both => same both.1.symm
      rw [others]
      exact books.spent key
  capped within key := by
    have before : ∀ key, (w.counters key).spent ≤ b.value :=
      books.capped fun key id amount drawn => within key id amount (List.mem_cons_of_mem _ drawn)
    show (Function.update w.counters h.key _ key).spent ≤ b.value
    by_cases same : key = h.key
    · subst same
      rw [Function.update_self]
      have small : h.amount ≤ b.value := within h.key h.transactionId h.amount List.mem_cons_self
      have room : (w.counters h.key).spent ≤ b.value - h.amount := by
        rw [← max_eq_right (sub_nonneg.mpr small)]
        exact free.room
      show (w.counters h.key).spent + h.amount ≤ b.value
      linarith
    · rw [Function.update_of_ne same]
      exact before key
  positive key id amount drawn := by
    rcases List.mem_cons.mp drawn with same | before
    · cases same
      exact due
    · exact books.positive key id amount before
  backed := ⟨trivial, books.backed⟩

theorem Books.returning {h : Draw} (books : Books setting w) (owned : Owned w h) (unspent : Unspent w h) : Books setting (w.returning h) where
  recorded := books.recorded
  soleRow := books.soleRow
  soleCredit := books.soleCredit
  credited := books.credited
  reserved key id := by
    show id ∈ (Function.update w.counters h.key _ key).reservedIds ↔ ¬ (h.key = key ∧ h.transactionId = id) ∧ Standing w.log key id
    rw [← books.reserved]
    by_cases same : key = h.key
    · subst same
      rw [Function.update_self, List.mem_filter, decide_eq_true_eq, and_comm]
      exact and_congr_left fun _ => ⟨fun other both => other both.2.symm, fun other same => other ⟨rfl, same.symm⟩⟩
    · simp [same, Ne.symm same]
  reservedOnce key := by
    show (Function.update w.counters h.key _ key).reservedIds.Nodup
    by_cases same : key = h.key
    · subst same
      rw [Function.update_self]
      exact (books.reservedOnce h.key).filter _
    · rw [Function.update_of_ne same]
      exact books.reservedOnce key
  spent key := by
    show (Function.update w.counters h.key _ key).spent = ((Function.update w.counters h.key _ key).reservedIds.map (drawnAmount w.log key)).sum
    by_cases same : key = h.key
    · subst same
      rw [Function.update_self]
      have rest := List.sum_map_erase (drawnAmount w.log h.key) owned.reserved
      rw [(books.reservedOnce h.key).erase_eq_filter, owned.amount, ← books.spent] at rest
      have remaining : (w.counters h.key).reservedIds.filter (· ≠ h.transactionId) =
          (w.counters h.key).reservedIds.filter (· != h.transactionId) := List.filter_congr fun id _ => by rw [bne, beq_eq_decide, decide_not]
      rw [remaining]
      show (w.counters h.key).spent - h.amount = _
      linarith
    · rw [Function.update_of_ne same]
      exact books.spent key
  capped within key := by
    have before : ∀ key, (w.counters key).spent ≤ dailyBudget setting :=
      books.capped fun key id amount drawn => within key id amount (List.mem_cons_of_mem _ drawn)
    show (Function.update w.counters h.key _ key).spent ≤ dailyBudget setting
    by_cases same : key = h.key
    · subst same
      rw [Function.update_self]
      have given : 0 ≤ h.amount := by
        rw [← owned.amount]
        exact drawnAmount_nonneg books.positive
      show (w.counters h.key).spent - h.amount ≤ dailyBudget setting
      linarith [before h.key]
    · rw [Function.update_of_ne same]
      exact before key
  positive key id amount drawn := by
    rcases List.mem_cons.mp drawn with same | before
    · cases same
    · exact books.positive key id amount before
  backed := by
    refine ⟨fun row written drawnOn => ?_, books.backed⟩
    have recorded : w.rows = committedRows w.log := books.recorded
    exact unspent row (recorded ▸ written) drawnOn

/-- The row may be written now. -/
structure Writable (w : World) (row : LedgerRow) : Prop where
  unwritten : w.ledgerHas row.transactionId = false
  metered : row.metered = true → ∃ key, row.drawnOn = some key
  reserved : ∀ key, row.drawnOn = some key → row.transactionId ∈ (w.counters key).reservedIds

theorem ledgerHas_iff {id : String} : w.ledgerHas id = true ↔ ∃ row ∈ w.rows, row.transactionId = id := by
  simp [World.ledgerHas]

theorem Books.committing {row : LedgerRow} (books : Books setting w) (writable : Writable w row) : Books setting (w.commitRow row) where
  recorded := congrArg (row :: ·) books.recorded
  soleRow := by
    refine List.nodup_cons.mpr ⟨fun written => ?_, books.soleRow⟩
    have known : w.ledgerHas row.transactionId = true := ledgerHas_iff.mpr (List.mem_map.mp written)
    rw [writable.unwritten] at known
    exact absurd known (by decide)
  soleCredit := books.soleCredit
  credited id member := by
    obtain ⟨older, written, same⟩ := books.credited id member
    exact ⟨older, List.mem_cons_of_mem row written, same⟩
  reserved := books.reserved
  reservedOnce := books.reservedOnce
  spent := books.spent
  capped within := books.capped fun key id amount drawn => within key id amount (List.mem_cons_of_mem _ drawn)
  positive key id amount drawn := by
    rcases List.mem_cons.mp drawn with same | before
    · cases same
    · exact books.positive key id amount before
  backed := ⟨⟨writable.metered, fun key drawnOn => (books.reserved key _).mp (writable.reserved key drawnOn)⟩, books.backed⟩

theorem Books.crediting {id : String} (books : Books setting w) (written : w.ledgerHas id = true) (first : id ∉ creditedIds w.log) :
    Books setting (w.record (.credited id)) where
  recorded := books.recorded
  soleRow := books.soleRow
  soleCredit := List.nodup_cons.mpr ⟨first, books.soleCredit⟩
  credited other member := by
    rcases List.mem_cons.mp member with same | before
    · rw [same]
      exact ledgerHas_iff.mp written
    · exact books.credited other before
  reserved := books.reserved
  reservedOnce := books.reservedOnce
  spent := books.spent
  capped within := books.capped fun key id amount drawn => within key id amount (List.mem_cons_of_mem _ drawn)
  positive key id amount drawn := by
    rcases List.mem_cons.mp drawn with same | before
    · cases same
    · exact books.positive key id amount before
  backed := ⟨trivial, books.backed⟩

theorem Books.session {i : Nat} {session : Option Session} (books : Books setting w) : Books setting (w.setSession i session) :=
  ⟨books.recorded, books.soleRow, books.soleCredit, books.credited, books.reserved, books.reservedOnce, books.spent, books.capped,
    books.positive, books.backed⟩

end Books

end Bike4Mind.Rewards
