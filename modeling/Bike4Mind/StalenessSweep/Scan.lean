import Mathlib.Data.List.Sort
import Mathlib.Data.Prod.Lex
import Mathlib.Order.WithBot

/-! The pages that a sweep over the active lakes reads, the stalest lakes first. -/

namespace Bike4Mind.StalenessSweep

/-- Milliseconds since the epoch. -/
abbrev Time := Int

/-- What a stamp field of a stored lake holds. -/
inductive Stamp where
  | missing
  | null
  | date (at_ : Time)
  deriving DecidableEq

-- The order that runs, whichever other one is imported.
scoped instance instPreorderTime : Preorder Time := Int.instLinearOrder.toPreorder

namespace Stamp

/-- `{ $eq: null }`, which a missing field meets too -/
def isNull : Stamp → Bool
  | date _ => false
  | _ => true

/-- `{ $gt: at }`, which compares dates with dates only -/
def isAfter (at_ : Time) : Stamp → Bool
  | date stampedAt => at_ < stampedAt
  | _ => false

/-- Where the value sorts: null and missing first, and alike. -/
def rank : Stamp → WithBot Time
  | date stampedAt => stampedAt
  | _ => ⊥

/-- `stamp ?? null` -/
def value : Stamp → Option Time
  | date stampedAt => some stampedAt
  | _ => none

end Stamp

/-- The sweeps that stamp the lakes they handle. -/
inductive StampField where
  | lastHealthCheckedAt
  | lastInconsistencyScanAt
  deriving DecidableEq

structure Lake (Id : Type) where
  id : Id
  active : Bool
  lastHealthCheckedAt : Stamp
  lastInconsistencyScanAt : Stamp
  deriving DecidableEq

structure Cursor (Id : Type) where
  stampedAt : Option Time
  id : Id
  deriving DecidableEq

variable {Id : Type} [LinearOrder Id]

namespace Lake

def stamp (lake : Lake Id) : StampField → Stamp
  | .lastHealthCheckedAt => lake.lastHealthCheckedAt
  | .lastInconsistencyScanAt => lake.lastInconsistencyScanAt

def setStamp (lake : Lake Id) (field : StampField) (stamp : Stamp) : Lake Id :=
  match field with
  | .lastHealthCheckedAt => { lake with lastHealthCheckedAt := stamp }
  | .lastInconsistencyScanAt => { lake with lastInconsistencyScanAt := stamp }

end Lake

/-- The order of `stalenessScanSort`. -/
def stalenessScanSort (field : StampField) (a b : Lake Id) : Bool :=
  (a.stamp field).rank < (b.stamp field).rank || ((a.stamp field).rank = (b.stamp field).rank && decide (a.id ≤ b.id))

def buildStalenessScanFilter (field : StampField) (cursor : Option (Cursor Id)) (excludeStampedAt : Time) (lake : Lake Id) : Bool :=
  lake.active && lake.stamp field ≠ .date excludeStampedAt &&
    match cursor with
    | none => true
    | some cursor =>
      match cursor.stampedAt with
      | none => ((lake.stamp field).isNull && decide (cursor.id < lake.id)) || ! (lake.stamp field).isNull
      | some stampedAt => (lake.stamp field).isAfter stampedAt || (lake.stamp field = .date stampedAt && decide (cursor.id < lake.id))

/-- `findDueForHealthCheck` and `findDueForInconsistencyScan` -/
def findDue (field : StampField) (lakes : List (Lake Id)) (cursor : Option (Cursor Id)) (limit : Nat) (excludeStampedAt : Time) :
    List (Lake Id) :=
  ((lakes.filter (buildStalenessScanFilter field cursor excludeStampedAt)).insertionSort (stalenessScanSort field · ·)).take limit

/-- `hasMoreDueForHealthCheck` and `hasMoreDueForInconsistencyScan` -/
def hasMoreDue (field : StampField) (lakes : List (Lake Id)) (cursor : Option (Cursor Id)) (excludeStampedAt : Time) : Bool :=
  ((lakes.filter (buildStalenessScanFilter field cursor excludeStampedAt)).insertionSort (stalenessScanSort field · ·)).head?.isSome

/-- `markHealthChecked` and `markInconsistencyScanned` -/
def mark (field : StampField) (lakes : List (Lake Id)) (id : Id) (at_ : Time) : List (Lake Id) :=
  lakes.map fun lake => if lake.id = id then lake.setStamp field (.date at_) else lake

/-- The position of a lake as it was read. -/
def cursorAt (field : StampField) (lake : Lake Id) : Cursor Id := ⟨(lake.stamp field).value, lake.id⟩

/-! ### Positions -/

/-- Where a lake stands in the order of the scan. -/
def position (field : StampField) (lake : Lake Id) : WithBot Time ×ₗ Id := toLex ((lake.stamp field).rank, lake.id)

def Cursor.position (cursor : Cursor Id) : WithBot Time ×ₗ Id := toLex (cursor.stampedAt.elim ⊥ (↑·), cursor.id)

/-- The lake stands behind the cursor. -/
def Behind (field : StampField) (cursor : Option (Cursor Id)) (lake : Lake Id) : Prop :=
  ∀ c ∈ cursor, c.position < position field lake

variable {field : StampField} {lake a b : Lake Id} {cursor : Option (Cursor Id)} {excludeStampedAt : Time}

omit [LinearOrder Id] in
theorem cursorAt_position : (cursorAt field lake).position = position field lake := by
  unfold cursorAt Cursor.position position
  cases lake.stamp field <;> rfl

theorem sort_iff : stalenessScanSort field a b = true ↔ position field a ≤ position field b := by
  unfold stalenessScanSort position
  rw [Prod.Lex.toLex_le_toLex, Bool.or_eq_true, Bool.and_eq_true, decide_eq_true_iff, decide_eq_true_iff, decide_eq_true_iff]

theorem filter_iff : buildStalenessScanFilter field cursor excludeStampedAt lake = true ↔
    lake.active = true ∧ lake.stamp field ≠ .date excludeStampedAt ∧ Behind field cursor lake := by
  unfold buildStalenessScanFilter Behind
  cases cursor with
  | none => simp
  | some cursor =>
    obtain ⟨stampedAt, id⟩ := cursor
    simp only [Bool.and_eq_true, decide_eq_true_eq, Option.mem_def, Option.some.injEq, forall_eq', and_assoc]
    refine and_congr_right fun _ => and_congr_right fun _ => ?_
    unfold Cursor.position position
    rw [Prod.Lex.toLex_lt_toLex]
    cases stampedAt with
    | none => cases lake.stamp field <;> simp [Stamp.isNull, Stamp.rank]
    | some stampedAt =>
      cases lake.stamp field with
      | date at_ => simp [Stamp.isAfter, Stamp.rank, @eq_comm _ at_]
      | _ => simp [Stamp.isAfter, Stamp.rank]

/-! ### One page -/

section Page
variable {lakes : List (Lake Id)} {limit : Nat}

/-- The lakes that a scan from the cursor finds, in order. -/
def due (field : StampField) (lakes : List (Lake Id)) (cursor : Option (Cursor Id)) (excludeStampedAt : Time) : List (Lake Id) :=
  (lakes.filter (buildStalenessScanFilter field cursor excludeStampedAt)).insertionSort (stalenessScanSort field · ·)

theorem mem_due : lake ∈ due field lakes cursor excludeStampedAt ↔
    lake ∈ lakes ∧ lake.active = true ∧ lake.stamp field ≠ .date excludeStampedAt ∧ Behind field cursor lake := by
  unfold due
  rw [List.mem_insertionSort, List.mem_filter, filter_iff]

theorem due_ids (distinct : (lakes.map (·.id)).Nodup) : ((due field lakes cursor excludeStampedAt).map (·.id)).Nodup := by
  have kept : ((lakes.filter (buildStalenessScanFilter field cursor excludeStampedAt)).map (·.id)).Nodup :=
    distinct.sublist (List.filter_sublist.map _)
  exact ((List.perm_insertionSort _ _).map _).nodup_iff.mpr kept

theorem due_ordered : (due field lakes cursor excludeStampedAt).Pairwise fun a b => position field a ≤ position field b := by
  have transitive : IsTrans (Lake Id) (stalenessScanSort field · ·) :=
    ⟨fun a b c first second => sort_iff.mpr ((sort_iff.mp first).trans (sort_iff.mp second))⟩
  have total : Std.Total fun a b : Lake Id => stalenessScanSort field a b = true :=
    ⟨fun a b => (le_total (position field a) (position field b)).imp sort_iff.mpr sort_iff.mpr⟩
  have sorted := List.pairwise_insertionSort (stalenessScanSort field · ·)
    (lakes.filter (buildStalenessScanFilter field cursor excludeStampedAt))
  exact sorted.imp fun earlier => sort_iff.mp earlier

theorem due_sorted (distinct : (lakes.map (·.id)).Nodup) :
    (due field lakes cursor excludeStampedAt).Pairwise fun a b => position field a < position field b := by
  have apart : (due field lakes cursor excludeStampedAt).Pairwise fun a b => a.id ≠ b.id :=
    List.pairwise_map.mp (due_ids distinct)
  refine due_ordered.imp₂ (fun a b ordered other => lt_of_le_of_ne ordered fun same => ?_) apart
  exact other (congrArg (fun at_ : WithBot Time ×ₗ Id => (ofLex at_).2) same)

/-- A list is what the scan finds when it is in order and has the lakes that qualify. -/
theorem due_unique {found : List (Lake Id)} (distinct : (lakes.map (·.id)).Nodup)
    (sorted : found.Pairwise fun a b => position field a < position field b)
    (same : ∀ lake, lake ∈ found ↔ lake ∈ lakes ∧ lake.active = true ∧ lake.stamp field ≠ .date excludeStampedAt ∧ Behind field cursor lake) :
    due field lakes cursor excludeStampedAt = found := by
  have irreflexive : Std.Irrefl fun a b : Lake Id => position field a < position field b := ⟨fun a => lt_irrefl _⟩
  refine (due_sorted distinct).eq_of_mem_iff sorted fun lake => ?_
  rw [mem_due, same]

theorem hasMoreDue_iff : hasMoreDue field lakes cursor excludeStampedAt = true ↔ due field lakes cursor excludeStampedAt ≠ [] := by
  unfold hasMoreDue due
  rw [List.isSome_head?]

end Page

end Bike4Mind.StalenessSweep
