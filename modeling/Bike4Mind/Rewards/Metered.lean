import Bike4Mind.Rewards.RewardBooks

/-! Every free reward is paid at most once, within the day's budget, and under a draw that stays. -/

namespace Bike4Mind.Rewards
open Concurrency

structure Metered (setting : Option PoolBudget) (w : World) : Prop where
  recorded : w.rows = committedRows w.log
  soleRow : (w.rows.map (·.transactionId)).Nodup
  soleCredit : (creditedIds w.log).Nodup
  credited : ∀ id ∈ creditedIds w.log, ∃ row ∈ w.rows, row.transactionId = id
  reserved : ∀ key id, id ∈ (w.counters key).reservedIds ↔ Standing w.log key id
  reservedOnce : ∀ key, (w.counters key).reservedIds.Nodup
  spent : ∀ key, (w.counters key).spent = ((w.counters key).reservedIds.map (drawnAmount w.log key)).sum
  capped : (∀ key id amount, .drawn key id amount ∈ w.log → amount ≤ dailyBudget setting) → ∀ key, (w.counters key).spent ≤ dailyBudget setting
  metered : ∀ later row earlier, w.log = later ++ .committed row :: earlier → row.metered = true →
    ∃ key, row.drawnOn = some key ∧ Standing earlier key row.transactionId ∧ .refunded key row.transactionId ∉ later ∧
      row.transactionId ∈ (w.counters key).reservedIds

section Books
variable {setting : Option PoolBudget} {w : World}

theorem Books.metered (books : Books setting w) : Metered setting w where
  recorded := books.recorded
  soleRow := books.soleRow
  soleCredit := books.soleCredit
  credited := books.credited
  reserved := books.reserved
  reservedOnce := books.reservedOnce
  spent := books.spent
  capped := books.capped
  metered later row earlier split metered := by
    obtain ⟨drawn, standing⟩ : Backed (.committed row) earlier := justified_at books.backed split
    obtain ⟨key, drawnOn⟩ := drawn metered
    have unrefunded := refund_spares books.backed split drawnOn
    refine ⟨key, drawnOn, standing key drawnOn, unrefunded, (books.reserved key row.transactionId).mpr ?_⟩
    rw [split]
    exact standing_after (standing key drawnOn) unrefunded

theorem books_empty : Books setting .empty where
  recorded := rfl
  soleRow := List.nodup_nil
  soleCredit := List.nodup_nil
  credited id member := absurd member List.not_mem_nil
  reserved key id := by
    show id ∈ [] ↔ False
    simp
  reservedOnce key := List.nodup_nil
  spent key := rfl
  capped within key := by
    cases setting with
    | none => exact le_refl _
    | some b => exact b.nonneg
  positive key id amount drawn := absurd drawn List.not_mem_nil
  backed := trivial

end Books

/-! ### What a phase says of the store -/

def Phase.draw : Phase → Option Draw
  | .out d | .opened d | .buffered d _ | .completed d _ | .inserted d _ | .tried d => d
  | .pooled _ => none

/-- The row whose credit is due. -/
def Phase.due : Phase → Option String
  | .inserted _ id => some id
  | _ => none

/-- The draw is there to be handed back. -/
def Held (w : World) (d : Option Draw) : Prop := ∀ h, d = some h → Owned w h ∧ Unspent w h

/-- What the open transaction has written. -/
inductive Drafted (d : Option Draw) (id : String) : Session → Prop
  | nothing : Drafted d id {}
  | row {row : LedgerRow} : RowFor d row → row.transactionId = id → Drafted d id { rows := [row] }
  | credited {row : LedgerRow} : RowFor d row → row.transactionId = id → Drafted d id { rows := [row], credited := [id] }

def Standings (setting : Option PoolBudget) (w : World) (i : Nat) : Phase → Prop
  | .out d => w.sessions i = none ∧ Held w d
  | .pooled s => w.sessions i = none ∧ s = setting
  | .opened d => w.sessions i = some {} ∧ Held w d
  | .buffered d id => (∃ row, RowFor d row ∧ row.transactionId = id ∧ w.sessions i = some { rows := [row] }) ∧ Held w d
  | .completed d id => (∃ session, w.sessions i = some session ∧ Drafted d id session) ∧ Held w d
  | .inserted d id => w.sessions i = none ∧ (∀ h, d = some h → Owned w h) ∧ w.ledgerHas id = true ∧ id ∉ creditedIds w.log
  | .tried d => w.sessions i = none ∧ ∀ h, d = some h → Owned w h

/-- Two threads hold no draw on one counter under one id, and are not about to credit one row. -/
structure Apart (p q : Phase) : Prop where
  draw : ∀ h h', p.draw = some h → q.draw = some h' → h.key = h'.key → h.transactionId ≠ h'.transactionId
  due : ∀ id, p.due = some id → q.due ≠ some id

theorem Apart.symm {p q : Phase} (apart : Apart p q) : Apart q p where
  draw h h' mine theirs same equal := apart.draw h' h theirs mine same.symm equal.symm
  due id mine theirs := apart.due id theirs mine

structure Inv (setting : Option PoolBudget) (w : World) (ph : Nat → Phase) : Prop where
  books : Books setting w
  stands : ∀ i, Standings setting w i (ph i)
  apart : ∀ i j, i ≠ j → Apart (ph i) (ph j)

/-! ### What the others keep -/

/-- A step of one thread leaves the draw and the row of a phase of another one alone. -/
structure Spares (w w' : World) (p : Phase) : Prop where
  owned : ∀ h, p.draw = some h → Owned w h → Owned w' h
  unspent : ∀ h, p.draw = some h → Unspent w h → Unspent w' h
  due : ∀ id, p.due = some id → w.ledgerHas id = true → id ∉ creditedIds w.log → w'.ledgerHas id = true ∧ id ∉ creditedIds w'.log

theorem Spares.refl {w : World} {p : Phase} : Spares w w p := ⟨fun _ _ owned => owned, fun _ _ unspent => unspent, fun _ _ has uncredited => ⟨has, uncredited⟩⟩

section Frames
variable {setting : Option PoolBudget} {w w' : World} {i : Nat} {p : Phase} {ph : Nat → Phase}

theorem Spares.held (spares : Spares w w' p) (held : Held w p.draw) : Held w' p.draw :=
  fun h at_ => ⟨spares.owned h at_ (held h at_).1, spares.unspent h at_ (held h at_).2⟩

theorem Standings.frame (stands : Standings setting w i p) (same : w'.sessions i = w.sessions i) (spares : Spares w w' p) :
    Standings setting w' i p := by
  unfold Standings at stands ⊢
  rw [same]
  cases p with
  | out d => exact ⟨stands.1, spares.held stands.2⟩
  | pooled s => exact stands
  | opened d => exact ⟨stands.1, spares.held stands.2⟩
  | buffered d id => exact ⟨stands.1, spares.held stands.2⟩
  | completed d id => exact ⟨stands.1, spares.held stands.2⟩
  | inserted d id =>
    obtain ⟨closed, owned, has, uncredited⟩ := stands
    obtain ⟨has, uncredited⟩ := spares.due id rfl has uncredited
    exact ⟨closed, fun h at_ => spares.owned h at_ (owned h at_), has, uncredited⟩
  | tried d => exact ⟨stands.1, fun h at_ => spares.owned h at_ (stands.2 h at_)⟩

theorem Inv.advance {q : Phase} (inv : Inv setting w ph) (books : Books setting w') (mine : Standings setting w' i q)
    (elsewhere : ∀ j, j ≠ i → w'.sessions j = w.sessions j) (spares : ∀ j, j ≠ i → Spares w w' (ph j))
    (apart : ∀ j, j ≠ i → Apart q (ph j)) : Inv setting w' (Function.update ph i q) where
  books := books
  stands j := by
    by_cases own : j = i
    · subst own
      rw [Function.update_self]
      exact mine
    · rw [Function.update_of_ne own]
      exact (inv.stands j).frame (elsewhere j own) (spares j own)
  apart j k different := by
    by_cases own : j = i
    · subst own
      rw [Function.update_self, Function.update_of_ne (Ne.symm different)]
      exact apart k (Ne.symm different)
    · rw [Function.update_of_ne own]
      by_cases other : k = i
      · subst other
        rw [Function.update_self]
        exact (apart j own).symm
      · rw [Function.update_of_ne other]
        exact inv.apart j k different

/-- A phase that keeps its draw, or gives it up, and owes no credit stays apart from the others. -/
theorem Inv.keeps {q : Phase} (inv : Inv setting w ph) (draw : q.draw = none ∨ q.draw = (ph i).draw) (due : q.due = none) (j : Nat) (other : j ≠ i) :
    Apart q (ph j) where
  draw h h' mine theirs := by
    rcases draw with none_held | kept
    · rw [none_held] at mine
      cases mine
    · exact (inv.apart i j (Ne.symm other)).draw h h' (kept ▸ mine) theirs
  due id mine := by
    rw [due] at mine
    cases mine

end Frames

section Writes
variable {setting : Option PoolBudget} {w : World} {p : Phase} {d : Option Draw} {h : Draw} {i : Nat} {id : String}

theorem drawing_spares (fresh : h.transactionId ∉ (w.counters h.key).reservedIds) : Spares w (w.drawing h) p where
  owned h' _ owned := by
    constructor
    · show h'.transactionId ∈ (Function.update w.counters h.key _ h'.key).reservedIds
      by_cases same : h'.key = h.key
      · rw [same, Function.update_self]
        have before := owned.reserved
        rw [same] at before
        exact List.mem_append_left _ before
      · rw [Function.update_of_ne same]
        exact owned.reserved
    · refine (if_neg fun same => fresh ?_).trans owned.amount
      rw [same.1, same.2]
      exact owned.reserved
  unspent _ _ unspent := unspent
  due _ _ has uncredited := ⟨has, uncredited⟩

theorem drawing_owned : Owned (w.drawing h) h where
  reserved := by
    show h.transactionId ∈ (Function.update w.counters h.key _ h.key).reservedIds
    rw [Function.update_self]
    exact List.mem_append_right _ (List.mem_singleton_self _)
  amount := if_pos ⟨rfl, rfl⟩

theorem returning_spares (apart : ∀ h', p.draw = some h' → h.key = h'.key → h.transactionId ≠ h'.transactionId) :
    Spares w (w.returning h) p where
  owned h' at_ owned := by
    refine ⟨?_, owned.amount⟩
    show h'.transactionId ∈ (Function.update w.counters h.key _ h'.key).reservedIds
    by_cases same : h'.key = h.key
    · rw [same, Function.update_self, List.mem_filter, decide_eq_true_eq]
      have before := owned.reserved
      rw [same] at before
      exact ⟨before, (apart h' at_ same.symm).symm⟩
    · rw [Function.update_of_ne same]
      exact owned.reserved
  unspent _ _ unspent := unspent
  due _ _ has uncredited := ⟨has, uncredited⟩

theorem committing_spares {row : LedgerRow} (written : RowFor d row)
    (apart : ∀ h h', d = some h → p.draw = some h' → h.key = h'.key → h.transactionId ≠ h'.transactionId) : Spares w (w.commitRow row) p where
  owned _ _ owned := ⟨owned.reserved, owned.amount⟩
  unspent h' at_ unspent older member drawnOn := by
    rcases List.mem_cons.mp member with same | before
    · rw [same] at drawnOn ⊢
      cases d with
      | none =>
        rw [written.drawnOn] at drawnOn
        cases drawnOn
      | some h =>
        have key : h.key = h'.key := Option.some.inj (written.drawnOn.symm.trans drawnOn)
        rw [written.transactionId h rfl]
        exact apart h h' rfl at_ key
    · exact unspent older before drawnOn
  due id _ has uncredited := by
    obtain ⟨older, member, same⟩ := ledgerHas_iff.mp has
    exact ⟨ledgerHas_iff.mpr ⟨older, List.mem_cons_of_mem row member, same⟩, uncredited⟩

theorem crediting_spares (other : p.due ≠ some id) : Spares w (w.record (.credited id)) p where
  owned _ _ owned := ⟨owned.reserved, owned.amount⟩
  unspent _ _ unspent := unspent
  due id' at_ has uncredited := by
    refine ⟨has, fun member => ?_⟩
    rcases List.mem_cons.mp member with same | before
    · exact other (same ▸ at_)
    · exact uncredited before

theorem session_spares {session : Option Session} : Spares w (w.setSession i session) p :=
  ⟨fun _ _ owned => ⟨owned.reserved, owned.amount⟩, fun _ _ unspent => unspent, fun _ _ has uncredited => ⟨has, uncredited⟩⟩

theorem session_elsewhere {session : Option Session} (j : Nat) (other : j ≠ i) : (w.setSession i session).sessions j = w.sessions j :=
  Function.update_of_ne other ..

theorem session_own {session : Option Session} : (w.setSession i session).sessions i = session := Function.update_self ..

theorem writable_under {row : LedgerRow} (written : RowFor d row) (owned : ∀ h, d = some h → Owned w h)
    (unwritten : w.ledgerHas row.transactionId = false) : Writable w row where
  unwritten := unwritten
  metered metered := by
    cases d with
    | none => exact absurd (written.unmetered rfl) (by simp [metered])
    | some h => exact ⟨h.key, written.drawnOn⟩
  reserved key drawnOn := by
    rw [written.drawnOn] at drawnOn
    cases d with
    | none => cases drawnOn
    | some h =>
      cases drawnOn
      rw [written.transactionId h rfl]
      exact (owned h rfl).reserved

theorem due_written (stands : Standings setting w i p) (due : p.due = some id) : w.ledgerHas id = true ∧ id ∉ creditedIds w.log := by
  cases p with
  | inserted d id' =>
    cases due
    exact stands.2.2
  | _ => cases due

theorem unspent_unwritten (unwritten : w.ledgerHas h.transactionId = false) : Unspent w h := by
  intro row member _ same
  have has : w.ledgerHas h.transactionId = true := ledgerHas_iff.mpr ⟨row, member, same⟩
  rw [unwritten] at has
  exact absurd has (by decide)

end Writes

/-! ### What the calls do -/

/-- Not a boundary of a transaction. -/
def Op.plain : Op → Prop
  | beginTransaction | commitTransaction | abortTransaction => False
  | _ => True

section Calls
variable {setting : Option PoolBudget} {w w' : World} {i : Nat} {x : Choice} {op : Op}

/-- A call that rejects may have taken effect; one that resolves has. -/
theorem exec_settled {reply : Except RewardError op.Value} (executed : w.exec setting i op x = (reply, w')) (plain : op.plain) :
    (w' = w ∧ reply = .error FAILED) ∨
      w' = (w.perform setting i op x).2 ∧ (reply = .ok (w.perform setting i op x).1 ∨ reply = .error FAILED) := by
  have settled : (w.exec setting i op x).2 = w ∧ (w.exec setting i op x).1 = .error FAILED ∨
      (w.exec setting i op x).2 = (w.perform setting i op x).2 ∧
        ((w.exec setting i op x).1 = .ok (w.perform setting i op x).1 ∨ (w.exec setting i op x).1 = .error FAILED) := by
    cases fault : x.fault with
    | none => cases op <;> first | exact plain.elim | simp [World.exec, fault]
    | some f => cases f <;> cases op <;> first | exact plain.elim | simp [World.exec, fault]
  rw [executed] at settled
  exact settled

theorem exec_resolved {v : op.Value} (executed : w.exec setting i op x = (.ok v, w')) (plain : op.plain) :
    w' = (w.perform setting i op x).2 ∧ v = (w.perform setting i op x).1 := by
  rcases exec_settled executed plain with ⟨_, rejected⟩ | ⟨moved, resolved | rejected⟩
  · cases rejected
  · exact ⟨moved, Except.ok.inj resolved⟩
  · cases rejected

theorem Op.passive.plain (passive : op.passive) : op.plain := by
  cases op <;> first | exact passive.elim | trivial

theorem exec_passive {reply : Except RewardError op.Value} (passive : op.passive)
    (executed : w.exec setting i op x = (reply, w')) : w' = w := by
  have unmoved : (w.perform setting i op x).2 = w := by
    cases op <;> first | exact passive.elim | rfl
  rcases exec_settled executed passive.plain with ⟨same, _⟩ | ⟨moved, _⟩
  · exact same
  · rw [moved, unmoved]

end Calls

/-! ### One step of one thread -/

section Steps
variable {setting : Option PoolBudget} {w w' : World} {i : Nat} {x : Choice} {ph : Nat → Phase} {d : Option Draw}

theorem held_none : Held w none := fun _ impossible => nomatch impossible

theorem inv_same (inv : Inv setting w ph) {q : Phase} (mine : Standings setting w i q) (draw : q.draw = none ∨ q.draw = (ph i).draw)
    (due : q.due = none) : Inv setting w (Function.update ph i q) :=
  inv.advance inv.books mine (fun _ _ => rfl) (fun _ _ => .refl) (inv.keeps draw due)

theorem inv_forgets (inv : Inv setting w ph) (closed : Closed (ph i)) : Inv setting w (Function.update ph i (.out none)) := by
  refine inv_same inv ⟨?_, held_none⟩ (Or.inl rfl) rfl
  have before := inv.stands i
  cases at_ : ph i <;> rw [at_] at before closed
  case out => exact before.1
  case pooled => exact before.1
  case tried => exact before.1
  all_goals exact closed.elim

theorem stands_at {p : Phase} (inv : Inv setting w ph) (at_ : ph i = p) : Standings setting w i p := at_ ▸ inv.stands i

theorem inv_drawing {b : PoolBudget} {h : Draw} (inv : Inv (some b) w ph) (at_ : ph i = .pooled (some b)) (free : w.Free b.value h)
    (due : 0 < h.amount) (kept : d = none ∨ d = some h) : Inv (some b) (w.drawing h) (Function.update ph i (.out d)) := by
  have closed : w.sessions i = none := (stands_at inv at_).1
  have unspent : Unspent w h := by
    intro row written drawnOn same
    obtain ⟨later, earlier, split, backed⟩ := justified_member inv.books.backed (mem_committedRows.mp (inv.books.recorded ▸ written))
    have standing : Standing w.log h.key row.transactionId := by
      rw [split]
      exact standing_after (backed.2 h.key drawnOn) (refund_spares inv.books.backed split drawnOn)
    exact free.fresh (same ▸ (inv.books.reserved h.key row.transactionId).mpr standing)
  refine inv.advance (inv.books.drawing free due) ⟨closed, fun h' held => ?_⟩ (fun _ _ => rfl) (fun j _ => drawing_spares free.fresh) fun j other => ?_
  · rcases kept with rfl | rfl
    · cases held
    · cases held
      exact ⟨drawing_owned, unspent⟩
  · refine ⟨fun h₁ h₂ mine theirs same equal => ?_, fun id mine => nomatch mine⟩
    rcases kept with rfl | rfl
    · cases mine
    · cases mine
      refine free.fresh ?_
      have held : Owned w h₂ := by
        have before := inv.stands j
        cases shape : ph j <;> rw [shape] at before theirs
        case pooled => cases theirs
        case inserted => exact before.2.1 h₂ theirs
        case tried => exact before.2 h₂ theirs
        all_goals exact (before.2 h₂ theirs).1
      rw [same, equal]
      exact held.reserved

theorem inv_reserves {b : PoolBudget} {h : Draw} {reply : Except RewardError (Option BudgetReservation)} (inv : Inv setting w ph)
    (at_ : ph i = .pooled (some b)) (due : 0 < h.amount)
    (executed : w.exec setting i (.reserve h.key h.transactionId h.amount b.value) x = (reply, w')) :
    Inv setting w' (Function.update ph i (.out none)) := by
  obtain ⟨closed, rfl⟩ := stands_at inv at_
  have unmoved : Inv (some b) w (Function.update ph i (.out none)) := inv_same inv ⟨closed, held_none⟩ (Or.inl rfl) rfl
  rcases exec_settled executed trivial with ⟨rfl, _⟩ | ⟨rfl, _⟩
  · exact unmoved
  · show Inv (some b) (w.reserve h.key h.transactionId h.amount b.value).2 _
    rcases w.reserve_cases b.value h with ⟨r, known, _⟩ | ⟨r, drawn, free⟩ | full
    · rw [known]
      exact unmoved
    · rw [drawn]
      exact inv_drawing inv at_ free due (Or.inl rfl)
    · rw [full]
      exact unmoved

theorem inv_draws {b : PoolBudget} {h : Draw} {r : BudgetReservation} (inv : Inv setting w ph) (at_ : ph i = .pooled (some b))
    (due : 0 < h.amount) (fresh : r.fresh = true)
    (executed : w.exec setting i (.reserve h.key h.transactionId h.amount b.value) x = (.ok (some r), w')) :
    Inv setting w' (Function.update ph i (.out (some h))) := by
  obtain ⟨_, rfl⟩ := stands_at inv at_
  obtain ⟨rfl, answered⟩ := exec_resolved executed trivial
  have answered : some r = (w.reserve h.key h.transactionId h.amount b.value).1 := answered
  show Inv (some b) (w.reserve h.key h.transactionId h.amount b.value).2 _
  rcases w.reserve_cases b.value h with ⟨r', known, stale⟩ | ⟨r', drawn, free⟩ | full
  · rw [known] at answered
    cases answered
    rw [stale] at fresh
    cases fresh
  · rw [drawn]
    exact inv_drawing inv at_ free due (Or.inr rfl)
  · rw [full] at answered
    cases answered

theorem inv_refunds {h : Draw} {reply : Except RewardError Unit} (inv : Inv setting w ph) (at_ : ph i = .out (some h))
    (executed : w.exec setting i (.refund h.key h.transactionId h.amount) x = (reply, w')) :
    Inv setting w' (Function.update ph i (.out none)) := by
  obtain ⟨closed, held⟩ := stands_at inv at_
  obtain ⟨owned, unspent⟩ := held h rfl
  rcases exec_settled executed trivial with ⟨rfl, _⟩ | ⟨rfl, _⟩
  · exact inv_same inv ⟨closed, held_none⟩ (Or.inl rfl) rfl
  · show Inv setting (w.refund h.key h.transactionId h.amount) _
    rw [World.refund_owned owned]
    refine inv.advance (inv.books.returning owned unspent) ⟨closed, held_none⟩ (fun _ _ => rfl) (fun j other => ?_) (inv.keeps (Or.inl rfl) rfl)
    exact returning_spares fun h' theirs same => (inv.apart i j (Ne.symm other)).draw h h' (by rw [at_]; rfl) theirs same

theorem inv_session {q : Phase} {session : Option Session} (inv : Inv setting w ph) (mine : Standings setting (w.setSession i session) i q)
    (draw : q.draw = (ph i).draw) (due : q.due = none) : Inv setting (w.setSession i session) (Function.update ph i q) :=
  inv.advance inv.books.session mine session_elsewhere (fun _ _ => session_spares) (inv.keeps (Or.inr draw) due)

theorem held_session {session : Option Session} (held : Held w d) : Held (w.setSession i session) d :=
  fun h at_ => ⟨session_spares.owned (p := .out d) h at_ (held h at_).1, (held h at_).2⟩

theorem uncredited_unwritten {id : String} (inv : Inv setting w ph) (unwritten : w.ledgerHas id = false) : id ∉ creditedIds w.log := by
  intro member
  have has : w.ledgerHas id = true := ledgerHas_iff.mpr (inv.books.credited id member)
  rw [unwritten] at has
  cases has

theorem ledgerHas_committed {row : LedgerRow} : (w.commitRow row).ledgerHas row.transactionId = true :=
  ledgerHas_iff.mpr ⟨row, List.mem_cons_self, rfl⟩

theorem createTransaction_closed {row : LedgerRow} {rowId : String} (closed : w.sessions i = none) :
    w.createTransaction i row rowId = if w.ledgerHas row.transactionId then (none, w) else (some rowId, w.commitRow row) := by
  unfold World.createTransaction
  rw [closed]

theorem inv_inserting {row : LedgerRow} (inv : Inv setting w ph) (at_ : ph i = .out d) (written : RowFor d row)
    (unwritten : w.ledgerHas row.transactionId = false) :
    Inv setting (w.commitRow row) (Function.update ph i (.inserted d row.transactionId)) := by
  obtain ⟨closed, held⟩ := stands_at inv at_
  have owned : ∀ h, d = some h → Owned w h := fun h at_ => (held h at_).1
  have uncredited : row.transactionId ∉ creditedIds w.log := uncredited_unwritten inv unwritten
  have elsewhere : ∀ j, j ≠ i → ∀ h h', d = some h → (ph j).draw = some h' → h.key = h'.key → h.transactionId ≠ h'.transactionId :=
    fun j other h h' mine theirs => (inv.apart i j (Ne.symm other)).draw h h' (by rw [at_]; exact mine) theirs
  refine inv.advance (inv.books.committing (writable_under written owned unwritten))
    ⟨closed, fun h at_ => ⟨(owned h at_).reserved, (owned h at_).amount⟩, ledgerHas_committed, uncredited⟩ (fun _ _ => rfl)
    (fun j other => committing_spares written (elsewhere j other)) fun j other => ⟨elsewhere j other, fun id mine theirs => ?_⟩
  cases mine
  have has := (due_written (inv.stands j) theirs).1
  rw [unwritten] at has
  cases has

theorem inv_crediting {id : String} (inv : Inv setting w ph) (at_ : ph i = .inserted d id) :
    Inv setting (w.record (.credited id)) (Function.update ph i (.tried d)) := by
  obtain ⟨closed, owned, has, uncredited⟩ := stands_at inv at_
  refine inv.advance (inv.books.crediting has uncredited) ⟨closed, fun h at_ => ⟨(owned h at_).reserved, (owned h at_).amount⟩⟩
    (fun _ _ => rfl) (fun j other => crediting_spares ?_) (inv.keeps (Or.inr (by rw [at_]; rfl)) rfl)
  exact (inv.apart i j (Ne.symm other)).due id (by rw [at_]; rfl)

theorem inv_uncredited {id : String} (inv : Inv setting w ph) (at_ : ph i = .inserted d id) :
    Inv setting w (Function.update ph i (.tried d)) := by
  obtain ⟨closed, owned, _⟩ := stands_at inv at_
  exact inv_same inv ⟨closed, owned⟩ (Or.inr (by rw [at_]; rfl)) rfl

theorem inv_inserts {row : LedgerRow} {rowId : String} (inv : Inv setting w ph) (at_ : ph i = .out d) (written : RowFor d row)
    (executed : w.exec setting i (.createTransaction row) x = (.ok (some rowId), w')) :
    Inv setting w' (Function.update ph i (.inserted d row.transactionId)) := by
  obtain ⟨rfl, answered⟩ := exec_resolved executed trivial
  have answered : some rowId = (w.createTransaction i row x.rowId).1 := answered
  show Inv setting (w.createTransaction i row x.rowId).2 _
  rw [createTransaction_closed (stands_at inv at_).1] at answered ⊢
  split at answered
  · cases answered
  · rename_i unwritten
    rw [if_neg unwritten]
    exact inv_inserting inv at_ written (Bool.not_eq_true _ ▸ unwritten)

theorem inv_insertsUnsure {row : LedgerRow} {err : RewardError} (inv : Inv setting w ph) (at_ : ph i = .out d) (written : RowFor d row)
    (executed : w.exec setting i (.createTransaction row) x = (.error err, w')) : Inv setting w' (Function.update ph i (.tried d)) := by
  obtain ⟨closed, held⟩ := stands_at inv at_
  have unmoved : Inv setting w (Function.update ph i (.tried d)) :=
    inv_same inv ⟨closed, fun h at_ => (held h at_).1⟩ (Or.inr (by rw [at_]; rfl)) rfl
  rcases exec_settled executed trivial with ⟨rfl, _⟩ | ⟨rfl, _⟩
  · exact unmoved
  · show Inv setting (w.createTransaction i row x.rowId).2 _
    rw [createTransaction_closed closed]
    split
    · exact unmoved
    · rename_i unwritten
      have inserted := inv_inserting inv at_ written (Bool.not_eq_true _ ▸ unwritten)
      have settled := inv_uncredited inserted (Function.update_self ..)
      rwa [Function.update_idem] at settled

theorem inv_insertsDuplicate {row : LedgerRow} (inv : Inv setting w ph) (at_ : ph i = .out d)
    (executed : w.exec setting i (.createTransaction row) x = (.ok none, w')) : Inv setting w' (Function.update ph i (.out d)) := by
  obtain ⟨closed, held⟩ := stands_at inv at_
  obtain ⟨rfl, answered⟩ := exec_resolved executed trivial
  have answered : none = (w.createTransaction i row x.rowId).1 := answered
  show Inv setting (w.createTransaction i row x.rowId).2 _
  rw [createTransaction_closed closed] at answered ⊢
  split at answered
  · rename_i known
    rw [if_pos known]
    exact inv_same inv ⟨closed, held⟩ (Or.inr (by rw [at_])) rfl
  · cases answered

theorem inv_credits {id ownerId : String} {amount : ℚ} {reply : Except RewardError Bool} (inv : Inv setting w ph) (at_ : ph i = .inserted d id)
    (executed : w.exec setting i (.incrementCredits ownerId amount id) x = (reply, w')) : Inv setting w' (Function.update ph i (.tried d)) := by
  rcases exec_settled executed trivial with ⟨rfl, _⟩ | ⟨rfl, _⟩
  · exact inv_uncredited inv at_
  · show Inv setting (if x.holderFound then w.incrementCredits i id else w) _
    split
    · have credited : w.incrementCredits i id = w.record (.credited id) := by
        unfold World.incrementCredits
        rw [(stands_at inv at_).1]
      rw [credited]
      exact inv_crediting inv at_
    · exact inv_uncredited inv at_

/-! ### Inside a transaction -/

theorem held_within {p : Phase} (within : Within d p) (stands : Standings setting w i p) : Held w d ∧ p.draw = d := by
  cases p with
  | opened d' =>
    cases within
    exact ⟨stands.2, rfl⟩
  | buffered d' id =>
    cases within
    exact ⟨stands.2, rfl⟩
  | completed d' id =>
    cases within
    exact ⟨stands.2, rfl⟩
  | _ => exact within.elim

theorem inv_opens (inv : Inv setting w ph) (at_ : ph i = .out d) : Inv setting (w.setSession i (some {})) (Function.update ph i (.opened d)) :=
  inv_session inv ⟨session_own, held_session (stands_at inv at_).2⟩ (by rw [at_]; rfl) rfl

theorem inv_rollsBack (inv : Inv setting w ph) (within : Within d (ph i)) :
    Inv setting (w.setSession i none) (Function.update ph i (.out d)) := by
  obtain ⟨held, draw⟩ := held_within within (inv.stands i)
  exact inv_session inv ⟨session_own, held_session held⟩ draw.symm rfl

theorem createTransaction_open {row : LedgerRow} {rowId : String} (opened : w.sessions i = some {}) :
    w.createTransaction i row rowId =
      if w.ledgerHas row.transactionId then (none, w) else (some rowId, w.setSession i (some { rows := [row] })) := by
  unfold World.createTransaction
  rw [opened]
  simp

theorem inv_buffers {row : LedgerRow} {rowId : String} (inv : Inv setting w ph) (at_ : ph i = .opened d) (written : RowFor d row)
    (executed : w.exec setting i (.createTransaction row) x = (.ok (some rowId), w')) :
    Inv setting w' (Function.update ph i (.buffered d row.transactionId)) := by
  obtain ⟨opened, held⟩ := stands_at inv at_
  obtain ⟨rfl, answered⟩ := exec_resolved executed trivial
  have answered : some rowId = (w.createTransaction i row x.rowId).1 := answered
  show Inv setting (w.createTransaction i row x.rowId).2 _
  rw [createTransaction_open opened] at answered ⊢
  split at answered
  · cases answered
  · rename_i unwritten
    rw [if_neg unwritten]
    exact inv_session inv ⟨⟨row, written, rfl, session_own⟩, held_session held⟩ (by rw [at_]; rfl) rfl

theorem inv_buffersDuplicate {row : LedgerRow} (inv : Inv setting w ph) (at_ : ph i = .opened d)
    (executed : w.exec setting i (.createTransaction row) x = (.ok none, w')) : Inv setting w' (Function.update ph i (.opened d)) := by
  obtain ⟨opened, held⟩ := stands_at inv at_
  obtain ⟨rfl, answered⟩ := exec_resolved executed trivial
  have answered : none = (w.createTransaction i row x.rowId).1 := answered
  show Inv setting (w.createTransaction i row x.rowId).2 _
  rw [createTransaction_open opened] at answered ⊢
  split at answered
  · rename_i known
    rw [if_pos known]
    exact inv_same inv ⟨opened, held⟩ (Or.inr (by rw [at_])) rfl
  · cases answered

theorem inv_buffersUnsure {row : LedgerRow} {err : RewardError} (inv : Inv setting w ph) (at_ : ph i = .opened d) (written : RowFor d row)
    (executed : w.exec setting i (.createTransaction row) x = (.error err, w')) :
    Inv setting w' (Function.update ph i (.completed d row.transactionId)) := by
  obtain ⟨opened, held⟩ := stands_at inv at_
  have unmoved : Inv setting w (Function.update ph i (.completed d row.transactionId)) :=
    inv_same inv ⟨⟨_, opened, .nothing⟩, held⟩ (Or.inr (by rw [at_]; rfl)) rfl
  rcases exec_settled executed trivial with ⟨rfl, _⟩ | ⟨rfl, _⟩
  · exact unmoved
  · show Inv setting (w.createTransaction i row x.rowId).2 _
    rw [createTransaction_open opened]
    split
    · exact unmoved
    · exact inv_session inv ⟨⟨_, session_own, .row written rfl⟩, held_session held⟩ (by rw [at_]; rfl) rfl

theorem inv_creditsBuffered {id ownerId : String} {amount : ℚ} {reply : Except RewardError Bool} (inv : Inv setting w ph)
    (at_ : ph i = .buffered d id) (executed : w.exec setting i (.incrementCredits ownerId amount id) x = (reply, w')) :
    Inv setting w' (Function.update ph i (.completed d id)) := by
  obtain ⟨⟨row, written, same, opened⟩, held⟩ := stands_at inv at_
  have unmoved : Inv setting w (Function.update ph i (.completed d id)) :=
    inv_same inv ⟨⟨_, opened, .row written same⟩, held⟩ (Or.inr (by rw [at_]; rfl)) rfl
  rcases exec_settled executed trivial with ⟨rfl, _⟩ | ⟨rfl, _⟩
  · exact unmoved
  · show Inv setting (if x.holderFound then w.incrementCredits i id else w) _
    split
    · have credited : w.incrementCredits i id = w.setSession i (some { rows := [row], credited := [id] }) := by
        unfold World.incrementCredits
        rw [opened]
      rw [credited]
      exact inv_session inv ⟨⟨_, session_own, .credited written same⟩, held_session held⟩ (by rw [at_]; rfl) rfl
    · exact unmoved

theorem commit_resolved {session : Session} (opened : w.sessions i = some session)
    (executed : w.exec setting i .commitTransaction x = (.ok (), w')) : w.conflicts session = false ∧ w' = w.apply i session := by
  simp only [World.exec, World.perform, opened, Option.any_some] at executed
  split at executed
  · cases executed
  · rename_i clear
    cases executed
    rw [Bool.not_eq_true, Bool.or_eq_false_iff] at clear
    exact ⟨clear.2, rfl⟩

theorem commit_rejected {err : RewardError} (executed : w.exec setting i .commitTransaction x = (.error err, w')) :
    w' = w.setSession i none := by
  unfold World.exec at executed
  dsimp only at executed
  split at executed <;> cases executed
  rfl

theorem inv_commitsNothing (inv : Inv setting w ph) (at_ : ph i = .opened d)
    (executed : w.exec setting i .commitTransaction x = (.ok (), w')) : Inv setting w' (Function.update ph i (.out d)) := by
  obtain ⟨opened, held⟩ := stands_at inv at_
  obtain ⟨_, rfl⟩ := commit_resolved opened executed
  exact inv_session inv ⟨session_own, held_session held⟩ (by rw [at_]; rfl) rfl

/-- A transaction that commits stores what its writes, made one by one outside it, would have stored. -/
theorem inv_commits {id : String} (inv : Inv setting w ph) (at_ : ph i = .completed d id)
    (executed : w.exec setting i .commitTransaction x = (.ok (), w')) : Inv setting w' (Function.update ph i (.tried d)) := by
  obtain ⟨⟨session, opened, drafted⟩, held⟩ := stands_at inv at_
  obtain ⟨clear, rfl⟩ := commit_resolved opened executed
  have ended : Inv setting (w.setSession i none) (Function.update ph i (.out d)) := inv_rollsBack inv (by rw [at_]; rfl)
  cases drafted with
  | nothing =>
    obtain ⟨closed, held⟩ := stands_at ended (Function.update_self ..)
    have settled := inv_same (q := .tried d) ended ⟨closed, fun h at_ => (held h at_).1⟩ (Or.inr (by rw [Function.update_self]; rfl)) rfl
    rwa [Function.update_idem] at settled
  | @row row written same =>
    have unwritten : w.ledgerHas row.transactionId = false := by simpa [World.conflicts] using clear
    have inserted := inv_inserting ended (Function.update_self ..) written unwritten
    have settled := inv_uncredited inserted (Function.update_self ..)
    rwa [Function.update_idem, Function.update_idem] at settled
  | @credited row written same =>
    subst same
    have unwritten : w.ledgerHas row.transactionId = false := by simpa [World.conflicts] using clear
    have inserted := inv_inserting ended (Function.update_self ..) written unwritten
    have settled := inv_crediting inserted (Function.update_self ..)
    rwa [Function.update_idem, Function.update_idem] at settled

theorem inv_unwritten {id : String} (inv : Inv setting w ph) (at_ : ph i = .tried d) (under : ∀ h, d = some h → h.transactionId = id)
    (executed : w.exec setting i (.findTransaction id) x = (.ok false, w')) : Inv setting w' (Function.update ph i (.out d)) := by
  obtain ⟨closed, owned⟩ := stands_at inv at_
  obtain ⟨moved, answered⟩ := exec_resolved executed trivial
  have unmoved : w' = w := moved
  have absent : false = w.ledgerHas id := answered
  rw [unmoved]
  refine inv_same inv ⟨closed, fun h held => ⟨owned h held, unspent_unwritten ?_⟩⟩ (Or.inr (by rw [at_]; rfl)) rfl
  rw [under h held]
  exact absent.symm

theorem inv_pools {s : Option PoolBudget} (inv : Inv setting w ph) (at_ : ph i = .out none)
    (executed : w.exec setting i .budgetSetting x = (.ok s, w')) : Inv setting w' (Function.update ph i (.pooled s)) := by
  obtain ⟨rfl, answered⟩ := exec_resolved executed trivial
  exact inv_same inv ⟨(stands_at inv at_).1, answered⟩ (Or.inl rfl) rfl

end Steps

theorem inv_step {setting : Option PoolBudget} {w w' : World} {i : Nat} {x : Choice} {ph : Nat → Phase} {op : Op}
    {reply : Except RewardError op.Value} {q : Phase} (inv : Inv setting w ph) (executed : w.exec setting i op x = (reply, w'))
    (permitted : Moves (ph i) op reply q) : Inv setting w' (Function.update ph i q) := by
  generalize at_ : ph i = p at permitted
  cases permitted with
  | stays passive =>
    rw [exec_passive passive executed, ← at_, Function.update_eq_self]
    exact inv
  | forgets passive closed =>
    rw [exec_passive passive executed]
    exact inv_forgets inv (at_ ▸ closed)
  | pools => exact inv_pools inv at_ executed
  | draws due fresh => exact inv_draws inv at_ due fresh executed
  | @reserves b key id amount reply due => exact inv_reserves (h := ⟨key, id, amount⟩) inv at_ due executed
  | refunds => exact inv_refunds inv at_ executed
  | opens =>
    cases executed
    exact inv_opens inv at_
  | opensNot => cases executed
  | inserts written => exact inv_inserts inv at_ written executed
  | insertsDuplicate _ => exact inv_insertsDuplicate inv at_ executed
  | insertsUnsure written => exact inv_insertsUnsure inv at_ written executed
  | buffers written => exact inv_buffers inv at_ written executed
  | buffersDuplicate _ => exact inv_buffersDuplicate inv at_ executed
  | buffersUnsure written => exact inv_buffersUnsure inv at_ written executed
  | credits => exact inv_credits inv at_ executed
  | creditsBuffered => exact inv_creditsBuffered inv at_ executed
  | commitsNothing => exact inv_commitsNothing inv at_ executed
  | commits => exact inv_commits inv at_ executed
  | rollsBack within =>
    rw [commit_rejected executed]
    exact inv_rollsBack inv (at_ ▸ within)
  | aborts within =>
    cases executed
    exact inv_rollsBack inv (at_ ▸ within)
  | unwritten under => exact inv_unwritten inv at_ under executed

theorem inv_preserved {setting : Option PoolBudget} :
    Preserves (semantics setting) Moves (fun _ _ _ _ => True) (Inv setting) where
  env {_ e} _ _ := nomatch e
  step inv _ executed permitted := inv_step inv (Option.some.inj executed) permitted

theorem inv_start {setting : Option PoolBudget} : Inv setting .empty fun _ => .out none where
  books := books_empty
  stands _ := ⟨rfl, held_none⟩
  apart _ _ _ := {
    draw := fun _ _ impossible => nomatch impossible
    due := fun _ impossible => nomatch impossible }

/-- Under any interleaving, rewards are paid at most once each, and every metered row keeps its draw. -/
theorem rewards_metered (setting : Option PoolBudget) (runs : Nat → Run) (sched : List (Action Nat Choice Empty)) :
    (semantics setting).Always (fun c => Metered setting c.store) (start runs) sched := by
  refine Semantics.always_iff.mpr fun before after c _ ran => ?_
  have tracked : Tracked Moves Rests (Inv setting) (start runs) := ⟨fun _ => .out none, inv_start, fun i => program_follows (runs i)⟩
  obtain ⟨ph, inv, _⟩ := run_invariant inv_preserved tracked (Semantics.meets_all fun _ _ _ _ => trivial) ran
  exact inv.books.metered

end Bike4Mind.Rewards
