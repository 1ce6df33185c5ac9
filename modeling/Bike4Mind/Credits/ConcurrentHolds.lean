import Mathlib.Algebra.BigOperators.Group.Finset.Piecewise
import Mathlib.Algebra.Order.BigOperators.Group.Finset
import Mathlib.Data.Fintype.Basic
import Mathlib.Tactic.Ring
import Bike4Mind.Credits.HoldProtocol

/-!
Concurrent holds on shared balances. The decrement of a hold doubles as its balance check, so losers
and winners overlap: what a loser took is missing until its rollback has run.
-/

namespace Bike4Mind.Credits
open Concurrency

/-! ### The balance equation -/

section Balance
variable {ι : Type} [DecidableEq ι] [Fintype ι]

theorem sum_update {φ : Type} (f : φ → ℚ) (ph : ι → φ) (i : ι) (q : φ) :
    ∑ k, f (Function.update ph i q k) + f (ph i) = ∑ k, f (ph k) + f q := by
  have after := Finset.sum_update_of_mem (Finset.mem_univ i) (fun k => f (ph k)) (f q)
  have before := Finset.sum_update_of_mem (Finset.mem_univ i) (fun k => f (ph k)) (f (ph i))
  rw [Function.update_eq_self] at before
  have moved : (fun k => f (Function.update ph i q k)) = Function.update (fun k => f (ph k)) i (f q) := by
    funext k
    by_cases own : k = i
    · subst own
      simp
    · simp [own]
  simp only [moved, after, before]
  ring

def totalTaken (T : CreditHolderType) (id : String) (ph : ι → HoldPhase) : ℚ := ∑ i, ((ph i).standing T id).taken

def totalOwed (T : CreditHolderType) (id : String) (ph : ι → HoldPhase) : ℚ := ∑ i, ((ph i).standing T id).owed

/-- The history says of every call what its phase does, and every balance is what it started with less
the credits taken and owed. -/
structure Accounts (initial : CreditHolderType → String → Option ℚ) (s : Balances ι) (ph : ι → HoldPhase) : Prop where
  history : ∀ i T id, standing T id i s.log = (ph i).standing T id
  net : ∀ i T id, net T id i s.log = -(((ph i).standing T id).taken + ((ph i).standing T id).owed)
  intact : ∀ i, ph i ≠ .lost
  present : ∀ i T id, (ph i).standing T id ≠ .untouched → s.balance T id ≠ none
  owed : ∀ i T id, 0 ≤ ((ph i).standing T id).owed
  balance : ∀ T id start, initial T id = some start → 0 ≤ start →
    s.balance T id = some (start - totalTaken T id ph - totalOwed T id ph) ∧ totalTaken T id ph ≤ start

/-- A rollback write does not fail. -/
def RollsBack (i : ι) (s : Balances ι) : CreditOp → CreditChoice → Bool
  | .incrementCredits T id _, .rejects _ => !(standing T id i s.log).pending
  | _, _ => true

variable {initial : CreditHolderType → String → Option ℚ} {s s' : Balances ι} {ph : ι → HoldPhase} {i : ι} {q : HoldPhase}
variable {T T' : CreditHolderType} {id id' : String} {amount current : ℚ}

/-- A transfer of call `i`, which moves on from `ph i` to `q` by what it transferred. -/
theorem accounts_transfer (inv : Accounts initial s ph) (found : s.balance T id = some current)
    (moved : ((ph i).standing T id).after amount (current + amount) = q.standing T id)
    (elsewhere : ∀ T' id', ¬ (T' = T ∧ id' = id) → q.standing T' id' = (ph i).standing T' id')
    (intact : q ≠ .lost) (owed : 0 ≤ (q.standing T id).owed)
    (conserved : (q.standing T id).taken + (q.standing T id).owed + amount =
      ((ph i).standing T id).taken + ((ph i).standing T id).owed)
    (covered : (q.standing T id).taken ≤ ((ph i).standing T id).taken ∨ 0 ≤ current + amount) :
    Accounts initial (s.increment i T id amount).2 (Function.update ph i q) := by
  unfold Balances.increment
  rw [found]
  have owed' : ∀ k T' id', 0 ≤ ((Function.update ph i q k).standing T' id').owed := by
    intro k T' id'
    by_cases own : k = i
    · subst own
      rw [Function.update_self]
      by_cases here : T' = T ∧ id' = id
      · obtain ⟨rfl, rfl⟩ := here
        exact owed
      · rw [elsewhere T' id' here]
        exact inv.owed k T' id'
    · rw [Function.update_of_ne own]
      exact inv.owed k T' id'
  refine ⟨fun k T' id' => ?_, fun k T' id' => ?_, fun k => ?_, fun k T' id' touched => ?_, owed',
    fun T' id' start began solvent => ?_⟩
  · simp only [standing]
    by_cases own : k = i
    · subst own
      rw [Function.update_self]
      by_cases here : T' = T ∧ id' = id
      · obtain ⟨rfl, rfl⟩ := here
        rw [if_pos ⟨rfl, rfl, rfl⟩, inv.history]
        exact moved
      · rw [if_neg (fun same => here ⟨same.2.1.symm, same.2.2.symm⟩), inv.history]
        exact (elsewhere T' id' here).symm
    · rw [Function.update_of_ne own, if_neg (fun same => own same.1.symm)]
      exact inv.history k T' id'
  · simp only [net]
    by_cases own : k = i
    · subst own
      rw [Function.update_self]
      by_cases here : T' = T ∧ id' = id
      · obtain ⟨rfl, rfl⟩ := here
        rw [if_pos ⟨rfl, rfl, rfl⟩, inv.net]
        linarith
      · rw [if_neg (fun same => here ⟨same.2.1.symm, same.2.2.symm⟩), inv.net, elsewhere T' id' here]
    · rw [Function.update_of_ne own, if_neg (fun same => own same.1.symm)]
      exact inv.net k T' id'
  · by_cases own : k = i
    · subst own
      rwa [Function.update_self]
    · rw [Function.update_of_ne own]
      exact inv.intact k
  · by_cases here : T' = T ∧ id' = id
    · simp [here]
    · simp only [if_neg here]
      by_cases own : k = i
      · subst own
        rw [Function.update_self, elsewhere T' id' here] at touched
        exact inv.present k T' id' touched
      · rw [Function.update_of_ne own] at touched
        exact inv.present k T' id' touched
  · obtain ⟨stored, within⟩ := inv.balance T' id' start began solvent
    have taken := sum_update (fun p => (p.standing T' id').taken) ph i q
    have pending := sum_update (fun p => (p.standing T' id').owed) ph i q
    by_cases here : T' = T ∧ id' = id
    · obtain ⟨rfl, rfl⟩ := here
      simp only [and_self, if_true, Option.some.injEq]
      have current' := Option.some.inj (found.symm.trans stored)
      have nonneg : 0 ≤ totalOwed T' id' (Function.update ph i q) :=
        Finset.sum_nonneg fun k _ => owed' k T' id'
      unfold totalTaken totalOwed at *
      have equation : current + amount = start - ∑ k, ((Function.update ph i q k).standing T' id').taken -
          ∑ k, ((Function.update ph i q k).standing T' id').owed := by linarith
      refine ⟨equation, ?_⟩
      rcases covered with less | covered <;> linarith
    · have same := elsewhere T' id' here
      simp only [if_neg here]
      unfold totalTaken totalOwed at *
      rw [same] at taken pending
      rw [add_right_cancel taken, add_right_cancel pending]
      exact ⟨stored, within⟩

theorem accounts_still (inv : Accounts initial s ph) (same : ∀ T id, q.standing T id = (ph i).standing T id)
    (intact : q ≠ .lost) : Accounts initial s (Function.update ph i q) := by
  have standings : ∀ k T id, (Function.update ph i q k).standing T id = (ph k).standing T id := by
    intro k T id
    by_cases own : k = i
    · subst own
      rw [Function.update_self, same]
    · rw [Function.update_of_ne own]
  refine ⟨fun k T id => ?_, fun k T id => ?_, fun k => ?_, fun k T id => ?_, fun k T id => ?_,
    fun T id start began solvent => ?_⟩
  · rw [standings, inv.history]
  · rw [standings, inv.net]
  · by_cases own : k = i
    · subst own
      rwa [Function.update_self]
    · rw [Function.update_of_ne own]
      exact inv.intact k
  · rw [standings]
    exact inv.present k T id
  · rw [standings]
    exact inv.owed k T id
  · unfold totalTaken totalOwed
    simp only [standings]
    exact inv.balance T id start began solvent

omit [DecidableEq ι] [Fintype ι] in
theorem exec_quiet {op : CreditOp} {x : CreditChoice} {reply : Except JsError op.Value}
    (executed : Balances.exec i s op x = some (reply, s')) (quiet : op.increments = false) : s' = s := by
  cases op with
  | incrementCredits => cases quiet
  | _ => cases x <;> first | (cases executed; rfl) | cases executed

omit [DecidableEq ι] [Fintype ι] in
theorem exec_increment {x : CreditChoice} {reply : Except JsError (Option ℚ)}
    (executed : Balances.exec i s (.incrementCredits T id amount) x = some (reply, s')) :
    (∃ current, reply = .ok (some (current + amount)) ∧ s.balance T id = some current ∧ s' = (s.increment i T id amount).2) ∨
      (reply = .ok none ∧ s.balance T id = none ∧ s' = s) ∨ ∃ e, reply = .error e ∧ x = .rejects e ∧ s' = s := by
  cases x with
  | rejects error =>
    cases executed
    exact Or.inr (Or.inr ⟨error, rfl, rfl, rfl⟩)
  | resolves =>
    cases executed
    cases found : s.balance T id with
    | none => exact Or.inr (Or.inl (by simp [Balances.increment, found]))
    | some current => exact Or.inl ⟨current, by simp [Balances.increment, found]⟩
  | found present | loads organization => cases executed

theorem accounts_step {op : CreditOp} {x : CreditChoice} {reply : Except JsError op.Value} (inv : Accounts initial s ph)
    (rolls : RollsBack i s op x = true) (executed : Balances.exec i s op x = some (reply, s')) (step : Holds (ph i) op reply q) :
    Accounts initial s' (Function.update ph i q) := by
  have refused : ∀ T id credits, ph i = .overdrawn T id credits → standing T id i s.log = .refused credits := by
    intro T id credits phase
    rw [inv.history, phase]
    simp [HoldPhase.standing]
  have present : ∀ T id, (ph i).standing T id ≠ .untouched → s.balance T id ≠ none := inv.present i
  generalize phase : ph i = p at step
  have moves : ∀ {T id amount current}, s.balance T id = some current →
      (p.standing T id).after amount (current + amount) = q.standing T id →
      (∀ T' id', ¬ (T' = T ∧ id' = id) → q.standing T' id' = p.standing T' id') → q ≠ .lost →
      0 ≤ (q.standing T id).owed → (q.standing T id).taken + (q.standing T id).owed + amount =
        (p.standing T id).taken + (p.standing T id).owed →
      ((q.standing T id).taken ≤ (p.standing T id).taken ∨ 0 ≤ current + amount) →
      Accounts initial (s.increment i T id amount).2 (Function.update ph i q) := by
    rw [← phase]
    exact accounts_transfer inv
  cases step with
  | quiet quiet =>
    rw [exec_quiet executed quiet, ← phase, Function.update_eq_self]
    exact inv
  | @granted T id credits balance positive covered =>
    obtain ⟨current, replied, found, rfl⟩ | ⟨replied, _⟩ | ⟨e, replied, _⟩ := exec_increment executed <;> cases replied
    refine moves found ?_ ?_ (by simp) ?_ ?_ (Or.inr covered)
    · simp [HoldPhase.standing, Standing.after, not_lt.mpr covered]
    · intro T' id' other
      simp [HoldPhase.standing, other]
    · simp [HoldPhase.standing, Standing.owed]
    · simp [HoldPhase.standing, Standing.owed, Standing.taken]
  | @overdrawn T id credits balance positive short =>
    obtain ⟨current, replied, found, rfl⟩ | ⟨replied, _⟩ | ⟨e, replied, _⟩ := exec_increment executed <;> cases replied
    refine moves found ?_ ?_ (by simp) ?_ ?_ (Or.inl ?_)
    · simp [HoldPhase.standing, Standing.after, short]
    · intro T' id' other
      simp [HoldPhase.standing, other]
    · simpa [HoldPhase.standing, Standing.owed] using positive.le
    · simp [HoldPhase.standing, Standing.owed, Standing.taken]
    · simp [HoldPhase.standing, Standing.taken]
  | nobody =>
    obtain ⟨current, replied, _⟩ | ⟨replied, _, rfl⟩ | ⟨e, replied, _⟩ := exec_increment executed <;> cases replied
    exact accounts_still inv (fun T id => by rw [phase]; rfl) (by simp)
  | unasked =>
    obtain ⟨current, replied, _⟩ | ⟨replied, _⟩ | ⟨e, replied, _, rfl⟩ := exec_increment executed <;> cases replied
    exact accounts_still inv (fun T id => by rw [phase]; rfl) (by simp)
  | @rolledBack T id credits balance =>
    obtain ⟨current, replied, found, rfl⟩ | ⟨replied, _⟩ | ⟨e, replied, _⟩ := exec_increment executed <;> cases replied
    refine moves found ?_ ?_ (by simp) ?_ ?_ (Or.inl ?_)
    · simp [HoldPhase.standing, Standing.after]
    · intro T' id' other
      simp [HoldPhase.standing, other]
    · simp [HoldPhase.standing, Standing.owed]
    · simp [HoldPhase.standing, Standing.owed, Standing.taken]
    · simp [HoldPhase.standing, Standing.taken]
  | @refunded T id credits amount balance positive within =>
    obtain ⟨current, replied, found, rfl⟩ | ⟨replied, _⟩ | ⟨e, replied, _⟩ := exec_increment executed <;> cases replied
    refine moves found ?_ ?_ (by simp) ?_ ?_ (Or.inl ?_)
    · simp [HoldPhase.standing, Standing.after]
    · intro T' id' other
      simp [HoldPhase.standing, other]
    · simp [HoldPhase.standing, Standing.owed]
    · simp [HoldPhase.standing, Standing.owed, Standing.taken]
    · simpa [HoldPhase.standing, Standing.taken] using positive
  | @rollbackFailed T id credits e =>
    obtain ⟨current, replied, _⟩ | ⟨replied, _⟩ | ⟨e, replied, rejects, _⟩ := exec_increment executed <;> cases replied
    rw [rejects] at rolls
    simp [RollsBack, refused T id credits phase, Standing.pending] at rolls
  | @rollbackMissed T id | @refundMissed T id =>
    obtain ⟨current, replied, _⟩ | ⟨replied, missing, _⟩ | ⟨e, replied, _⟩ := exec_increment executed <;> cases replied
    exact (present T id (by simp [phase, HoldPhase.standing]) missing).elim
  | refundFailed =>
    obtain ⟨current, replied, _⟩ | ⟨replied, _⟩ | ⟨e, replied, _, rfl⟩ := exec_increment executed <;> cases replied
    exact accounts_still inv (fun T id => by rw [phase]) (by simp)

theorem accounts_preserves : Preserves (balances ι) Holds (fun i s op x => RollsBack i s op x = true) (Accounts initial) where
  env {_ move} _ _ := nomatch move
  step inv rolls executed step := accounts_step inv rolls executed step

end Balance

/-! ### Every run -/

section Runs
variable {ι : Type} [DecidableEq ι] [Fintype ι]

abbrev HoldConfig (ι : Type) := Config ι (Balances ι) CreditOp CreditOp.Value JsError HoldResult

/-- Every call about to start on the stored balances. -/
def holding (balance : CreditHolderType → String → Option ℚ) (calls : ι → HoldCall) : HoldConfig ι where
  store := { balance := balance }
  threads i := (calls i).program

def Balances.taken (s : Balances ι) (T : CreditHolderType) (id : String) : ℚ := ∑ i, (standing T id i s.log).taken

def Balances.owed (s : Balances ι) (T : CreditHolderType) (id : String) : ℚ := ∑ i, (standing T id i s.log).owed

/-- What holds at every moment of a holder that started with `start` credits. -/
structure NeverOverdrawn (T : CreditHolderType) (id : String) (start : ℚ) (c : HoldConfig ι) : Prop where
  covered : c.store.taken T id ≤ start
  balance : c.store.balance T id = some (start - c.store.taken T id - c.store.owed T id)
  net : ∀ i, net T id i c.store.log = -((standing T id i c.store.log).taken + (standing T id i c.store.log).owed)
  refused : ∀ i, (c.threads i).settled = true → (standing T id i c.store.log).owed = 0
  granted : ∀ i hold, c.threads i = .pure (.granted hold) →
    standing hold.ownerType hold.ownerId i c.store.log = .granted hold.reservedCredits
  released : ∀ i hold, c.threads i = .pure (.released hold) → standing hold.ownerType hold.ownerId i c.store.log = .closed 0
  -- The whole reservation stays charged when its refund fails.
  settled : ∀ i hold charged, c.threads i = .pure (.settled hold charged) →
    standing hold.ownerType hold.ownerId i c.store.log = .closed charged ∨
      standing hold.ownerType hold.ownerId i c.store.log = .granted hold.reservedCredits

theorem accounts_start {balance : CreditHolderType → String → Option ℚ} :
    Accounts balance ({ balance := balance } : Balances ι) (fun _ => .asking) where
  history _ _ _ := rfl
  net _ _ _ := by simp [net, HoldPhase.standing, Standing.taken, Standing.owed]
  intact _ := by simp
  present _ _ _ touched := (touched rfl).elim
  owed _ _ _ := le_refl 0
  balance T id start began solvent := by
    have none : totalTaken T id (fun _ : ι => HoldPhase.asking) = 0 := Finset.sum_eq_zero fun _ _ => rfl
    have none' : totalOwed T id (fun _ : ι => HoldPhase.asking) = 0 := Finset.sum_eq_zero fun _ _ => rfl
    rw [none, none']
    exact ⟨by simpa using began, solvent⟩

/-- Granted and charged credits stay within the starting balance, and the stored balance is off by no
more than the rollbacks that have yet to run. -/
theorem holds_never_overdraw {balance : CreditHolderType → String → Option ℚ} {calls : ι → HoldCall} {T : CreditHolderType}
    {id : String} {start : ℚ} {sched : List (Action ι CreditChoice Empty)} {c : HoldConfig ι}
    (holder : balance T id = some start) (solvent : 0 ≤ start)
    (ran : (balances ι).run (holding balance calls) sched = some c)
    (rollbacks : (balances ι).Meets (fun i s op x => RollsBack i s op x = true) (holding balance calls) sched) :
    NeverOverdrawn T id start c := by
  have tracked : Tracked Holds HoldEnded (Accounts balance) (holding balance calls) :=
    ⟨fun _ => .asking, accounts_start, fun i => program_follows (calls i)⟩
  obtain ⟨ph, inv, follows⟩ := run_invariant accounts_preserves tracked rollbacks ran
  have taken : c.store.taken T id = totalTaken T id ph := Finset.sum_congr rfl fun i _ => by rw [inv.history]
  have owed : c.store.owed T id = totalOwed T id ph := Finset.sum_congr rfl fun i _ => by rw [inv.history]
  obtain ⟨stored, covered⟩ := inv.balance T id start holder solvent
  have ended : ∀ i result, c.threads i = .pure result → HoldEnded (.ok result) (ph i) := fun i result thread => by
    have here := follows i
    rw [thread] at here
    exact here
  refine ⟨taken ▸ covered, by rw [taken, owed, stored], fun i => by rw [inv.net, inv.history], fun i settled => ?_, fun i hold thread => ?_, fun i hold thread => ?_,
    fun i hold charged thread => ?_⟩
  · have here := follows i
    have owing : (ph i).owing = false := by
      cases thread : c.threads i with
      | pure result =>
        rcases result with hold | hold | ⟨hold, charged⟩
        · rw [show ph i = _ from ended i _ thread]
          rfl
        · rcases ended i _ thread with same | same <;> rw [same] <;> rfl
        · exact settled_owing (ended i _ thread)
      | throw e =>
        rw [thread] at here
        exact here
      | await op next =>
        rw [thread] at settled
        cases settled
    rw [inv.history]
    cases phase : ph i with
    | overdrawn => rw [phase] at owing; cases owing
    | returned | held | closed =>
      simp only [HoldPhase.standing]
      split <;> rfl
    | _ => rfl
  · rw [inv.history, show ph i = _ from ended i _ thread]
    simp [HoldPhase.standing]
  · rw [inv.history]
    rcases ended i _ thread with same | same
    · rw [same]
      simp [HoldPhase.standing]
    · exact (inv.intact i same).elim
  · rw [inv.history]
    rcases ended i _ thread with same | same | same
    · exact Or.inl (by rw [same]; simp [HoldPhase.standing])
    · exact Or.inr (by rw [same]; simp [HoldPhase.standing])
    · exact (inv.intact i same).elim

end Runs

namespace TwoHolds

def request : HoldRequest := ⟨"user", none, .finite 60, "images"⟩

def calls : Bool → HoldCall
  | false => ⟨request, .settle (.finite 40) ⟨"usage", "session", "model", none, none⟩ false⟩
  | true => ⟨request, .keep⟩

def balance : CreditHolderType → String → Option ℚ
  | .user, "user" => some 100
  | _, _ => none

/-- Both calls ask before either reserves; the second is refused, and the first settles before the
rollback. -/
def interleaved : List (Action Bool CreditChoice Empty) :=
  [.resume false (.found true), .resume true (.found true), .resume false .resolves, .resume true .resolves,
    .resume false .resolves, .resume true .resolves, .resume false .resolves, .resume true .resolves,
    .resume false .resolves]

end TwoHolds

/-- One hold is charged 40 of its 60 credits while the other still waits for its rollback. -/
theorem two_holds_within_balance : ∃ c, (balances Bool).run (holding TwoHolds.balance TwoHolds.calls) TwoHolds.interleaved = some c ∧
    c.store.taken .user "user" = 40 ∧ c.store.owed .user "user" = 60 ∧ c.store.balance .user "user" = some 0 := by
  have reached : ((balances Bool).run (holding TwoHolds.balance TwoHolds.calls) TwoHolds.interleaved).map
      (fun c => (c.store.taken .user "user", c.store.owed .user "user")) = some (40, 60) := by decide +kernel
  obtain ⟨c, ran, sums⟩ := Option.map_eq_some_iff.mp reached
  obtain ⟨taken, owed⟩ := Prod.mk.inj sums
  have holder : TwoHolds.balance .user "user" = some 100 := rfl
  obtain ⟨_, balance, _⟩ := holds_never_overdraw holder (by decide +kernel) ran (by decide +kernel)
  refine ⟨c, ran, taken, owed, ?_⟩
  rw [balance, taken, owed]
  norm_num

end Bike4Mind.Credits
