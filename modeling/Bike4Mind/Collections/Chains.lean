import Mathlib.Data.Fintype.Card
import Mathlib.Data.List.Nodup
import Mathlib.Data.Set.Finite.List
import Mathlib.Logic.Relation

/-! Chains along a partial function: those that end, and the walk that finds out. -/

namespace Collections
variable {κ : Type} {next : κ → Option κ} {k j : κ}

/-- Following `next` from `k` stops. -/
inductive Ends (next : κ → Option κ) : κ → Prop
  | last {k : κ} (stops : next k = none) : Ends next k
  | step {k j : κ} (goes : next k = some j) (later : Ends next j) : Ends next k

/-- `j` comes after `k`. -/
def Leads (next : κ → Option κ) : κ → κ → Prop := Relation.TransGen fun k j => next k = some j

theorem Ends.along (ends : Ends next k) (goes : next k = some j) : Ends next j := by
  cases ends with
  | last stops => cases stops.symm.trans goes
  | step first later => cases first.symm.trans goes; exact later

theorem leads_cases (goes : next k = some j) {i : κ} (leads : Leads next k i) : j = i ∨ Leads next j i := by
  rcases Relation.TransGen.head'_iff.mp leads with ⟨first, here, rest⟩
  cases goes.symm.trans here
  exact (Relation.reflTransGen_iff_eq_or_transGen.mp rest).imp Eq.symm id

theorem Ends.no_return (ends : Ends next k) : ¬Leads next k k := by
  induction ends with
  | last stops =>
    intro back
    obtain ⟨_, goes, _⟩ := Relation.TransGen.head'_iff.mp back
    cases stops.symm.trans goes
  | step goes _ ih =>
    intro back
    rcases leads_cases goes back with same | around
    · exact ih (Relation.TransGen.single (same ▸ goes))
    · exact ih (around.tail goes)

variable [DecidableEq κ]

/-- The walk with the elements seen so far, within a number of steps. -/
def walkEnds (next : κ → Option κ) : Nat → List κ → Option κ → Bool
  | _, _, none => true
  | 0, _, some _ => false
  | fuel + 1, seen, some current => if current ∈ seen then false else walkEnds next fuel (current :: seen) (next current)

theorem walkEnds_sound {fuel : Nat} {seen : List κ} (walked : walkEnds next fuel seen (some k) = true) : Ends next k := by
  induction fuel generalizing seen k with
  | zero => cases walked
  | succ fuel ih =>
    rw [walkEnds] at walked
    split at walked
    · cases walked
    · cases goes : next k with
      | none => exact .last goes
      | some j => exact .step goes (ih (goes ▸ walked))

/-- What has been seen leads to what is current, so the walk of a chain that ends meets nothing twice. -/
theorem walkEnds_complete {known : List κ} (inside : ∀ k j, next k = some j → k ∈ known) {fuel : Nat} {seen : List κ}
    (distinct : seen.Nodup) (before : ∀ s ∈ seen, Leads next s k) (enough : known.length < fuel + seen.length) (ends : Ends next k) :
    walkEnds next fuel seen (some k) = true := by
  have listed : ∀ s ∈ seen, s ∈ known := by
    intro s member
    obtain ⟨j, goes, _⟩ := Relation.TransGen.head'_iff.mp (before s member)
    exact inside s j goes
  induction fuel generalizing seen k with
  | zero =>
    have most := (distinct.subperm listed).length_le
    omega
  | succ fuel ih =>
    have fresh : k ∉ seen := fun member => ends.no_return (before k member)
    rw [walkEnds, if_neg fresh]
    cases goes : next k with
    | none => cases fuel <;> rfl
    | some j =>
      refine ih (List.nodup_cons.mpr ⟨fresh, distinct⟩) ?_ ?_ (ends.along goes) ?_
      · intro s member
        rcases List.mem_cons.mp member with rfl | old
        · exact Relation.TransGen.single goes
        · exact (before s old).tail goes
      · rw [List.length_cons]
        omega
      · intro s member
        rcases List.mem_cons.mp member with rfl | old
        · exact inside s j goes
        · exact listed s old

/-! ### Steps among finitely many elements -/

section Finite
variable {α : Type} {items : List α} {step : α → α → Prop}

theorem wellFounded_of_acyclic (inside : ∀ a b, step a b → b ∈ items) (acyclic : ∀ a ∈ items, ¬Relation.TransGen step a a) :
    WellFounded (Function.swap step) := by
  have finite : Finite {x // x ∈ items} := (List.finite_toSet items).to_subtype
  let after (x y : {x // x ∈ items}) : Prop := Relation.TransGen step y.1 x.1
  have transitive : IsTrans _ after := ⟨fun _ _ _ first second => second.trans first⟩
  have irreflexive : Std.Irrefl after := ⟨fun x => acyclic x.1 x.2⟩
  have founded : WellFounded after := Finite.wellFounded_of_trans_of_irrefl after
  have reached (x : {x // x ∈ items}) : Acc (Function.swap step) x.1 := by
    induction x using founded.induction with
    | _ x ih => exact ⟨_, fun b goes => ih ⟨b, inside x.1 b goes⟩ (Relation.TransGen.single goes)⟩
  exact ⟨fun a => ⟨_, fun b goes => reached ⟨b, inside a b goes⟩⟩⟩

end Finite

end Collections
