import Mathlib.Data.Int.ConditionallyCompleteOrder
import Mathlib.Data.Prod.Lex
import Mathlib.Data.String.Basic
import Mathlib.Tactic.IntervalCases
import Bike4Mind.Collections.Foremost
import Bike4Mind.ModelCatalog.Merge

/-! Which row wins each group, and what the winners and the folds make of the record. -/

namespace Bike4Mind.ModelCatalog

open Collections

/-- What a row is ranked by in a group. -/
def rankKey (group : FieldGroup) (row : CatalogRow) : ℕ ×ₗ ℤ := toLex (precedenceOf group row.source, row.effectiveFrom)

theorem outranks_iff {candidate incumbent : CatalogRow} {group : FieldGroup} :
    outranks candidate incumbent group = true ↔ rankKey group incumbent < rankKey group candidate := by
  unfold outranks rankKey
  rw [Prod.Lex.toLex_lt_toLex]
  by_cases same : precedenceOf group candidate.source = precedenceOf group incumbent.source
  · simp [same]
  · simp [same, Ne.symm same]

theorem challenge_eq (group : FieldGroup) (held : Option CatalogRow) (row : CatalogRow) :
    challenge (rankKey group) held row =
      held.elim (some row) fun incumbent => if outranks row incumbent group then some row else some incumbent := by
  cases held with
  | none => rfl
  | some incumbent => simp only [challenge, Option.elim_some, outranks_iff]

theorem foremost_eq (group : FieldGroup) (rows : List CatalogRow) : foremost group rows = rows.argmax (rankKey group) := by
  rw [argmax_eq_foldl]
  unfold foremost
  congr 1
  funext held row
  rw [challenge_eq]
  cases held <;> rfl

def contends (curated : Bool) (group : FieldGroup) (row : CatalogRow) : Bool :=
  row.owns group && !(curated && row.yieldsToCuration group)

section Winners
variable {curated : Bool} {row : CatalogRow} {winners : OrderedMap FieldGroup CatalogRow} {group : FieldGroup} {name : String}

theorem contend_other (other : fieldGroup? name ≠ some group) : (contend curated row winners name).get? group = winners.get? group := by
  unfold contend
  cases named : fieldGroup? name with
  | none => rfl
  | some named' =>
    have apart : group ≠ named' := fun same => other (same ▸ named)
    simp only
    split
    · rfl
    · split
      · exact OrderedMap.get?_set_other apart
      · split
        · exact OrderedMap.get?_set_other apart
        · rfl

theorem contend_named (named : fieldGroup? name = some group) :
    (contend curated row winners name).get? group =
      if curated && row.yieldsToCuration group then winners.get? group else challenge (rankKey group) (winners.get? group) row := by
  unfold contend
  rw [named, challenge_eq]
  simp only
  split
  · rfl
  · cases held : winners.get? group with
    | none => exact OrderedMap.get?_set_self
    | some incumbent =>
      simp only [Option.elim_some]
      split
      · exact OrderedMap.get?_set_self
      · exact held

theorem challenge_again (held : Option CatalogRow) :
    challenge (rankKey group) (challenge (rankKey group) held row) row = challenge (rankKey group) held row := by
  cases held with
  | none => simp [challenge]
  | some incumbent =>
    by_cases greater : rankKey group incumbent < rankKey group row
    · have taken : challenge (rankKey group) (some incumbent) row = some row := if_pos greater
      rw [taken]
      exact if_neg (lt_irrefl _)
    · have kept : challenge (rankKey group) (some incumbent) row = some incumbent := if_neg greater
      rw [kept, kept]

theorem contends_row (names : List String) :
    (names.foldl (contend curated row) winners).get? group =
      if (names.any fun name => fieldGroup? name = some group) && !(curated && row.yieldsToCuration group) then
        challenge (rankKey group) (winners.get? group) row
      else winners.get? group := by
  induction names generalizing winners with
  | nil => rfl
  | cons name names ih =>
    rw [List.foldl_cons, ih, List.any_cons]
    by_cases named : fieldGroup? name = some group
    · rw [contend_named named]
      cases yields : curated && row.yieldsToCuration group with
      | true => simp
      | false =>
        simp only [Bool.not_false, Bool.and_true, Bool.false_eq_true, if_false, named, decide_true, Bool.true_or, if_true]
        split
        · exact challenge_again _
        · rfl
    · rw [contend_other named]
      simp [named]

theorem winnersOf_get? (curated : Bool) (bucket : List CatalogRow) (group : FieldGroup) :
    (winnersOf curated bucket).get? group = (bucket.filter (contends curated group)).argmax (rankKey group) := by
  rw [argmax_eq_foldl]
  unfold winnersOf
  suffices held : ∀ (rows : List CatalogRow) (winners : OrderedMap FieldGroup CatalogRow),
      (rows.foldl (fun winners row => row.ownedGroups.foldl (contend curated row) winners) winners).get? group =
        (rows.filter (contends curated group)).foldl (challenge (rankKey group)) (winners.get? group) from held bucket ∅
  intro rows
  induction rows with
  | nil => exact fun _ => rfl
  | cons row rows ih =>
    intro winners
    have turn := @contends_row curated row winners group row.ownedGroups
    change _ = if contends curated group row = true then _ else _ at turn
    rw [List.foldl_cons, ih, List.filter_cons, turn]
    cases contends curated group row with
    | true => rfl
    | false => rfl

end Winners

/-! ### The draft -/

theorem applyPatch_other {draft : ModelRecord} {won : FieldGroup × CatalogRow} {key : RecordKey} (other : won.1 ≠ FIELD_GROUP_OF key) :
    applyPatch draft won key = draft key := if_neg fun same => other same.symm

theorem foldl_applyPatch_other {entries : List (FieldGroup × CatalogRow)} {key : RecordKey} (draft : ModelRecord)
    (others : ∀ won ∈ entries, won.1 ≠ FIELD_GROUP_OF key) : entries.foldl applyPatch draft key = draft key := by
  induction entries generalizing draft with
  | nil => rfl
  | cons won entries ih =>
    rw [List.foldl_cons, ih _ fun won member => others won (.tail _ member), applyPatch_other (others won List.mem_cons_self)]

theorem foldl_applyPatch (winners : OrderedMap FieldGroup CatalogRow) (draft : ModelRecord) (key : RecordKey) :
    winners.entries.foldl applyPatch draft key =
      ((winners.get? (FIELD_GROUP_OF key)).bind fun row => row.patch key).or (draft key) := by
  unfold OrderedMap.get?
  have distinct := winners.nodup
  revert distinct
  induction winners.entries generalizing draft with
  | nil => exact fun _ => rfl
  | cons won entries ih =>
    intro distinct
    obtain ⟨fresh, distinct⟩ := List.nodup_cons.mp distinct
    rw [List.foldl_cons]
    by_cases here : won.1 = FIELD_GROUP_OF key
    · have others : ∀ later ∈ entries, later.1 ≠ FIELD_GROUP_OF key := fun later member same =>
        fresh (List.mem_map.mpr ⟨later, member, same.trans here.symm⟩)
      rw [foldl_applyPatch_other _ others, List.find?_cons_of_pos (by simpa using here)]
      exact if_pos here.symm
    · rw [ih _ distinct, applyPatch_other here, List.find?_cons_of_neg (by simpa using here)]

/-- The merged record before the folds. -/
def claimed (bucket : List CatalogRow) (base : Option ModelRecord) : ModelRecord := fun key =>
  (((winnersOf base.isSome bucket).get? (FIELD_GROUP_OF key)).bind fun row => row.patch key).or (base.bind (· key))

theorem mergeRows_draft (bucket : List CatalogRow) (base : Option ModelRecord) :
    (mergeRows bucket base).draft =
      keepDisable (foldLifecycle (claimed bucket base) bucket base ((winnersOf base.isSome bucket).get? .lifecycle)) bucket base
        ((winnersOf base.isSome bucket).get? .availability) := by
  have draft : (winnersOf base.isSome bucket).entries.foldl applyPatch (base.getD fun _ => none) = claimed bucket base := by
    funext key
    rw [foldl_applyPatch]
    cases base <;> rfl
  unfold mergeRows
  simp only [draft]

/-! ### Statuses -/

/-- How far a status reaches; a status without a rank holds against all but the sunset ones. -/
def weight (status : Option String) : Nat :=
  match lifecycleStatusRank status with
  | some rank => rank + 1
  | none => if status = none then 0 else 2

theorem rank_mem {status : String} {rank : Nat} (ranked : lifecycleStatusRank (some status) = some rank) :
    LIFECYCLE_STATUS_ORDER[rank]? = some status := by
  unfold lifecycleStatusRank at ranked
  simp only [Option.bind_some] at ranked
  split at ranked
  · rename_i member
    cases ranked
    exact List.getElem?_idxOf member
  · cases ranked

theorem rank_inj {status other : String} {rank : Nat} (one : lifecycleStatusRank (some status) = some rank)
    (two : lifecycleStatusRank (some other) = some rank) : status = other :=
  Option.some.inj ((rank_mem one).symm.trans (rank_mem two))

theorem sunset_iff {status : String} {rank : Nat} (ranked : lifecycleStatusRank (some status) = some rank) :
    status ∈ LIFECYCLE_SUNSET_STATUSES ↔ 2 ≤ rank := by
  have place := rank_mem ranked
  have five : rank < 5 := by
    have bound := (List.getElem?_eq_some_iff.mp place).1
    exact bound
  interval_cases rank <;> cases place <;> decide

theorem displacesStatus_iff {held : Option String} {candidate : String} :
    displacesStatus held candidate = true ↔
      (lifecycleStatusRank (some candidate)).isSome ∧ weight held < weight (some candidate) := by
  unfold displacesStatus weight
  cases ranked : lifecycleStatusRank (some candidate) with
  | none => simp
  | some rank =>
    cases heldRank : lifecycleStatusRank held with
    | some heldRank => simp
    | none =>
      by_cases absent : held = none
      · simp [absent]
      · simp only [absent, decide_false, Bool.false_or, decide_eq_true_eq, Option.isSome_some, true_and, if_false]
        rw [sunset_iff ranked]
        omega

theorem foldStatus_some {held : Option String} {candidate : String} :
    foldStatus held (some candidate) =
      if (lifecycleStatusRank (some candidate)).isSome ∧ weight held < weight (some candidate) then some candidate else held := by
  unfold foldStatus
  simp only [displacesStatus_iff]

theorem weight_ranked {status : Option String} {rank : Nat} (ranked : lifecycleStatusRank status = some rank) : weight status = rank + 1 := by
  unfold weight
  rw [ranked]

theorem weight_inj {status other : String} (one : (lifecycleStatusRank (some status)).isSome) (two : (lifecycleStatusRank (some other)).isSome)
    (same : weight (some status) = weight (some other)) : status = other := by
  obtain ⟨rank, ranked⟩ := Option.isSome_iff_exists.mp one
  obtain ⟨rank', ranked'⟩ := Option.isSome_iff_exists.mp two
  rw [weight_ranked ranked, weight_ranked ranked'] at same
  cases Nat.succ.inj same
  exact rank_inj ranked ranked'

theorem foldStatus_comm (held candidate other : Option String) :
    foldStatus (foldStatus held candidate) other = foldStatus (foldStatus held other) candidate := by
  cases candidate with
  | none => rfl
  | some candidate =>
    cases other with
    | none => rfl
    | some other =>
      simp only [foldStatus_some]
      by_cases one : (lifecycleStatusRank (some candidate)).isSome
      · by_cases two : (lifecycleStatusRank (some other)).isSome
        · have same := weight_inj one two
          simp only [one, two, true_and]
          split_ifs <;> first | rfl | omega | (rw [same (by omega)])
        · simp [two]
      · simp [one]

/-! ### Dates -/

theorem earlier_some (current date : String) : earlier (some current) (some date) = some (min current date) := by
  unfold earlier
  simp only
  split
  · rename_i less
    rw [min_eq_right less.le]
  · rename_i more
    rw [min_eq_left (not_lt.mp more)]

theorem earlier_none (date : Option String) : earlier none date = date := by cases date <;> rfl

theorem earlier_comm (current date other : Option String) : earlier (earlier current date) other = earlier (earlier current other) date := by
  cases date with
  | none => cases current <;> rfl
  | some date =>
    cases other with
    | none => cases current <;> rfl
    | some other =>
      cases current with
      | none => rw [earlier_none, earlier_none, earlier_some, earlier_some, min_comm]
      | some current => rw [earlier_some, earlier_some, earlier_some, earlier_some, min_right_comm]

theorem foldedLifecycle_comm (folded one two : Lifecycle) :
    foldedLifecycle (foldedLifecycle folded one) two = foldedLifecycle (foldedLifecycle folded two) one := by
  unfold foldedLifecycle
  simp only [Lifecycle.mk.injEq, and_true]
  refine ⟨?_, foldStatus_comm _ _ _, earlier_comm _ _ _, earlier_comm _ _ _⟩
  split_ifs <;> rfl

end Bike4Mind.ModelCatalog
