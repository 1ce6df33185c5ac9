import Bike4Mind.ModelCatalog.RowWinners

/-! Below operator a model only moves toward its sunset, whatever rows are added. -/

namespace Bike4Mind.ModelCatalog

open Collections

/-! ### What a fold over lifecycles leaves -/

section Folds
variable {start lifecycle : Lifecycle} {lifecycles : List Lifecycle}

theorem superseded_step (folded lifecycle : Lifecycle) :
    (foldedLifecycle folded lifecycle).isSuperseded = some true ↔ folded.isSuperseded = some true ∨ lifecycle.isSuperseded = some true := by
  unfold foldedLifecycle
  simp only
  split
  · rename_i superseded
    simp [superseded]
  · rename_i current
    simp [current]

theorem superseded_run : (lifecycles.foldl foldedLifecycle start).isSuperseded = some true ↔
    start.isSuperseded = some true ∨ ∃ lifecycle ∈ lifecycles, lifecycle.isSuperseded = some true := by
  induction lifecycles generalizing start with
  | nil => simp
  | cons lifecycle lifecycles ih =>
    rw [List.foldl_cons, ih, superseded_step, or_assoc]
    simp only [List.mem_cons, exists_eq_or_imp]

/-- Whether a date is set and not after another. -/
def NotAfter (date : String) (held : Option String) : Prop := ∃ earliest, held = some earliest ∧ earliest ≤ date

theorem earlier_keeps {date : String} {current : Option String} (held : NotAfter date current) (other : Option String) :
    NotAfter date (earlier current other) := by
  obtain ⟨earliest, same, before⟩ := held
  subst same
  cases other with
  | none => exact ⟨earliest, rfl, before⟩
  | some other => exact ⟨_, earlier_some _ _, (min_le_left _ _).trans before⟩

theorem earlier_takes (current : Option String) (date : String) : NotAfter date (earlier current (some date)) := by
  cases current with
  | none => exact ⟨date, rfl, le_refl _⟩
  | some current => exact ⟨_, earlier_some _ _, min_le_right _ _⟩

theorem earlier_source {current other : Option String} {date : String} (result : earlier current other = some date) :
    current = some date ∨ other = some date := by
  cases other with
  | none => exact .inl result
  | some other =>
    cases current with
    | none => exact .inr result
    | some current =>
      rw [earlier_some] at result
      rcases min_choice current other with kept | taken
      · exact .inl (kept ▸ result)
      · exact .inr (taken ▸ result)

/-- One of the dates of a lifecycle, and that the fold keeps the earliest. -/
structure DateKey (date : Lifecycle → Option String) : Prop where
  step : ∀ folded lifecycle, date (foldedLifecycle folded lifecycle) = earlier (date folded) (date lifecycle)

variable {date : Lifecycle → Option String}

theorem date_kept (key : DateKey date) {day : String} (held : NotAfter day (date start)) :
    NotAfter day (date (lifecycles.foldl foldedLifecycle start)) := by
  induction lifecycles generalizing start with
  | nil => exact held
  | cons lifecycle lifecycles ih => exact ih (key.step start lifecycle ▸ earlier_keeps held _)

theorem date_bound (key : DateKey date) {day : String} (member : lifecycle ∈ lifecycles) (stated : date lifecycle = some day) :
    NotAfter day (date (lifecycles.foldl foldedLifecycle start)) := by
  induction lifecycles generalizing start with
  | nil => cases member
  | cons first lifecycles ih =>
    cases member with
    | head =>
      change NotAfter day (date (lifecycles.foldl foldedLifecycle (foldedLifecycle start lifecycle)))
      apply date_kept key
      rw [key.step, stated]
      exact earlier_takes _ _
    | tail _ member => exact ih member

theorem date_source (key : DateKey date) {day : String} (result : date (lifecycles.foldl foldedLifecycle start) = some day) :
    date start = some day ∨ ∃ lifecycle ∈ lifecycles, date lifecycle = some day := by
  induction lifecycles generalizing start with
  | nil => exact .inl result
  | cons first lifecycles ih =>
    rcases ih result with held | ⟨later, member, stated⟩
    · rcases earlier_source ((key.step start first).symm.trans held) with held | stated
      · exact .inl held
      · exact .inr ⟨first, List.mem_cons_self, stated⟩
    · exact .inr ⟨later, .tail _ member, stated⟩

theorem weight_grows (held candidate : Option String) : weight held ≤ weight (foldStatus held candidate) := by
  cases candidate with
  | none => exact le_refl _
  | some candidate =>
    rw [foldStatus_some]
    split
    · rename_i displaced
      exact displaced.2.le
    · exact le_refl _

theorem weight_reaches (held : Option String) {candidate : String} (ranked : (lifecycleStatusRank (some candidate)).isSome) :
    weight (some candidate) ≤ weight (foldStatus held (some candidate)) := by
  rw [foldStatus_some]
  split
  · exact le_refl _
  · rename_i stays
    exact not_lt.mp fun less => stays ⟨ranked, less⟩

theorem status_kept : weight start.status ≤ weight (lifecycles.foldl foldedLifecycle start).status := by
  induction lifecycles generalizing start with
  | nil => exact le_refl _
  | cons lifecycle lifecycles ih => exact (weight_grows start.status lifecycle.status).trans (@ih (foldedLifecycle start lifecycle))

theorem status_bound {status : String} (member : lifecycle ∈ lifecycles) (stated : lifecycle.status = some status)
    (ranked : (lifecycleStatusRank (some status)).isSome) : weight (some status) ≤ weight (lifecycles.foldl foldedLifecycle start).status := by
  induction lifecycles generalizing start with
  | nil => cases member
  | cons first lifecycles ih =>
    cases member with
    | head =>
      have reached : weight (some status) ≤ weight (foldedLifecycle start lifecycle).status := by
        change _ ≤ weight (foldStatus start.status lifecycle.status)
        rw [stated]
        exact weight_reaches _ ranked
      exact reached.trans status_kept
    | tail _ member => exact ih member

theorem status_source : (lifecycles.foldl foldedLifecycle start).status = start.status ∨
    ∃ lifecycle ∈ lifecycles, ∃ status, lifecycle.status = some status ∧ (lifecycleStatusRank (some status)).isSome ∧
      weight start.status < weight (some status) ∧ (lifecycles.foldl foldedLifecycle start).status = some status := by
  induction lifecycles generalizing start with
  | nil => exact .inl rfl
  | cons first lifecycles ih =>
    rcases @ih (foldedLifecycle start first) with held | ⟨later, member, status, stated, ranked, further, result⟩
    · have step : (foldedLifecycle start first).status = foldStatus start.status first.status := rfl
      cases stated : first.status with
      | none =>
        rw [stated] at step
        exact .inl (held.trans step)
      | some status =>
        rw [stated, foldStatus_some] at step
        split at step
        · rename_i displaced
          exact .inr ⟨first, List.mem_cons_self, status, stated, displaced.1, displaced.2, held.trans step⟩
        · exact .inl (held.trans step)
    · exact .inr ⟨later, .tail _ member, status, stated, ranked, (weight_grows start.status first.status).trans_lt further, result⟩

end Folds

theorem deprecationDate_key : DateKey (·.deprecationDate) := ⟨fun _ _ => rfl⟩

theorem retirementDate_key : DateKey (·.retirementDate) := ⟨fun _ _ => rfl⟩

theorem foldedLifecycle_self (lifecycle : Lifecycle) : foldedLifecycle lifecycle lifecycle = lifecycle := by
  have same : ∀ date : Option String, earlier date date = date := by
    intro date
    cases date with
    | none => rfl
    | some date => rw [earlier_some, min_self]
  have status : foldStatus lifecycle.status lifecycle.status = lifecycle.status := by
    cases lifecycle.status with
    | none => rfl
    | some status =>
      rw [foldStatus_some]
      split <;> rfl
  cases lifecycle
  simp only [foldedLifecycle, same, Lifecycle.mk.injEq, and_true]
  refine ⟨?_, status⟩
  split
  · rename_i superseded
    exact superseded.symm
  · rfl

/-! ### The merged record below operator -/

theorem fieldGroup?_lifecycle {name : String} : fieldGroup? name = some .lifecycle ↔ name = "lifecycle" := by
  constructor
  · intro named
    obtain ⟨before, after, split, _⟩ := List.lookup_eq_some_iff.mp named
    have member : (name, FieldGroup.lifecycle) ∈ FIELD_GROUPS := split ▸ List.mem_append_right _ List.mem_cons_self
    simpa [FIELD_GROUPS] using member
  · rintro rfl
    decide

theorem fieldGroup?_availability {name : String} : fieldGroup? name = some .availability ↔ name = "availability" := by
  constructor
  · intro named
    obtain ⟨before, after, split, _⟩ := List.lookup_eq_some_iff.mp named
    have member : (name, FieldGroup.availability) ∈ FIELD_GROUPS := split ▸ List.mem_append_right _ List.mem_cons_self
    simpa [FIELD_GROUPS] using member
  · rintro rfl
    decide

theorem owns_lifecycle (row : CatalogRow) : row.owns .lifecycle = row.ownedGroups.contains "lifecycle" := by
  unfold CatalogRow.owns
  rw [Bool.eq_iff_iff]
  simp [fieldGroup?_lifecycle]

theorem owns_availability (row : CatalogRow) : row.owns .availability = row.ownedGroups.contains "availability" := by
  unfold CatalogRow.owns
  rw [Bool.eq_iff_iff]
  simp [fieldGroup?_availability]

theorem contends_lifecycle (curated : Bool) (row : CatalogRow) : contends curated .lifecycle row = row.owns .lifecycle := by
  simp [contends, CatalogRow.yieldsToCuration]

/-- Rows none of which an operator wrote for a group. -/
def BelowOperator (bucket : List CatalogRow) (group : FieldGroup) : Prop := ∀ row ∈ bucket, row.owns group = true → row.source ≠ "operator"

theorem claims_lifecycle {row : CatalogRow} (below : row.source ≠ "operator") : row.claimsGroup "lifecycle" = row.owns .lifecycle := by
  simp [CatalogRow.claimsGroup, owns_lifecycle, below]

theorem claims_availability {row : CatalogRow} (below : row.source ≠ "operator") : row.claimsGroup "availability" = row.owns .availability := by
  simp [CatalogRow.claimsGroup, owns_availability, below]

section Merged
variable {bucket : List CatalogRow} {base : Option ModelRecord} {winner : CatalogRow} {group : FieldGroup}

theorem winner_mem (wins : (winnersOf base.isSome bucket).get? group = some winner) : winner ∈ bucket ∧ contends base.isSome group winner = true := by
  rw [winnersOf_get?] at wins
  exact List.mem_filter.mp (List.argmax_mem wins)

theorem contends_owns {curated : Bool} (contender : contends curated group winner = true) : winner.owns group = true :=
  (Bool.and_eq_true_iff.mp contender).1

theorem no_winner (none : (winnersOf base.isSome bucket).get? group = none) (row : CatalogRow) (member : row ∈ bucket) :
    contends base.isSome group row = false := by
  rw [winnersOf_get?, List.argmax_eq_none] at none
  by_contra contender
  have there := List.mem_filter.mpr ⟨member, Bool.eq_true_of_not_eq_false contender⟩
  rw [none] at there
  cases there

theorem mem_stated {lifecycle : Lifecycle} : lifecycle ∈ statedLifecycles bucket base ↔
    (∃ record, base = some record ∧ asLifecycle (record .lifecycle) = some lifecycle) ∨
      ∃ row ∈ bucket, row.claimsGroup "lifecycle" = true ∧ asLifecycle (row.patch .lifecycle) = some lifecycle := by
  unfold statedLifecycles
  rw [List.mem_append, List.mem_filterMap, Option.mem_toList]
  simp only [List.mem_filter, Option.bind_eq_some_iff, and_assoc]

theorem claimed_stated (below : BelowOperator bucket .lifecycle) {lifecycle : Lifecycle}
    (started : asLifecycle (claimed bucket base .lifecycle) = some lifecycle) : lifecycle ∈ statedLifecycles bucket base := by
  have fallback : asLifecycle (base.bind (· .lifecycle)) = some lifecycle → lifecycle ∈ statedLifecycles bucket base := by
    intro started
    cases base with
    | none => cases started
    | some record => exact mem_stated.mpr (.inl ⟨record, rfl, started⟩)
  unfold claimed at started
  cases wins : (winnersOf base.isSome bucket).get? (FIELD_GROUP_OF .lifecycle) with
  | none =>
    rw [wins] at started
    exact fallback started
  | some winner =>
    rw [wins] at started
    obtain ⟨member, contender⟩ := winner_mem wins
    have owns := contends_owns contender
    cases stated : winner.patch .lifecycle with
    | none =>
      simp only [Option.bind_some, stated, Option.none_or] at started
      exact fallback started
    | some value =>
      simp only [Option.bind_some, stated, Option.some_or] at started
      exact mem_stated.mpr (.inr ⟨winner, member, (claims_lifecycle (below winner member owns)).trans owns, stated ▸ started⟩)

theorem keepDisable_other {draft : ModelRecord} {winner : Option CatalogRow} {key : RecordKey} (one : key ≠ .disabled) (two : key ≠ .disabledReason) :
    keepDisable draft bucket base winner key = draft key := by
  unfold keepDisable
  cases winner with
  | none => rfl
  | some winner =>
    simp only
    split
    · rfl
    · split
      · rfl
      · exact (Function.update_of_ne two _ _).trans (Function.update_of_ne one _ _)

theorem merged_lifecycle (below : BelowOperator bucket .lifecycle) :
    asLifecycle ((mergeRows bucket base).draft .lifecycle) =
      if statedLifecycles bucket base = [] then none
      else some ((statedLifecycles bucket base).foldl foldedLifecycle ((asLifecycle (claimed bucket base .lifecycle)).getD {})) := by
  rw [mergeRows_draft, keepDisable_other (by decide) (by decide)]
  have unstated : statedLifecycles bucket base = [] → asLifecycle (claimed bucket base .lifecycle) = none := by
    intro empty
    cases started : asLifecycle (claimed bucket base .lifecycle) with
    | none => rfl
    | some lifecycle =>
      have member := claimed_stated below started
      rw [empty] at member
      cases member
  cases wins : (winnersOf base.isSome bucket).get? .lifecycle with
  | none =>
    -- no row claims the group: the seed's lifecycle stands, and folds onto itself
    have kept : claimed bucket base .lifecycle = base.bind (· .lifecycle) := by
      simp only [claimed, FIELD_GROUP_OF, wins]
      rfl
    have rows : bucket.filter (·.claimsGroup "lifecycle") = [] := by
      rw [List.filter_eq_nil_iff]
      intro row member claims
      have owns : row.owns .lifecycle = true := by
        rw [owns_lifecycle]
        exact (Bool.and_eq_true_iff.mp claims).2
      have quiet := no_winner wins row member
      rw [contends_lifecycle, owns] at quiet
      cases quiet
    have stated : statedLifecycles bucket base = (asLifecycle (claimed bucket base .lifecycle)).toList := by
      unfold statedLifecycles
      rw [rows, kept]
      cases base <;> simp [asLifecycle]
    change asLifecycle (claimed bucket base .lifecycle) = _
    rw [stated]
    cases asLifecycle (claimed bucket base .lifecycle) with
    | none => rfl
    | some lifecycle => exact congrArg some (foldedLifecycle_self lifecycle).symm
  | some winner =>
    obtain ⟨member, contender⟩ := winner_mem wins
    have source := below winner member (contends_owns contender)
    unfold foldLifecycle
    by_cases empty : statedLifecycles bucket base = []
    · simp only [empty, or_true, if_true]
      exact unstated empty
    · simp only [source, empty, or_self, if_false, setKey, Function.update_self]
      rfl

theorem foldLifecycle_other {draft : ModelRecord} {winner : Option CatalogRow} {key : RecordKey} (other : key ≠ .lifecycle) :
    foldLifecycle draft bucket base winner key = draft key := by
  unfold foldLifecycle
  cases winner with
  | none => rfl
  | some winner =>
    simp only
    split
    · rfl
    · exact Function.update_of_ne other _ _

def Disables (row : CatalogRow) : Prop := row.owns .availability = true ∧ isTrue (row.patch .disabled) = true

theorem disablerOf_none (below : BelowOperator bucket .availability) : disablerOf bucket = none ↔ ∀ row ∈ bucket, ¬Disables row := by
  unfold disablerOf
  rw [foremost_eq, List.argmax_eq_none, List.filter_eq_nil_iff]
  constructor
  · intro quiet row member disables
    apply quiet row member
    rw [claims_availability (below row member disables.1)]
    exact Bool.and_eq_true_iff.mpr disables
  · intro quiet row member claims
    obtain ⟨claims, disabled⟩ := Bool.and_eq_true_iff.mp claims
    refine quiet row member ⟨?_, disabled⟩
    rw [owns_availability]
    exact (Bool.and_eq_true_iff.mp claims).2

/-- When a model is disabled: the seed is, or some row says so while a row holds the group. -/
theorem merged_disabled (below : BelowOperator bucket .availability) :
    isTrue ((mergeRows bucket base).draft .disabled) = true ↔
      isTrue (base.bind (· .disabled)) = true ∨
        ((winnersOf base.isSome bucket).get? .availability).isSome = true ∧ ∃ row ∈ bucket, Disables row := by
  have drafted : ∀ winner, foldLifecycle (claimed bucket base) bucket base winner .disabled = claimed bucket base .disabled :=
    fun _ => foldLifecycle_other (by decide)
  rw [mergeRows_draft]
  cases wins : (winnersOf base.isSome bucket).get? .availability with
  | none =>
    change isTrue (foldLifecycle _ _ _ _ .disabled) = true ↔ _
    rw [drafted]
    simp only [claimed, FIELD_GROUP_OF, wins]
    simp
  | some winner =>
    obtain ⟨member, contender⟩ := winner_mem wins
    have owns := contends_owns contender
    have source := below winner member owns
    unfold keepDisable
    simp only [source, false_or, Option.isSome_some, true_and]
    rw [drafted]
    by_cases already : isTrue (claimed bucket base .disabled) = true
    · simp only [already, if_true]
      rw [drafted]
      refine ⟨fun _ => ?_, fun _ => already⟩
      simp only [claimed, FIELD_GROUP_OF, wins, Option.bind_some] at already
      cases stated : winner.patch .disabled with
      | none =>
        rw [stated] at already
        exact .inl already
      | some value =>
        rw [stated] at already
        exact .inr ⟨winner, member, owns, stated ▸ already⟩
    · simp only [already, Bool.false_eq_true, if_false]
      by_cases quiet : (disablerOf bucket).isNone = true ∧ (!isTrue (base.bind (· .disabled))) = true
      · rw [if_pos quiet, drafted]
        have undisabled := (disablerOf_none below).mp (Option.isNone_iff_eq_none.mp quiet.1)
        constructor
        · exact fun on => (already on).elim
        · rintro (on | ⟨row, there, disables⟩)
          · rw [on] at quiet
            cases quiet.2
          · exact (undisabled row there disables).elim
      · rw [if_neg quiet]
        unfold setKey
        rw [Function.update_of_ne (by decide), Function.update_self]
        refine ⟨fun _ => ?_, fun _ => rfl⟩
        by_contra neither
        rw [not_or] at neither
        have undisabled : disablerOf bucket = none := (disablerOf_none below).mpr fun row there disables => neither.2 ⟨row, there, disables⟩
        exact quiet ⟨Option.isNone_iff_eq_none.mpr undisabled, by simpa using neither.1⟩

end Merged

end Bike4Mind.ModelCatalog
