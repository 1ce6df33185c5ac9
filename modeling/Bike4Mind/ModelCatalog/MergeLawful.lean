import Bike4Mind.ModelCatalog.RowOrder
import Bike4Mind.ModelCatalog.TowardSunset

/-! The merge as a whole: the order of the rows, the seeded models, and what one more row can do. -/

namespace Bike4Mind.ModelCatalog

open Collections

def seedOf (seedModels : List ModelInfo) (modelId : String) : Option ModelRecord :=
  (seedModels.find? (modelIdOf · = modelId)).map toModelRecord

/-- The merged record of a model, its seed's where no row names it. -/
def mergedRecord (seedModels : List ModelInfo) (rows : List CatalogRow) (modelId : String) : ModelRecord :=
  (mergeRows (bucketOf rows modelId) (seedOf seedModels modelId)).draft

def lifecycleWinner (seedModels : List ModelInfo) (rows : List CatalogRow) (modelId : String) : Option CatalogRow :=
  (winnersOf (seedOf seedModels modelId).isSome (bucketOf rows modelId)).get? .lifecycle

/-- What a row added to a model's rows may change of its record. -/
structure OnlyAdvances (row : CatalogRow) (winner : Option CatalogRow) (old new : ModelRecord) : Prop where
  status : ∀ rank, lifecycleStatusRank (statusOf old) = some rank →
    (∃ further, lifecycleStatusRank (statusOf new) = some further ∧ rank ≤ further) ∨
      winner = some row ∧ row.lifecycleStatus ≠ none ∧ lifecycleStatusRank row.lifecycleStatus = none ∧
        statusOf new = row.lifecycleStatus ∧ ∀ status ∈ statusOf old, status ∉ LIFECYCLE_SUNSET_STATUSES
  deprecationDate : ∀ date ∈ (asLifecycle (old .lifecycle)).bind (·.deprecationDate),
    NotAfter date ((asLifecycle (new .lifecycle)).bind (·.deprecationDate))
  retirementDate : ∀ date ∈ (asLifecycle (old .lifecycle)).bind (·.retirementDate),
    NotAfter date ((asLifecycle (new .lifecycle)).bind (·.retirementDate))
  isSuperseded : (asLifecycle (old .lifecycle)).bind (·.isSuperseded) = some true →
    (asLifecycle (new .lifecycle)).bind (·.isSuperseded) = some true
  disabled : isTrue (old .disabled) = true → isTrue (new .disabled) = true

theorem OnlyAdvances.refl (row : CatalogRow) (winner : Option CatalogRow) (record : ModelRecord) : OnlyAdvances row winner record record where
  status := fun rank ranked => .inl ⟨rank, ranked, le_refl _⟩
  deprecationDate := fun date stated => ⟨date, stated, le_refl _⟩
  retirementDate := fun date stated => ⟨date, stated, le_refl _⟩
  isSuperseded := id
  disabled := id

section Insert
variable {before after : List CatalogRow} {row : CatalogRow} {seed : Option ModelInfo}

theorem seed_status {record : ModelRecord} (seeded : seed.map toModelRecord = some record) :
    ∃ rank, lifecycleStatusRank (statusOf record) = some rank := by
  obtain ⟨info, rfl, rfl⟩ := Option.map_eq_some_iff.mp seeded
  change ∃ rank, lifecycleStatusRank (lifecycleOf info).status = some rank
  unfold lifecycleOf
  simp only
  split
  · exact ⟨3, by decide⟩
  · exact ⟨1, by decide⟩

theorem stated_insert (row : CatalogRow) {base : Option ModelRecord} {lifecycle : Lifecycle} (member : lifecycle ∈ statedLifecycles (before ++ after) base) :
    lifecycle ∈ statedLifecycles (before ++ row :: after) base := by
  rw [mem_stated] at member ⊢
  refine member.imp_right fun ⟨other, there, claims, stated⟩ => ⟨other, ?_, claims, stated⟩
  rw [List.mem_append] at there ⊢
  exact there.imp_right (.tail _)

theorem below_insert {group : FieldGroup} (below : BelowOperator (before ++ row :: after) group) : BelowOperator (before ++ after) group := by
  intro other there
  apply below other
  rw [List.mem_append] at there ⊢
  exact there.imp_right (.tail _)

theorem winner_insert (before after : List CatalogRow) (row : CatalogRow) (curated : Bool) (group : FieldGroup) :
    (winnersOf curated (before ++ row :: after)).get? group = some row ∨
      (winnersOf curated (before ++ row :: after)).get? group = (winnersOf curated (before ++ after)).get? group := by
  simp only [winnersOf_get?, List.filter_append, List.filter_cons]
  split
  · exact argmax_insert _ _ _
  · exact .inr rfl

theorem date_advances {date : Lifecycle → Option String} (key : DateKey date) (fresh : date {} = none) {base : Option ModelRecord}
    (below : BelowOperator (before ++ row :: after) .lifecycle) (day : String)
    (old : day ∈ (asLifecycle ((mergeRows (before ++ after) base).draft .lifecycle)).bind date) :
    NotAfter day ((asLifecycle ((mergeRows (before ++ row :: after) base).draft .lifecycle)).bind date) := by
  rw [merged_lifecycle (below_insert below)] at old
  split at old
  · cases old
  · obtain ⟨lifecycle, member, stated⟩ : ∃ lifecycle ∈ statedLifecycles (before ++ after) base, date lifecycle = some day := by
      rcases date_source key old with started | member
      · cases first : asLifecycle (claimed (before ++ after) base .lifecycle) with
        | none =>
          rw [first] at started
          cases fresh.symm.trans started
        | some lifecycle =>
          rw [first] at started
          exact ⟨lifecycle, claimed_stated (below_insert below) first, started⟩
      · exact member
    have member := stated_insert row member
    rw [merged_lifecycle below, if_neg (List.ne_nil_of_mem member)]
    exact date_bound key member stated

theorem superseded_advances {base : Option ModelRecord} (below : BelowOperator (before ++ row :: after) .lifecycle)
    (old : (asLifecycle ((mergeRows (before ++ after) base).draft .lifecycle)).bind (·.isSuperseded) = some true) :
    (asLifecycle ((mergeRows (before ++ row :: after) base).draft .lifecycle)).bind (·.isSuperseded) = some true := by
  rw [merged_lifecycle (below_insert below)] at old
  split at old
  · cases old
  · obtain ⟨lifecycle, member, stated⟩ : ∃ lifecycle ∈ statedLifecycles (before ++ after) base, lifecycle.isSuperseded = some true := by
      rcases superseded_run.mp old with started | member
      · cases first : asLifecycle (claimed (before ++ after) base .lifecycle) with
        | none =>
          rw [first] at started
          cases started
        | some lifecycle =>
          rw [first] at started
          exact ⟨lifecycle, claimed_stated (below_insert below) first, started⟩
      · exact member
    have member := stated_insert row member
    rw [merged_lifecycle below, if_neg (List.ne_nil_of_mem member)]
    exact superseded_run.mpr (.inr ⟨lifecycle, member, stated⟩)

theorem unranked_start {bucket : List CatalogRow} {status : String}
    (started : ((asLifecycle (claimed bucket (seed.map toModelRecord) .lifecycle)).getD {}).status = some status)
    (unranked : lifecycleStatusRank (some status) = none) :
    ∃ winner, (winnersOf (seed.map toModelRecord).isSome bucket).get? .lifecycle = some winner ∧ winner.lifecycleStatus = some status := by
  have fallback : ((asLifecycle ((seed.map toModelRecord).bind (· .lifecycle))).getD {}).status ≠ some status := by
    intro started
    cases seeded : seed.map toModelRecord with
    | none =>
      rw [seeded] at started
      cases started
    | some record =>
      obtain ⟨rank, ranked⟩ := seed_status seeded
      rw [seeded] at started
      change ((asLifecycle (record .lifecycle)).getD {}).status = some status at started
      unfold statusOf at ranked
      cases stated : asLifecycle (record .lifecycle) with
      | none =>
        rw [stated] at started
        cases started
      | some lifecycle =>
        rw [stated] at started ranked
        change lifecycleStatusRank lifecycle.status = some rank at ranked
        change lifecycle.status = some status at started
        rw [started, unranked] at ranked
        cases ranked
  unfold claimed at started
  cases wins : (winnersOf (seed.map toModelRecord).isSome bucket).get? (FIELD_GROUP_OF .lifecycle) with
  | none =>
    rw [wins] at started
    exact (fallback started).elim
  | some winner =>
    rw [wins] at started
    refine ⟨winner, wins, ?_⟩
    unfold CatalogRow.lifecycleStatus
    cases stated : winner.patch .lifecycle with
    | none =>
      simp only [Option.bind_some, stated, Option.none_or] at started
      exact (fallback started).elim
    | some value =>
      simp only [Option.bind_some, stated, Option.some_or] at started
      cases lifecycle : asLifecycle (some value) with
      | none =>
        rw [lifecycle] at started
        cases started
      | some lifecycle' =>
        rw [lifecycle] at started
        exact started

theorem status_advances (below : BelowOperator (before ++ row :: after) .lifecycle) (rank : Nat)
    (old : lifecycleStatusRank (statusOf (mergeRows (before ++ after) (seed.map toModelRecord)).draft) = some rank) :
    (∃ further, lifecycleStatusRank (statusOf (mergeRows (before ++ row :: after) (seed.map toModelRecord)).draft) = some further ∧ rank ≤ further) ∨
      (winnersOf (seed.map toModelRecord).isSome (before ++ row :: after)).get? .lifecycle = some row ∧ row.lifecycleStatus ≠ none ∧
        lifecycleStatusRank row.lifecycleStatus = none ∧
        statusOf (mergeRows (before ++ row :: after) (seed.map toModelRecord)).draft = row.lifecycleStatus ∧
        ∀ status ∈ statusOf (mergeRows (before ++ after) (seed.map toModelRecord)).draft, status ∉ LIFECYCLE_SUNSET_STATUSES := by
  generalize sourced : seed.map toModelRecord = base at *
  unfold statusOf at old ⊢
  rw [merged_lifecycle (below_insert below)] at old ⊢
  split at old
  · cases old
  · rename_i some_stated
    simp only [some_stated, if_false, Option.bind_some] at old ⊢
    generalize startOld : (asLifecycle (claimed (before ++ after) base .lifecycle)).getD {} = first at *
    cases result : ((statedLifecycles (before ++ after) base).foldl foldedLifecycle first).status with
    | none =>
      rw [result] at old
      cases old
    | some status =>
      rw [result] at old
      have reach := weight_ranked old
      obtain ⟨lifecycle, member, stated⟩ : ∃ lifecycle ∈ statedLifecycles (before ++ after) base, lifecycle.status = some status := by
        rcases @status_source first (statedLifecycles (before ++ after) base) with held | ⟨lifecycle, member, other, stated, _, _, same⟩
        · cases drafted : asLifecycle (claimed (before ++ after) base .lifecycle) with
          | none =>
            rw [drafted] at startOld
            subst startOld
            cases held.symm.trans result
          | some lifecycle =>
            rw [drafted] at startOld
            subst startOld
            exact ⟨lifecycle, claimed_stated (below_insert below) drafted, held.symm.trans result⟩
        · exact ⟨lifecycle, member, stated.trans (same.symm.trans result)⟩
      have there := stated_insert row member
      rw [merged_lifecycle below, if_neg (List.ne_nil_of_mem there)]
      simp only [Option.bind_some]
      generalize startNew : (asLifecycle (claimed (before ++ row :: after) base .lifecycle)).getD {} = second at *
      have bound := @status_bound second lifecycle _ status there stated (Option.isSome_iff_exists.mpr ⟨rank, old⟩)
      rw [reach] at bound
      cases ranked : lifecycleStatusRank ((statedLifecycles (before ++ row :: after) base).foldl foldedLifecycle second).status with
      | some further =>
        rw [weight_ranked ranked] at bound
        exact .inl ⟨further, rfl, by omega⟩
      | none =>
        -- the merged status has no rank, so it is what the winner put there
        right
        have held : ((statedLifecycles (before ++ row :: after) base).foldl foldedLifecycle second).status = second.status := by
          rcases @status_source second (statedLifecycles (before ++ row :: after) base) with held | ⟨_, _, other, _, known, _, same⟩
          · exact held
          · rw [same] at ranked
            rw [ranked] at known
            cases known
        rw [held] at ranked bound ⊢
        cases unranked : second.status with
        | none =>
          rw [unranked] at bound
          exact absurd bound (by simp [weight, lifecycleStatusRank])
        | some label =>
          rw [unranked] at ranked bound
          have low : rank ≤ 1 := by
            unfold weight at bound
            rw [ranked] at bound
            simp at bound
            omega
          subst sourced
          obtain ⟨winner, wins, labelled⟩ := unranked_start (startNew ▸ unranked) ranked
          rcases winner_insert before after row (seed.map toModelRecord).isSome .lifecycle with mine | same
          · cases mine.symm.trans wins
            refine ⟨mine, by simp [labelled], labelled ▸ ranked, labelled.symm, fun other known sunset => ?_⟩
            cases known
            exact absurd ((sunset_iff old).mp sunset) (by omega)
          · -- the winner was there before, and the old status would have no rank either
            exfalso
            have drafted : claimed (before ++ row :: after) (seed.map toModelRecord) .lifecycle = claimed (before ++ after) (seed.map toModelRecord) .lifecycle := by
              simp only [claimed, FIELD_GROUP_OF, same]
            rw [drafted, startOld] at startNew
            subst startNew
            rcases @status_source first (statedLifecycles (before ++ after) (seed.map toModelRecord)) with held | ⟨_, _, other, _, known, further, same⟩
            · rw [result, unranked] at held
              cases held
              rw [ranked] at old
              cases old
            · cases same.symm.trans result
              rw [unranked, reach] at further
              unfold weight at further
              rw [ranked] at further
              simp at further
              omega

theorem disabled_advances {base : Option ModelRecord} (below : BelowOperator (before ++ row :: after) .availability)
    (old : isTrue ((mergeRows (before ++ after) base).draft .disabled) = true) :
    isTrue ((mergeRows (before ++ row :: after) base).draft .disabled) = true := by
  rw [merged_disabled below]
  refine ((merged_disabled (below_insert below)).mp old).imp_right fun ⟨won, other, there, disables⟩ => ⟨?_, other, ?_, disables⟩
  · rcases winner_insert before after row base.isSome .availability with mine | same
    · rw [mine]
      rfl
    · rw [same]
      exact won
  · rw [List.mem_append] at there ⊢
    exact there.imp_right (.tail _)

theorem onlyAdvances_insert (lifecycle : BelowOperator (before ++ row :: after) .lifecycle)
    (availability : BelowOperator (before ++ row :: after) .availability) :
    OnlyAdvances row ((winnersOf (seed.map toModelRecord).isSome (before ++ row :: after)).get? .lifecycle)
      (mergeRows (before ++ after) (seed.map toModelRecord)).draft (mergeRows (before ++ row :: after) (seed.map toModelRecord)).draft where
  status := status_advances lifecycle
  deprecationDate := date_advances deprecationDate_key rfl lifecycle
  retirementDate := date_advances retirementDate_key rfl lifecycle
  isSuperseded := superseded_advances lifecycle
  disabled := disabled_advances availability

end Insert

/-- Below operator in both groups that only move toward the sunset. -/
def NoOperatorClaims (rows : List CatalogRow) (modelId : String) : Prop :=
  ∀ row ∈ rows, row.modelId = modelId → row.source = "operator" → row.owns .lifecycle = false ∧ row.owns .availability = false

def plainSeed : ModelInfo
  | .id | .name => some (.text "m")
  | .type => some (.text "text")
  | .backend => some (.text "openai")
  | .contextWindow => some (.number 8192)
  | _ => none

def describedBy (source content : String) : CatalogRow :=
  { modelId := "m"
    source
    ownedGroups := ["presentation"]
    patch := fun key => if key = .description then some (.text content) else none
    effectiveFrom := 0 }

def unlistedRow : CatalogRow :=
  { modelId := "m"
    source := "discovery"
    ownedGroups := ["lifecycle"]
    patch := fun key => if key = .lifecycle then some (.lifecycle { status := some "unlisted" }) else none
    effectiveFrom := 0 }

def keyless : BackendGateContext := ⟨none, false, false, none⟩

end Bike4Mind.ModelCatalog
