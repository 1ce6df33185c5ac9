import Mathlib.Data.List.Pairwise
import Mathlib.Data.List.Perm.Basic
import Bike4Mind.ModelCatalog.RowWinners

/-! The order of the rows does not matter, and what no row claims is left alone. -/

namespace Bike4Mind.ModelCatalog

open Collections

def CATALOG_ROW_SOURCES : List String := ["seed", "discovery", "operator"]

/-- A source by its name, the ones this build does not know counting as one. -/
def sourceClass (source : String) : Option String := if source ∈ CATALOG_ROW_SOURCES then some source else none

/-- Rows that are of two models, or that precedence can tell apart. -/
def Distinguished (row other : CatalogRow) : Prop :=
  row.modelId = other.modelId → sourceClass row.source = sourceClass other.source → row.effectiveFrom ≠ other.effectiveFrom

instance : Std.Symm Distinguished := ⟨fun _ _ apart model sources => (apart model.symm sources.symm).symm⟩

def RowsApart (rows : List CatalogRow) : Prop := rows.Pairwise Distinguished

theorem sourceClass_of_precedence {group : FieldGroup} {source other : String}
    (same : precedenceOf group source = precedenceOf group other) : sourceClass source = sourceClass other := by
  have known : ∀ source, precedenceOf group source = 0 ∧ sourceClass source = none ∨
      source ∈ CATALOG_ROW_SOURCES := by
    intro source
    by_cases member : source ∈ CATALOG_ROW_SOURCES
    · exact .inr member
    · refine .inl ⟨?_, if_neg member⟩
      simp only [CATALOG_ROW_SOURCES, List.mem_cons, List.not_mem_nil, or_false, not_or] at member
      obtain ⟨seed, discovery, operator⟩ := member
      unfold precedenceOf
      split <;> simp [PRESENTATION_PRECEDENCE, SOURCE_PRECEDENCE, List.lookup_cons, List.lookup_nil, beq_false_of_ne, seed, discovery, operator]
  have ranks : ∀ source, source ∈ CATALOG_ROW_SOURCES → precedenceOf group source ≠ 0 := by
    intro source member
    simp only [CATALOG_ROW_SOURCES, List.mem_cons, List.not_mem_nil, or_false] at member
    rcases member with rfl | rfl | rfl <;> cases group <;> decide
  rcases known source with ⟨none, class'⟩ | member
  · rcases known other with ⟨_, other'⟩ | member'
    · rw [class', other']
    · exact (ranks other member' (same ▸ none)).elim
  · rcases known other with ⟨none, _⟩ | member'
    · exact (ranks source member (same.trans none)).elim
    · simp only [CATALOG_ROW_SOURCES, List.mem_cons, List.not_mem_nil, or_false] at member member'
      rcases member with rfl | rfl | rfl <;> rcases member' with rfl | rfl | rfl <;> first | rfl | (cases group <;> revert same <;> decide)

theorem rankKey_inj {rows : List CatalogRow} (apart : RowsApart rows) {row other : CatalogRow} (here : row ∈ rows) (there : other ∈ rows)
    (model : row.modelId = other.modelId) {group : FieldGroup} (same : rankKey group row = rankKey group other) : row = other := by
  by_contra distinct
  have differ : Distinguished row other := List.Pairwise.forall apart here there distinct
  have pair := Prod.mk.inj (toLex_inj.mp same)
  exact differ model (sourceClass_of_precedence pair.1) pair.2

/-! ### The order of the rows -/

section Order
variable {bucket bucket' : List CatalogRow} {base : Option ModelRecord}

instance : RightCommutative foldedLifecycle := ⟨foldedLifecycle_comm⟩

theorem statedLifecycles_perm (base : Option ModelRecord) (same : bucket.Perm bucket') : (statedLifecycles bucket base).Perm (statedLifecycles bucket' base) :=
  ((same.filter _).filterMap _).append_left _

theorem foldLifecycle_perm (same : bucket.Perm bucket') (draft : ModelRecord) (winner : Option CatalogRow) :
    foldLifecycle draft bucket base winner = foldLifecycle draft bucket' base winner := by
  have stated := statedLifecycles_perm base same
  cases winner with
  | none => rfl
  | some winner =>
    unfold foldLifecycle
    simp only [stated.foldl_eq]
    have empty : statedLifecycles bucket base = [] ↔ statedLifecycles bucket' base = [] := by
      rw [← List.length_eq_zero_iff, ← List.length_eq_zero_iff, stated.length_eq]
    simp only [empty]

theorem mergeRows_perm (same : bucket.Perm bucket')
    (apart : ∀ group, ∀ row ∈ bucket, ∀ other ∈ bucket, rankKey group row = rankKey group other → row = other) :
    mergeRows bucket base = mergeRows bucket' base := by
  have winners : ∀ curated group, (winnersOf curated bucket).get? group = (winnersOf curated bucket').get? group := by
    intro curated group
    rw [winnersOf_get?, winnersOf_get?]
    exact argmax_perm (same.filter _) fun row here other there =>
      apart group row (List.mem_filter.mp here).1 other (List.mem_filter.mp there).1
  have disabler : disablerOf bucket = disablerOf bucket' := by
    unfold disablerOf
    rw [foremost_eq, foremost_eq]
    exact argmax_perm (same.filter _) fun row here other there =>
      apart .availability row (List.mem_filter.mp here).1 other (List.mem_filter.mp there).1
  have draft : claimed bucket base = claimed bucket' base := by
    funext key
    simp only [claimed, winners]
  have drafts : (mergeRows bucket base).draft = (mergeRows bucket' base).draft := by
    rw [mergeRows_draft, mergeRows_draft, winners, winners, draft, foldLifecycle_perm same]
    simp only [keepDisable, disabler]
  have owned : (mergeRows bucket base).owned = (mergeRows bucket' base).owned := by
    funext group
    simp only [mergeRows, winners]
  cases merged : mergeRows bucket base
  cases merged' : mergeRows bucket' base
  rw [merged, merged'] at drafts owned
  cases drafts
  cases owned
  rfl

end Order

section Buckets
variable {rows rows' : List CatalogRow}

theorem mergeRows_bucket (same : rows.Perm rows') (apart : RowsApart rows) (modelId : String) (base : Option ModelRecord) :
    mergeRows (bucketOf rows modelId) base = mergeRows (bucketOf rows' modelId) base := by
  apply mergeRows_perm (same.filter _)
  intro group row here other there equal
  obtain ⟨here, mine⟩ := List.mem_filter.mp here
  obtain ⟨there, theirs⟩ := List.mem_filter.mp there
  have model : row.modelId = other.modelId := (of_decide_eq_true mine).trans (of_decide_eq_true theirs).symm
  exact rankKey_inj apart here there model equal

theorem mergeSeeded_perm (same : rows.Perm rows') (apart : RowsApart rows) (base : ModelInfo) : mergeSeeded rows base = mergeSeeded rows' base := by
  have empty : (bucketOf rows (modelIdOf base)).isEmpty = (bucketOf rows' (modelIdOf base)).isEmpty := by
    rw [Bool.eq_iff_iff, List.isEmpty_iff, List.isEmpty_iff, ← List.length_eq_zero_iff, ← List.length_eq_zero_iff]
    unfold bucketOf
    rw [(same.filter _).length_eq]
  unfold mergeSeeded
  simp only [empty, mergeRows_bucket same apart]

theorem mergeCatalogOnly_perm (same : rows.Perm rows') (apart : RowsApart rows) (ctx : BackendGateContext) (modelId : String) :
    mergeCatalogOnly rows ctx modelId = mergeCatalogOnly rows' ctx modelId := by
  unfold mergeCatalogOnly
  simp only [mergeRows_bucket same apart]

theorem rowModels_spec (rows : List CatalogRow) : (rowModels rows).Nodup ∧ ∀ modelId, modelId ∈ rowModels rows ↔ ∃ row ∈ rows, row.modelId = modelId := by
  unfold rowModels
  suffices spec : ∀ (rows : List CatalogRow) (seen : List String), seen.Nodup →
      (rows.foldl (fun seen row => if row.modelId ∈ seen then seen else seen ++ [row.modelId]) seen).Nodup ∧
        ∀ modelId, modelId ∈ rows.foldl (fun seen row => if row.modelId ∈ seen then seen else seen ++ [row.modelId]) seen ↔
          modelId ∈ seen ∨ ∃ row ∈ rows, row.modelId = modelId by
    simpa using spec rows [] List.nodup_nil
  intro rows
  induction rows with
  | nil =>
    intro seen distinct
    exact ⟨distinct, fun modelId => by simp⟩
  | cons row rows ih =>
    intro seen distinct
    rw [List.foldl_cons]
    by_cases there : row.modelId ∈ seen
    · rw [if_pos there]
      obtain ⟨nodup, members⟩ := ih seen distinct
      refine ⟨nodup, fun modelId => (members modelId).trans ?_⟩
      constructor
      · rintro (old | ⟨other, member, named⟩)
        · exact .inl old
        · exact .inr ⟨other, .tail _ member, named⟩
      · rintro (old | ⟨other, member, named⟩)
        · exact .inl old
        · cases member with
          | head => exact .inl (named ▸ there)
          | tail _ member => exact .inr ⟨other, member, named⟩
    · rw [if_neg there]
      have longer : (seen ++ [row.modelId]).Nodup := by
        rw [List.nodup_append]
        refine ⟨distinct, List.nodup_singleton _, ?_⟩
        rintro a member b last rfl
        exact there (List.mem_singleton.mp last ▸ member)
      obtain ⟨nodup, members⟩ := ih _ longer
      refine ⟨nodup, fun modelId => (members modelId).trans ?_⟩
      rw [List.mem_append, List.mem_singleton, or_assoc, eq_comm (a := modelId)]
      simp only [List.mem_cons, exists_eq_or_imp]

theorem unseeded_perm (same : rows.Perm rows') (seedModels : List ModelInfo) : (unseeded seedModels rows).Perm (unseeded seedModels rows') := by
  have models : (rowModels rows).Perm (rowModels rows') := by
    rw [List.perm_ext_iff_of_nodup (rowModels_spec rows).1 (rowModels_spec rows').1]
    intro modelId
    rw [(rowModels_spec rows).2, (rowModels_spec rows').2]
    simp only [same.mem_iff]
  exact models.filter _

theorem gatedModels_perm (same : rows.Perm rows') (apart : RowsApart rows) (seedModels : List ModelInfo) (ctx : BackendGateContext) :
    (gatedModels seedModels rows ctx).Perm (gatedModels seedModels rows' ctx) := by
  unfold gatedModels
  simp only [mergeCatalogOnly_perm same apart]
  exact (unseeded_perm same seedModels).filter _

end Buckets

/-! ### What a seeded model is served as -/

theorem models_seeded (seedModels : List ModelInfo) (rows : List CatalogRow) (ctx : BackendGateContext) :
    (mergeCatalogWithDrops seedModels rows ctx).models.take seedModels.length = seedModels.map fun base => (mergeSeeded rows base).1 := by
  unfold mergeCatalogWithDrops
  cases rows with
  | nil =>
    have served : ∀ base, (mergeSeeded [] base).1 = base := fun _ => rfl
    simp [served]
  | cons row rows => simp

theorem overlay_key {base : ModelInfo} {record : ModelRecord} {owned : FieldGroup → Bool} {key : ModelInfoKey}
    (free : ∀ group, MODEL_INFO_FIELD_GROUP_OF key = some group → owned group = false) : overlayOwnedGroups base record owned key = base key := by
  unfold overlayOwnedGroups
  by_cases priced : key = .pricing
  · subst priced
    exact Function.update_self ..
  · rw [Function.update_of_ne priced]
    cases grouped : MODEL_INFO_FIELD_GROUP_OF key with
    | none => rfl
    | some group => simp [free group grouped]

theorem owned_claimed {bucket : List CatalogRow} {base : Option ModelRecord} {group : FieldGroup} (owned : (mergeRows bucket base).owned group = true) :
    ∃ row ∈ bucket, row.owns group = true := by
  simp only [mergeRows, winnersOf_get?] at owned
  obtain ⟨row, wins⟩ := Option.isSome_iff_exists.mp owned
  obtain ⟨member, contender⟩ := List.mem_filter.mp (List.argmax_mem wins)
  exact ⟨row, member, (Bool.and_eq_true_iff.mp contender).1⟩

theorem mergeSeeded_key (rows : List CatalogRow) (base : ModelInfo) (key : ModelInfoKey)
    (free : ∀ group, MODEL_INFO_FIELD_GROUP_OF key = some group → ∀ row ∈ rows, row.modelId = modelIdOf base → row.owns group = false) :
    (mergeSeeded rows base).1 key = base key := by
  have unowned : ∀ group, MODEL_INFO_FIELD_GROUP_OF key = some group →
      (mergeRows (bucketOf rows (modelIdOf base)) (some (toModelRecord base))).owned group = false := by
    intro group grouped
    by_contra owned
    obtain ⟨row, member, owns⟩ := owned_claimed (Bool.eq_true_of_not_eq_false owned)
    obtain ⟨there, mine⟩ := List.mem_filter.mp member
    rw [free group grouped row there (of_decide_eq_true mine)] at owns
    cases owns
  unfold mergeSeeded
  simp only
  split
  · rfl
  · split
    · rfl
    · split
      · split
        · exact overlay_key fun group grouped => by rw [unowned group grouped, Bool.and_false]
        · exact overlay_key unowned
      · exact overlay_key unowned

end Bike4Mind.ModelCatalog
