import Bike4Mind.DataLakes.Departures

/-! Curators share a lake without letting anybody manage it. -/

namespace Bike4Mind.DataLakes
open Collections

/-- The grants, and the rows the sharing door has written to them, newest first. -/
structure AccessState where
  grants : GrantTable
  written : List LakeGrant := []

inductive AccessCall where
  | grant (accounts : List Account) (actor : ManageActor) (input : GrantLakeAccessInput)
  | revoke (actor : ManageActor) (principalType : PrincipalType) (principalId : String)

def AccessCall.actor : AccessCall → ManageActor
  | grant _ actor _ | revoke actor _ _ => actor

namespace AccessState

def active (s : AccessState) (lake : DataLake) (asOf : Time) : List LakeGrant := lakeGrants (grantRows s.grants) lake.id.val asOf

def owners (s : AccessState) (lake : DataLake) (asOf : Time) : List String :=
  resolveEffectiveOwnerIds lake.createdByUserId (s.active lake asOf)

def manages (s : AccessState) (lake : DataLake) (asOf : Time) (principal : ManageActor) : Bool :=
  canManageLake lake principal (s.active lake asOf)

end AccessState

section Calls
variable (sameAddress : String → String → Bool) (lake : DataLake)

def AccessCall.perform (now : Time) (s : AccessState) : AccessCall → Except LakeRefusal AccessState
  | grant accounts actor input => do
    let (grants, result) ← grantLakeAccess sameAddress accounts actor lake (s.active lake now) input now s.grants
    return { grants, written := ⟨result.principalType, result.principalId, result.role⟩ :: s.written }
  | revoke actor principalType principalId => do
    let (grants, _) ← revokeLakeAccess actor lake (s.active lake now) principalType principalId s.grants
    return { s with grants }

def performAll : List (Time × AccessCall) → AccessState → Except LakeRefusal AccessState
  | [], s => return s
  | (now, call) :: rest, s => do performAll rest (← call.perform sameAddress lake now s)

/-- The actor manages the lake, and would not without their own curator grants. -/
def curatesAlone (actor : ManageActor) (grants : List LakeGrant) : Bool :=
  canManageLake lake actor grants && !canManageLake lake actor (withoutOwnCuratorGrant actor grants)

/-- Every call is made by somebody who only curates the lake. -/
def ByCurators : List (Time × AccessCall) → AccessState → Prop
  | [], _ => True
  | (now, call) :: rest, s => curatesAlone lake call.actor (s.active lake now) = true ∧
      ∀ s', call.perform sameAddress lake now s = .ok s' → ByCurators rest s'

/-- No grant to manage is created, reactivated or prolonged. -/
structure Unspread (s s' : AccessState) : Prop where
  rows : ∀ key terms, terms.role ≠ .reader → s'.grants.get? key = some terms → s.grants.get? key = some terms
  managers : ∀ asOf principal, s'.manages lake asOf principal = true → s.manages lake asOf principal = true

structure Contained (calls : List (Time × AccessCall)) (s s' : AccessState) : Prop where
  ownerRows : ∀ key terms, terms.role = .owner → (s'.grants.get? key = some terms ↔ s.grants.get? key = some terms)
  owners : ∀ asOf userId, userId ∈ s'.owners lake asOf ↔ userId ∈ s.owners lake asOf
  changed : ∀ key terms, s'.grants.get? key = some terms →
    s.grants.get? key = some terms ∨ key.dataLakeId = lake.id.val ∧ ⟨key.principalType, key.principalId, terms.role⟩ ∈ s'.written
  organizations : ∀ row ∈ s'.written, row ∈ s.written ∨
    (row.principalType = .organization → normalizeId lake.organizationId = some row.principalId ∧ row.role = .reader)
  unspread : ∀ earlier byCurators later s₁ s₂, calls = earlier ++ byCurators ++ later → performAll sameAddress lake earlier s = .ok s₁ →
    performAll sameAddress lake byCurators s₁ = .ok s₂ → ByCurators sameAddress lake byCurators s₁ → Unspread lake s₁ s₂

end Calls

section Facts
variable {sameAddress : String → String → Bool} {lake : DataLake} {s s' : AccessState} {now asOf : Time} {table table' : GrantTable}

/-! ### What a call writes -/

/-- The rows of owners are the same in both. -/
def SameOwners (table table' : GrantTable) : Prop :=
  ∀ key terms, terms.role = .owner → (table'.get? key = some terms ↔ table.get? key = some terms)

theorem refuseGrantWrite_organization {principalId : String} {role : AccessRole} {expiresAt : Option (Option Time)}
    (ok : refuseGrantWrite lake .organization principalId role expiresAt now = none) :
    normalizeId lake.organizationId = some principalId ∧ role = .reader := by
  unfold refuseGrantWrite at ok
  split at ok
  · cases ok
  split at ok
  · cases ok
  rename_i ordinary
  split at ok
  · cases ok
  rw [if_pos rfl] at ok
  split at ok
  · cases ok
  split at ok
  · cases ok
  rename_i own
  split at ok
  · cases ok
  rename_i uncurated
  refine ⟨not_not.mp own, ?_⟩
  cases role with
  | owner => exact (ordinary rfl).elim
  | curator => exact (uncurated rfl).elim
  | reader => rfl

/-- The row written is the one answered, of the lake's own organization where it names one. -/
theorem grantLakeAccess_answers {accounts : List Account} {actor : ManageActor} {grants : List LakeGrant} {input : GrantLakeAccessInput}
    {result : GrantLakeAccessResult} (ok : grantLakeAccess sameAddress accounts actor lake grants input now table = .ok (table', result)) :
    result.role = input.role ∧
    (result.principalType = .organization → normalizeId lake.organizationId = some result.principalId ∧ result.role = .reader) ∧
    (input.role = .curator → canManageLake lake actor (withoutOwnCuratorGrant actor grants) = true) := by
  unfold grantLakeAccess at ok
  obtain ⟨-, -, ok⟩ := bind_ok ok
  obtain ⟨principalId, -, ok⟩ := bind_ok ok
  obtain ⟨⟨⟩, permitted, ok⟩ := bind_ok ok
  obtain ⟨⟨⟩, -, ok⟩ := bind_ok ok
  obtain ⟨⟨⟩, entitled, ok⟩ := bind_ok ok
  have permitted := refused_ok permitted
  have entitled := refused_ok entitled
  cases ok
  refine ⟨rfl, fun (organization : input.principalType = .organization) => ?_, fun curator => ?_⟩
  · rw [organization] at permitted
    exact refuseGrantWrite_organization permitted
  · by_contra unentitled
    rw [if_pos ⟨curator, Bool.not_eq_true _ ▸ unentitled⟩] at entitled
    cases entitled

theorem sameOwners_upsert {key : GrantKey} {role : AccessRole} {grantedBy : String} {expiresAt : Option (Option Time)} (ordinary : role ≠ .owner)
    (unowned : ∀ terms, table.get? key = some terms → terms.role ≠ .owner) :
    SameOwners table (upsertGrant table key role grantedBy expiresAt) := by
  intro key' terms owner
  rw [get?_upsertGrant]
  split
  · rename_i same
    rw [same]
    refine iff_of_false (fun written => ?_) fun found => unowned terms found owner
    cases written
    exact ordinary owner
  · exact Iff.rfl

theorem sameOwners_remove {key : GrantKey} (unowned : ∀ terms, table.get? key = some terms → terms.role ≠ .owner) :
    SameOwners table (removeGrant table key) := by
  intro key' terms owner
  rw [removeGrant, OrderedMap.get?_erase]
  split
  · rename_i same
    rw [same]
    exact iff_of_false (Option.some_ne_none _).symm fun found => unowned terms found owner
  · exact Iff.rfl

/-! ### Who manages by the rows -/

theorem SameOwners.ownsAt {dataLakeId userId : String} (same : SameOwners table table') :
    OwnsAt table' asOf dataLakeId userId ↔ OwnsAt table asOf dataLakeId userId := by
  refine exists_congr fun terms => ?_
  by_cases owner : terms.role = .owner
  · rw [same _ terms owner]
  · simp [owner]

theorem SameOwners.owners {dataLakeId userId createdByUserId : String} (same : SameOwners table table') :
    userId ∈ resolveEffectiveOwnerIds createdByUserId (lakeGrants (grantRows table') dataLakeId asOf) ↔
      userId ∈ resolveEffectiveOwnerIds createdByUserId (lakeGrants (grantRows table) dataLakeId asOf) := by
  by_cases named : userId = ""
  · exact iff_of_false (fun owner => owner_named owner named) fun owner => owner_named owner named
  · rw [effective_owner_iff named, effective_owner_iff named]
    simp only [same.ownsAt]

theorem managers_kept (same : SameOwners s.grants s'.grants)
    (rows : ∀ key terms, terms.role ≠ .reader → s'.grants.get? key = some terms → s.grants.get? key = some terms)
    {principal : ManageActor} (manages : s'.manages lake asOf principal = true) : s.manages lake asOf principal = true := by
  have kept : ∀ g ∈ s'.active lake asOf, g.role ≠ .reader → g ∈ s.active lake asOf := by
    intro g member above
    obtain ⟨terms, found, role, live⟩ := mem_lakeGrants_rows.mp member
    exact mem_lakeGrants_rows.mpr ⟨terms, rows _ terms (by rw [role]; exact above) found, role, live⟩
  unfold AccessState.manages at manages ⊢
  by_cases admin : principal.isAdmin = true
  · unfold canManageLake
    rw [if_pos admin]
  rw [Bool.not_eq_true] at admin
  by_cases named : principal.userId = ""
  · unfold canManageLake at manages
    rw [admin, if_neg Bool.false_ne_true, if_pos named] at manages
    cases manages
  rw [canManageLake_iff admin named] at manages ⊢
  rcases manages with owner | ⟨g, member, isUser, own, curator⟩ | organization | ⟨personal, g, member, isOrganization, role, administered⟩
  · exact Or.inl (same.owners.mp owner)
  · exact Or.inr (Or.inl ⟨g, kept g member (by simp [curator]), isUser, own, curator⟩)
  · exact Or.inr (Or.inr (Or.inl organization))
  · refine Or.inr (Or.inr (Or.inr ⟨personal, g, kept g member ?_, isOrganization, role, administered⟩))
    rcases role with owner | curator
    · simp [owner]
    · simp [curator]

/-! ### One call -/

/-- What a call leaves of the grants and adds to the rows written. -/
structure Effect (lake : DataLake) (s s' : AccessState) : Prop where
  ownerRows : SameOwners s.grants s'.grants
  written : ∃ rows, s'.written = rows ++ s.written ∧
    (∀ row ∈ rows, row.principalType = .organization → normalizeId lake.organizationId = some row.principalId ∧ row.role = .reader) ∧
    ∀ key terms, s'.grants.get? key = some terms →
      s.grants.get? key = some terms ∨ key.dataLakeId = lake.id.val ∧ ⟨key.principalType, key.principalId, terms.role⟩ ∈ rows

theorem perform_effect {call : AccessCall} (performed : call.perform sameAddress lake now s = .ok s') : Effect lake s s' := by
  cases call with
  | grant accounts actor input =>
    obtain ⟨⟨table, result⟩, ok, performed⟩ := bind_ok performed
    cases performed
    obtain ⟨expiresAt, upserted, ordinary, unowned⟩ := grantLakeAccess_ok ok
    obtain ⟨role, organization, -⟩ := grantLakeAccess_answers ok
    refine ⟨upserted ▸ sameOwners_upsert ordinary unowned, [_], rfl, fun row member => ?_, fun key terms found => ?_⟩
    · cases List.mem_singleton.mp member
      exact organization
    · have found : table.get? key = some terms := found
      rw [upserted, get?_upsertGrant] at found
      split at found
      · rename_i same
        cases found
        rw [same, role]
        exact Or.inr ⟨rfl, List.mem_singleton_self _⟩
      · exact Or.inl found
  | revoke actor principalType principalId =>
    obtain ⟨⟨table, revoked⟩, ok, performed⟩ := bind_ok performed
    cases performed
    rcases revokeLakeAccess_ok ok with same | ⟨removed, unowned⟩
    · subst same
      exact ⟨fun _ _ _ => Iff.rfl, [], rfl, fun row member => absurd member List.not_mem_nil, fun key terms found => Or.inl found⟩
    · refine ⟨removed ▸ sameOwners_remove unowned, [], rfl, fun row member => absurd member List.not_mem_nil, fun key terms found => ?_⟩
      have found : table.get? key = some terms := found
      rw [removed, removeGrant, OrderedMap.get?_erase] at found
      split at found
      · cases found
      · exact Or.inl found

theorem perform_unspread {call : AccessCall} (performed : call.perform sameAddress lake now s = .ok s')
    (curates : curatesAlone lake call.actor (s.active lake now) = true) (key : GrantKey) (terms : GrantTerms) (above : terms.role ≠ .reader)
    (found : s'.grants.get? key = some terms) : s.grants.get? key = some terms := by
  cases call with
  | grant accounts actor input =>
    obtain ⟨⟨table, result⟩, ok, performed⟩ := bind_ok performed
    cases performed
    obtain ⟨expiresAt, upserted, ordinary, -⟩ := grantLakeAccess_ok ok
    obtain ⟨-, -, entitled⟩ := grantLakeAccess_answers ok
    have unentitled : canManageLake lake actor (withoutOwnCuratorGrant actor (s.active lake now)) = false := by
      have both : canManageLake lake actor (s.active lake now) = true ∧
          canManageLake lake actor (withoutOwnCuratorGrant actor (s.active lake now)) = false := by
        simpa [curatesAlone, AccessCall.actor] using curates
      exact both.2
    have reader : input.role = .reader := by
      cases role : input.role with
      | owner => exact (ordinary role).elim
      | curator =>
        rw [entitled role] at unentitled
        cases unentitled
      | reader => rfl
    have found : table.get? key = some terms := found
    rw [upserted, get?_upsertGrant] at found
    split at found
    · cases found
      exact (above reader).elim
    · exact found
  | revoke actor principalType principalId =>
    obtain ⟨⟨table, revoked⟩, ok, performed⟩ := bind_ok performed
    cases performed
    have found : table.get? key = some terms := found
    rcases revokeLakeAccess_ok ok with same | ⟨removed, -⟩
    · rw [same] at found
      exact found
    · rw [removed, removeGrant, OrderedMap.get?_erase] at found
      split at found
      · cases found
      · exact found

/-! ### Sequences of calls -/

theorem Effect.refl : Effect lake s s where
  ownerRows _ _ _ := Iff.rfl
  written := ⟨[], rfl, fun _ member => absurd member List.not_mem_nil, fun _ _ found => Or.inl found⟩

theorem Effect.trans {s'' : AccessState} (first : Effect lake s s') (second : Effect lake s' s'') : Effect lake s s'' where
  ownerRows key terms owner := (second.ownerRows key terms owner).trans (first.ownerRows key terms owner)
  written := by
    obtain ⟨rows, grown, own, changed⟩ := first.written
    obtain ⟨rows', grown', own', changed'⟩ := second.written
    refine ⟨rows' ++ rows, by rw [grown', grown, List.append_assoc], fun row member => ?_, fun key terms found => ?_⟩
    · rcases List.mem_append.mp member with new | old
      · exact own' row new
      · exact own row old
    · rcases changed' key terms found with before | ⟨here, new⟩
      · exact (changed key terms before).imp_right fun changed => ⟨changed.1, List.mem_append_right _ changed.2⟩
      · exact Or.inr ⟨here, List.mem_append_left _ new⟩

theorem performAll_effect {calls : List (Time × AccessCall)} (performed : performAll sameAddress lake calls s = .ok s') : Effect lake s s' := by
  induction calls generalizing s with
  | nil =>
    cases performed
    exact .refl
  | cons first rest ih =>
    obtain ⟨now, call⟩ := first
    obtain ⟨mid, once, performed⟩ := bind_ok performed
    exact (perform_effect once).trans (ih performed)

theorem performAll_unspread {calls : List (Time × AccessCall)} (performed : performAll sameAddress lake calls s = .ok s')
    (byCurators : ByCurators sameAddress lake calls s) : Unspread lake s s' := by
  have rows : ∀ key terms, terms.role ≠ .reader → s'.grants.get? key = some terms → s.grants.get? key = some terms := by
    induction calls generalizing s with
    | nil =>
      cases performed
      exact fun _ _ _ found => found
    | cons first rest ih =>
      obtain ⟨now, call⟩ := first
      obtain ⟨mid, once, performed⟩ := bind_ok performed
      intro key terms above found
      exact perform_unspread once byCurators.1 key terms above (ih performed (byCurators.2 mid once) key terms above found)
  exact ⟨rows, fun asOf principal => managers_kept (performAll_effect performed).ownerRows rows⟩

end Facts

/-- Over any sequence of calls, curators alone let nobody manage the lake, and nobody changes its owners. -/
theorem curatorship_contained (sameAddress : String → String → Bool) (lake : DataLake) (grants : GrantTable) (calls : List (Time × AccessCall))
    (s' : AccessState) (performed : performAll sameAddress lake calls { grants } = .ok s') :
    Contained sameAddress lake calls { grants } s' := by
  have effect := performAll_effect performed
  obtain ⟨rows, grown, own, changed⟩ := effect.written
  have all : s'.written = rows := grown.trans (List.append_nil rows)
  refine ⟨effect.ownerRows, fun asOf userId => effect.ownerRows.owners, fun key terms found => ?_, fun row member => ?_, ?_⟩
  · rw [all]
    exact changed key terms found
  · exact Or.inr (own row (all ▸ member))
  · intro earlier byCurators later s₁ s₂ _ _ performed curators
    exact performAll_unspread performed curators

def curatedGrants : GrantTable :=
  upsertGrant (seedOwnerGrant ∅ teamLake.id.val "creator") ⟨teamLake.id.val, .user, "curator"⟩ .curator "creator" none

/-- A curator shares the lake with its organization, and takes that back. -/
def sharedByCurator : List (Time × AccessCall) :=
  [(1, .grant [] { userId := "curator" } { principalType := .organization, principalId := some "team", role := .reader }),
    (2, .revoke { userId := "curator" } .organization "team")]

theorem shared_by_curator : ∃ s', performAll (· == ·) teamLake sharedByCurator { grants := curatedGrants } = .ok s' ∧
    Contained (· == ·) teamLake sharedByCurator { grants := curatedGrants } s' := by
  have succeeds : (performAll (· == ·) teamLake sharedByCurator { grants := curatedGrants }).toOption.isSome = true := by decide
  cases performed : performAll (· == ·) teamLake sharedByCurator { grants := curatedGrants } with
  | error refusal =>
    rw [performed] at succeeds
    cases succeeds
  | ok s' => exact ⟨s', rfl, curatorship_contained (· == ·) teamLake curatedGrants sharedByCurator s' performed⟩

end Bike4Mind.DataLakes
