import Bike4Mind.DataLakes.GrantWrites

/-! What the writers of grants leave on each row, and who owns a lake by its rows. -/

namespace Bike4Mind.DataLakes
open Collections

def userKey (dataLakeId userId : String) : GrantKey := ⟨dataLakeId, .user, userId⟩

def GrantTerms.activeAsOf (asOf : Time) (terms : GrantTerms) : Bool := terms.expiresAt.all (asOf < ·)

/-! ### The table and its rows -/

section Rows
variable {table : GrantTable} {asOf : Time} {dataLakeId userId createdByUserId : String}

theorem mem_grantRows {row : AccessGrant} : row ∈ grantRows table ↔
    table.get? row.key = some { role := row.role, grantedByUserId := row.grantedByUserId, expiresAt := row.expiresAt } := by
  rw [grantRows, List.mem_map, OrderedMap.get?_eq_some_iff]
  constructor
  · rintro ⟨entry, member, rfl⟩
    exact member
  · exact fun member => ⟨_, member, rfl⟩

theorem mem_lakeGrants_rows {g : LakeGrant} : g ∈ lakeGrants (grantRows table) dataLakeId asOf ↔
    ∃ terms, table.get? ⟨dataLakeId, g.principalType, g.principalId⟩ = some terms ∧ terms.role = g.role ∧ terms.activeAsOf asOf = true := by
  rw [mem_lakeGrants]
  constructor
  · rintro ⟨row, member, rfl, live, rfl⟩
    exact ⟨_, mem_grantRows.mp member, rfl, live⟩
  · rintro ⟨terms, found, role, live⟩
    refine ⟨grantRow (⟨dataLakeId, g.principalType, g.principalId⟩, terms), mem_grantRows.mpr found, rfl, live, ?_⟩
    rw [show g = ⟨g.principalType, g.principalId, g.role⟩ from rfl, ← role]
    rfl

/-- An owner grant of a user, active at the time asked. -/
def OwnsAt (table : GrantTable) (asOf : Time) (dataLakeId userId : String) : Prop :=
  ∃ terms, table.get? (userKey dataLakeId userId) = some terms ∧ terms.role = .owner ∧ terms.activeAsOf asOf = true

theorem ownsAt_iff : OwnsAt table asOf dataLakeId userId ↔
    ∃ g ∈ lakeGrants (grantRows table) dataLakeId asOf, g.principalType = .user ∧ g.role = .owner ∧ g.principalId = userId := by
  constructor
  · rintro ⟨terms, found, role, live⟩
    exact ⟨⟨.user, userId, .owner⟩, mem_lakeGrants_rows.mpr ⟨terms, found, role, live⟩, rfl, rfl, rfl⟩
  · rintro ⟨⟨_, _, _⟩, member, rfl, rfl, rfl⟩
    exact mem_lakeGrants_rows.mp member

theorem effective_owner_iff (named : userId ≠ "") :
    userId ∈ resolveEffectiveOwnerIds createdByUserId (lakeGrants (grantRows table) dataLakeId asOf) ↔
      OwnsAt table asOf dataLakeId userId ∨ createdByUserId = userId ∧ ∀ other ≠ "", ¬OwnsAt table asOf dataLakeId other := by
  rw [mem_resolveEffectiveOwnerIds named, ← ownsAt_iff]
  refine or_congr_right (and_congr_right fun _ => ⟨fun unowned other blank owns => ?_, fun unowned g member => ?_⟩)
  · obtain ⟨g, member, isUser, isOwner, rfl⟩ := ownsAt_iff.mp owns
    have owned := unowned g member
    simp [LakeGrant.ownsAsUser, isUser, isOwner, blank] at owned
  · by_contra owned
    obtain ⟨isUser, isOwner, blank⟩ : g.principalType = .user ∧ g.role = .owner ∧ g.principalId ≠ "" := by
      simpa [LakeGrant.ownsAsUser] using owned
    exact unowned g.principalId blank (ownsAt_iff.mpr ⟨g, member, isUser, isOwner, rfl⟩)

theorem owner_named {grants : List LakeGrant} (owner : userId ∈ resolveEffectiveOwnerIds createdByUserId grants) : userId ≠ "" := by
  unfold resolveEffectiveOwnerIds at owner
  dsimp only at owner
  split at owner
  · rw [mem_distinct, List.mem_map] at owner
    obtain ⟨g, member, rfl⟩ := owner
    have owned := (List.mem_filter.mp member).2
    simp only [LakeGrant.ownsAsUser, Bool.and_eq_true, bne_iff_ne] at owned
    exact owned.2
  · split at owner
    · rename_i given
      rw [List.mem_singleton.mp owner]
      exact given
    · cases owner

theorem owners_nonempty {grants : List LakeGrant} (created : createdByUserId ≠ "") :
    resolveEffectiveOwnerIds createdByUserId grants ≠ [] := by
  unfold resolveEffectiveOwnerIds
  dsimp only
  split
  · rename_i granted
    obtain ⟨id, member⟩ := List.exists_mem_of_ne_nil _ granted
    exact List.ne_nil_of_mem (mem_distinct.mpr member)
  · exact List.cons_ne_nil _ _

end Rows

/-! ### What each writer leaves on a row -/

section Writes
variable {table : GrantTable} {key : GrantKey} {dataLakeId grantedBy successor : String} {now : Time}

theorem get?_upsertGrant {key' : GrantKey} {role : AccessRole} {expiresAt : Option (Option Time)} :
    (upsertGrant table key' role grantedBy expiresAt).get? key = if key = key' then
      some { role, grantedByUserId := grantedBy, expiresAt := expiresAt.getD ((findGrant table key').bind (·.expiresAt)) }
    else table.get? key := OrderedMap.get?_set _ _ _ _

theorem get?_demoted {userIds : List String} : (userIds.foldl (demote dataLakeId grantedBy) table).get? key =
    if key.dataLakeId = dataLakeId ∧ key.principalType = .user ∧ key.principalId ∈ userIds then
      some { role := .curator, grantedByUserId := grantedBy, expiresAt := none }
    else table.get? key := by
  induction userIds generalizing table with
  | nil => simp
  | cons userId rest ih =>
    rw [List.foldl_cons, ih, demote, get?_upsertGrant]
    rcases key with ⟨id, type, principal⟩
    by_cases here : id = dataLakeId ∧ type = .user
    · obtain ⟨rfl, rfl⟩ := here
      by_cases again : principal ∈ rest
      · simp [again]
      · by_cases first : principal = userId
        · simp [first]
        · simp [again, first]
    · have elsewhere : ∀ other, (⟨id, type, principal⟩ : GrantKey) ≠ ⟨dataLakeId, .user, other⟩ := by
        rintro other ⟨⟩
        exact here ⟨rfl, rfl⟩
      rw [if_neg fun h => here ⟨h.1, h.2.1⟩, if_neg (elsewhere userId), if_neg fun h => here ⟨h.1, h.2.1⟩]

theorem get?_succeeded {lakes : List DataLake} : (lakes.foldl (succeed successor grantedBy) table).get? key =
    if key.principalType = .user ∧ key.principalId = successor ∧ key.dataLakeId ∈ lakes.map (·.id.val) then
      some { role := .owner, grantedByUserId := grantedBy, expiresAt := none }
    else table.get? key := by
  induction lakes generalizing table with
  | nil => simp
  | cons lake rest ih =>
    rw [List.foldl_cons, ih, succeed, get?_upsertGrant]
    rcases key with ⟨id, type, principal⟩
    by_cases here : type = .user ∧ principal = successor
    · obtain ⟨rfl, rfl⟩ := here
      by_cases again : id ∈ rest.map (·.id.val)
      · simp [again]
      · by_cases first : id = lake.id.val
        · simp [first]
        · simp [again, first]
    · have elsewhere : ∀ other, (⟨id, type, principal⟩ : GrantKey) ≠ ⟨other, .user, successor⟩ := by
        rintro other ⟨⟩
        exact here ⟨rfl, rfl⟩
      rw [if_neg fun h => here ⟨h.1, h.2.1⟩, if_neg (elsewhere lake.id.val), if_neg fun h => here ⟨h.1, h.2.1⟩]

/-- The terms a row was read with, up to its expiry. -/
def readFrom (table : GrantTable) (row : AccessGrant) : Prop :=
  ∃ expiresAt, table.get? row.key = some { role := row.role, grantedByUserId := row.grantedByUserId, expiresAt }

theorem get?_expired {rows : List AccessGrant} (read : ∀ row ∈ rows, readFrom table row) :
    (rows.foldl (expireGrant now) table).get? key =
      if key ∈ rows.map (·.key) then (table.get? key).map fun terms => { terms with expiresAt := some now } else table.get? key := by
  induction rows generalizing table with
  | nil => simp
  | cons row rest ih =>
    obtain ⟨expiresAt, found⟩ := read row List.mem_cons_self
    have step : ∀ key, (expireGrant now table row).get? key =
        if key = row.key then some { role := row.role, grantedByUserId := row.grantedByUserId, expiresAt := some now } else table.get? key :=
      fun key => get?_upsertGrant
    have still : ∀ later ∈ rest, readFrom (expireGrant now table row) later := by
      intro later member
      obtain ⟨e, there⟩ := read later (List.mem_cons_of_mem _ member)
      unfold readFrom
      rw [step]
      split
      · rename_i same
        rw [same, found, Option.some.injEq, GrantTerms.mk.injEq] at there
        exact ⟨some now, by rw [there.1, there.2.1]⟩
      · exact ⟨e, there⟩
    rw [List.foldl_cons, ih still, step]
    by_cases first : key = row.key
    · subst first
      by_cases again : row.key ∈ rest.map (·.key)
      · simp [again, found]
      · simp [again, found]
    · simp [first]

variable {userId holder : String} {orgLakes : List DataLake}

/-- The grants of the one who leaves end now, unless they ended before. -/
theorem get?_lapseOwnGrants (listed : dataLakeId ∈ orgLakes.map (·.id.val)) :
    (lapseOwnGrants userId orgLakes now table).1.get? (userKey dataLakeId holder) =
      if holder = userId then (table.get? (userKey dataLakeId holder)).map fun terms =>
        if terms.activeAsOf now then { terms with expiresAt := some now } else terms
      else table.get? (userKey dataLakeId holder) := by
  have lapsing : ∀ row, row ∈ (listByPrincipal (grantRows table) .user userId now).filter (fun grant => orgLakes.any (·.id.val == grant.dataLakeId)) ↔
      table.get? row.key = some { role := row.role, grantedByUserId := row.grantedByUserId, expiresAt := row.expiresAt } ∧
      row.principalType = .user ∧ row.principalId = userId ∧ row.activeAsOf now = true ∧ row.dataLakeId ∈ orgLakes.map (·.id.val) := by
    intro row
    rw [List.mem_filter, mem_listByPrincipal, mem_grantRows]
    simp [and_assoc]
  unfold lapseOwnGrants
  rw [get?_expired fun row member => ⟨_, ((lapsing row).mp member).1⟩]
  have hit : userKey dataLakeId holder ∈ ((listByPrincipal (grantRows table) .user userId now).filter
        (fun grant => orgLakes.any (·.id.val == grant.dataLakeId))).map (·.key) ↔
      holder = userId ∧ ∃ terms, table.get? (userKey dataLakeId holder) = some terms ∧ terms.activeAsOf now = true := by
    rw [List.mem_map]
    constructor
    · rintro ⟨row, member, same⟩
      obtain ⟨found, isUser, own, live, -⟩ := (lapsing row).mp member
      have principal : row.principalId = holder := congrArg GrantKey.principalId same
      rw [same] at found
      exact ⟨principal.symm.trans own, ⟨row.role, row.grantedByUserId, row.expiresAt⟩, found, live⟩
    · rintro ⟨rfl, terms, found, live⟩
      exact ⟨grantRow (userKey dataLakeId holder, terms), (lapsing _).mpr ⟨found, rfl, rfl, live, listed⟩, rfl⟩
  by_cases leaving : holder = userId
  · rcases found : table.get? (userKey dataLakeId holder) with - | terms
    · simp
    · by_cases live : terms.activeAsOf now = true
      · rw [if_pos (hit.mpr ⟨leaving, terms, found, live⟩)]
        simp [leaving, live]
      · rw [if_neg]
        · simp [leaving, live]
        · rw [hit, found]
          rintro ⟨-, other, same, active⟩
          cases same
          exact live active
  · rw [if_neg fun h => leaving (hit.mp h).1, if_neg leaving]

/-- A lake the one who leaves created and nobody else owns goes to the organization's owner. -/
theorem get?_passOnCreatedLakes {organization : Organization} {lake : DataLake} (named : organization.userId ≠ "")
    (other : organization.userId ≠ userId) (unique : (orgLakes.map (·.id)).Nodup) (member : lake ∈ orgLakes) :
    (passOnCreatedLakes userId organization orgLakes grantedBy now table).1.get? (userKey lake.id.val holder) =
      if holder = organization.userId ∧ lake.createdByUserId = userId ∧
          ∀ owner ∈ resolveEffectiveOwnerIds lake.createdByUserId (lakeGrants (grantRows table) lake.id.val now), owner = userId then
        some { role := .owner, grantedByUserId := grantedBy, expiresAt := none }
      else table.get? (userKey lake.id.val holder) := by
  unfold passOnCreatedLakes
  dsimp only
  rw [if_neg fun h => h.elim named other]
  dsimp only
  rw [get?_succeeded]
  refine if_congr ?_ rfl rfl
  have passed : ∀ lake ∈ orgLakes, lake.createdByUserId = userId → (!hasOtherOwner userId ((listActiveByLakes (grantRows table)
      ((orgLakes.filter (·.createdByUserId == userId)).map (·.id.val)) now).foldl addLakeGrant ∅) lake) =
      decide (∀ owner ∈ resolveEffectiveOwnerIds lake.createdByUserId (lakeGrants (grantRows table) lake.id.val now), owner = userId) := by
    intro lake member created
    have gathered : lake.id.val ∈ (orgLakes.filter (·.createdByUserId == userId)).map (·.id.val) :=
      List.mem_map.mpr ⟨lake, List.mem_filter.mpr ⟨member, by simp [created]⟩, rfl⟩
    unfold hasOtherOwner
    rw [gathered_lakeGrants gathered, Bool.eq_iff_iff]
    simp
  constructor
  · rintro ⟨-, same, listed⟩
    obtain ⟨lake', passes, here⟩ := List.mem_map.mp listed
    obtain ⟨created, passes⟩ := List.mem_filter.mp passes
    obtain ⟨member', created⟩ := List.mem_filter.mp created
    cases List.inj_on_of_nodup_map unique member' member (Subtype.ext here)
    have created : lake.createdByUserId = userId := by simpa using created
    rw [passed lake member created] at passes
    exact ⟨same, created, of_decide_eq_true passes⟩
  · rintro ⟨same, created, alone⟩
    refine ⟨rfl, same, List.mem_map.mpr ⟨lake, List.mem_filter.mpr ⟨List.mem_filter.mpr ⟨member, by simp [created]⟩, ?_⟩, rfl⟩⟩
    rw [passed lake member created]
    exact decide_eq_true alone

end Writes
end Bike4Mind.DataLakes
