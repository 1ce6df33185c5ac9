import Bike4Mind.Concurrency.History
import Bike4Mind.DataLakes.Departures
import Bike4Mind.DataLakes.OwnershipOffers

/-! An ownership offer moves a lake at most once, from the owners it was made against to the one it was made to. -/

namespace Bike4Mind.DataLakes
open Collections Concurrency

/-! ### Reading the history -/

/-- The offers that left `pending`, and for which status. -/
def closings : List OfferEvent → List (String × OfferStatus)
  | [] => []
  | .closed id status :: earlier => (id, status) :: closings earlier
  | .accepted a :: earlier => (a.offer.id, .accepted) :: closings earlier
  | _ :: earlier => closings earlier

/-- The grants that a history leaves. -/
def grantsAfter (start : GrantTable) : List OfferEvent → GrantTable
  | [] => start
  | .accepted a :: _ => a.after
  | .door grants :: _ => grants
  | _ :: earlier => grantsAfter start earlier

def ownersBy (lake : DataLake) (grants : GrantTable) (asOf : Time) : List String :=
  resolveEffectiveOwnerIds lake.createdByUserId (lakeGrants (grantRows grants) lake.id.val asOf)

structure Rightful (lake : DataLake) (grants : GrantTable) (earlier : List OfferEvent) (a : Acceptance) : Prop where
  current : a.before = grants
  sameLake : a.lake.id = lake.id ∧ a.lake.createdByUserId = lake.createdByUserId
  made : .offered a.offer.id a.offer.toOwnershipOfferInput ∈ earlier
  recipient : a.recipientUserId = a.offer.recipientUserId
  unexpired : a.now < a.offer.expiresAt
  sameOwners : ∀ userId, userId ∈ ownersBy a.lake a.before a.now ↔ userId ∈ a.offer.priorOwnerUserIds
  sameOrganization : normalizeId a.lake.organizationId = a.offer.organizationId
  soleOwner : ∀ userId, userId ∈ ownersBy a.lake a.after a.now ↔ userId = a.recipientUserId
  demoted : ∀ userId ∈ a.offer.priorOwnerUserIds, userId ≠ a.recipientUserId →
    ∃ terms, a.after.get? (userKey a.lake.id.val userId) = some terms ∧ terms.role = .curator ∧ terms.expiresAt = none
  untouched : ∀ key, key ≠ userKey a.lake.id.val a.recipientUserId → (∀ userId ∈ a.offer.priorOwnerUserIds, key ≠ userKey a.lake.id.val userId) →
    a.after.get? key = a.before.get? key

/-- An offer names the owners and the organization that were read for it. -/
def Snapshot (start : GrantTable) (earlier : List OfferEvent) (input : OwnershipOfferInput) : Prop :=
  ∃ newer lake asOf grants older, earlier = newer ++ .accessed lake asOf grants :: older ∧
    input.priorOwnerUserIds = ownersBy lake (grantsAfter start older) asOf ∧ input.organizationId = normalizeId lake.organizationId

structure OffersSound (lake : DataLake) (start : GrantTable) (w : OfferWorld) : Prop where
  sole : ∀ o ∈ w.offers, ∀ o' ∈ w.offers, o.status = .pending → o'.status = .pending → o = o'
  leftOnce : ((closings w.log).map Prod.fst).Nodup
  left : ∀ o ∈ w.offers, o.status ≠ .pending ↔ (o.id, o.status) ∈ closings w.log
  grants : w.grants = grantsAfter start w.log
  snapshot : ∀ later id input earlier, w.log = later ++ .offered id input :: earlier → Snapshot start earlier input
  accepted : ∀ later a earlier, w.log = later ++ .accepted a :: earlier → Rightful lake (grantsAfter start earlier) earlier a
  once : ∀ a status, .accepted a ∈ w.log → (a.offer.id, status) ∈ closings w.log → status = .accepted

/-! ### The protocol of the calls -/

inductive OfferPhase where
  | idle
  | admitted (lake : DataLake) (grants : List LakeGrant)

def OfferOp.passive : OfferOp → Prop
  | clock | findUser _ | findOrganization _ | expirePendingForLake _ | findPendingForLake _ | findOffer _ | accept _ _ => True
  | _ => False

/-- An offer made from what was read. -/
structure MadeFrom (lake : DataLake) (grants : List LakeGrant) (input : OwnershipOfferInput) : Prop where
  owners : input.priorOwnerUserIds = resolveEffectiveOwnerIds lake.createdByUserId grants
  organization : input.organizationId = normalizeId lake.organizationId
  named : input.recipientUserId ≠ ""

inductive OfferMoves : Protocol OfferPhase OfferOp OfferOp.Value OfferError
  | stays {p : OfferPhase} {op : OfferOp} {reply : Except OfferError op.Value} : op.passive → OfferMoves p op reply p
  | admits {lake : DataLake} {grants : List LakeGrant} : OfferMoves .idle .accessLake (.ok (lake, grants)) (.admitted lake grants)
  | turnsAway {err : OfferError} : OfferMoves .idle .accessLake (.error err) .idle
  | creates {lake : DataLake} {grants : List LakeGrant} {input : OwnershipOfferInput} {reply : Except OfferError OwnershipOffer} :
      MadeFrom lake grants input → OfferMoves (.admitted lake grants) (.create input) reply .idle
  | closes {p : OfferPhase} {id : String} {status : OfferStatus} {reply : Except OfferError (Option OwnershipOffer)} :
      status = .declined ∨ status = .cancelled → OfferMoves p (.resolve id status) reply p

/-- A call may end anywhere. -/
def Anywhere {α : Type} : Except OfferError α → OfferPhase → Prop := fun _ _ => True

section Calls
variable {actor : LakeTransferActor} {lake : DataLake} {grants : List LakeGrant} {newOwnerUserId : String} {p : OfferPhase}

/-- Whoever is authorized to receive the lake has an account. -/
def Authorized (newOwnerUserId : String) (q : OfferPhase) : Except OfferError LakeTransferAuthorization → OfferPhase → Prop
  | .ok _, p => p = q ∧ newOwnerUserId ≠ ""
  | .error _, _ => True

theorem authorized_named {users : List UserDocument} {findOrganization : String → Option Organization} {authorization : LakeTransferAuthorization}
    (ok : authorizeLakeTransfer (users.map fun user => { id := user.id.val, email := none }) findOrganization actor lake grants newOwnerUserId =
      .ok authorization) : newOwnerUserId ≠ "" := by
  unfold authorizeLakeTransfer at ok
  dsimp only at ok
  split at ok
  · cases ok
  split at ok
  · cases ok
  split at ok
  · cases ok
  rename_i unknown
  obtain ⟨user, _, same⟩ : ∃ user ∈ users, user.id.val = newOwnerUserId := by simpa using unknown
  rw [← same]
  exact user.id.property

theorem settled_follows (users : List UserDocument) {findOrganization : String → Option Organization} :
    Follows OfferMoves (Authorized newOwnerUserId p) (settleAuthorization
      (authorizeLakeTransfer (users.map fun user => { id := user.id.val, email := none }) findOrganization actor lake grants newOwnerUserId)) p := by
  cases ok : authorizeLakeTransfer (users.map fun user => { id := user.id.val, email := none }) findOrganization actor lake grants newOwnerUserId with
  | ok authorization => exact ⟨rfl, authorized_named ok⟩
  | error refusal => cases refusal <;> trivial

theorem authorizeOffer_follows : Follows OfferMoves (Authorized newOwnerUserId p) (authorizeOffer actor lake grants newOwnerUserId) p := by
  unfold authorizeOffer
  split
  · exact settled_follows []
  · refine follows_then (fun found => ⟨p, .stays trivial, ?_⟩) fun e => ⟨p, .stays trivial, trivial⟩
    cases found with
    | none => exact settled_follows []
    | some user =>
      cases normalizeId lake.organizationId with
      | none => exact settled_follows [user]
      | some id =>
        exact follows_then (fun organization => ⟨p, .stays trivial, settled_follows [user]⟩) fun e =>
          ⟨p, .stays trivial, trivial⟩

theorem offerLakeOwnership_follows :
    Follows OfferMoves Anywhere (offerLakeOwnership actor lake grants newOwnerUserId) (.admitted lake grants) := by
  refine follows_seq authorizeOffer_follows (fun authorization q reached => ?_) fun _ _ _ => trivial
  obtain ⟨rfl, named⟩ := reached
  refine follows_then (fun now => ⟨_, .stays trivial, ?_⟩) fun e => ⟨_, .stays trivial, trivial⟩
  refine follows_then (fun _ => ⟨_, .stays trivial, ?_⟩) fun e => ⟨_, .stays trivial, trivial⟩
  refine follows_then (fun pending => ⟨_, .stays trivial, ?_⟩) fun e => ⟨_, .stays trivial, trivial⟩
  split
  · trivial
  · refine follows_tryCatch (follows_perform fun reply => ⟨.idle, .creates ⟨rfl, rfl, named⟩, ?_⟩)
    cases reply <;> trivial

theorem resolveOpen_follows {id : String} {status : OfferStatus} (closes : status = .declined ∨ status = .cancelled) :
    Follows OfferMoves Anywhere (resolveOpen id status) p := by
  refine follows_then (fun found => ⟨p, .closes closes, ?_⟩) fun e => ⟨p, .closes closes, trivial⟩
  cases found <;> trivial

theorem declineLakeOwnershipOffer_follows {recipientUserId offerId : String} :
    Follows OfferMoves Anywhere (declineLakeOwnershipOffer recipientUserId offerId) p := by
  refine follows_then (fun found => ⟨p, .stays trivial, ?_⟩) fun e => ⟨p, .stays trivial, trivial⟩
  split
  · trivial
  · exact resolveOpen_follows (Or.inl rfl)

theorem cancelLakeOwnershipOffer_follows : Follows OfferMoves Anywhere (cancelLakeOwnershipOffer actor lake grants) p := by
  refine follows_then (fun found => ⟨p, .stays trivial, ?_⟩) fun e => ⟨p, .stays trivial, trivial⟩
  split
  · trivial
  · dsimp only
    split
    · trivial
    · exact resolveOpen_follows (Or.inr rfl)

theorem offerRun_follows : (run : OfferRun) → Follows OfferMoves Anywhere run.program .idle
  | .offer _ _ => follows_then (fun found => ⟨.admitted found.1 found.2, .admits, offerLakeOwnership_follows⟩) fun _ =>
      ⟨.idle, .turnsAway, trivial⟩
  | .accept _ _ => follows_then (fun _ => ⟨.idle, .stays trivial, trivial⟩) fun _ => ⟨.idle, .stays trivial, trivial⟩
  | .decline _ _ => declineLakeOwnershipOffer_follows
  | .cancel _ => follows_then (fun found => ⟨.admitted found.1 found.2, .admits, cancelLakeOwnershipOffer_follows⟩) fun _ =>
      ⟨.idle, .turnsAway, trivial⟩

end Calls

/-! ### The rows of offers against the history -/

structure OfferRows (offers : List OwnershipOffer) (log : List OfferEvent) : Prop where
  sole : ∀ o ∈ offers, ∀ o' ∈ offers, o.status = .pending → o'.status = .pending → o = o'
  ids : (offers.map (·.id)).Nodup
  made : ∀ o ∈ offers, .offered o.id o.toOwnershipOfferInput ∈ log
  named : ∀ o ∈ offers, o.recipientUserId ≠ ""
  opened : ∀ o ∈ offers, o.status = .pending → ∀ status, (o.id, status) ∉ closings log
  left : ∀ o ∈ offers, o.status ≠ .pending → (o.id, o.status) ∈ closings log
  known : ∀ id status, (id, status) ∈ closings log → ∃ o ∈ offers, o.id = id
  leftOnce : ((closings log).map Prod.fst).Nodup

section Rows
variable {offers : List OwnershipOffer} {log log' : List OfferEvent} {picks : OwnershipOffer → Bool} {status : OfferStatus} {now : Time}

theorem mem_pendingWith {o : OwnershipOffer} : o ∈ pendingWith offers picks ↔ o ∈ offers ∧ o.status = .pending ∧ picks o = true := by
  unfold pendingWith
  rw [List.mem_filter, decide_eq_true_eq]

theorem mem_resolveOffers {o : OwnershipOffer} (member : o ∈ resolveOffers offers picks status now) :
    (o ∈ offers ∧ (o.status = .pending → picks o = false)) ∨ ∃ before ∈ pendingWith offers picks, o = before.resolved status now := by
  obtain ⟨before, stored, rfl⟩ := List.mem_map.mp member
  by_cases picked : before.status = .pending ∧ picks before = true
  · rw [if_pos picked]
    exact Or.inr ⟨before, mem_pendingWith.mpr ⟨stored, picked⟩, rfl⟩
  · rw [if_neg picked]
    exact Or.inl ⟨stored, fun pending => Bool.not_eq_true _ ▸ fun chosen => picked ⟨pending, chosen⟩⟩

theorem resolveOffers_ids : (resolveOffers offers picks status now).map (·.id) = offers.map (·.id) := by
  unfold resolveOffers
  rw [List.map_map]
  refine List.map_congr_left fun o _ => ?_
  rw [Function.comp_apply]
  split <;> rfl

theorem OfferRows.resolving (rows : OfferRows offers log) (leaves : status ≠ .pending)
    (recorded : closings log' = (pendingWith offers picks).map (fun o => (o.id, status)) ++ closings log)
    (grown : ∀ id input, .offered id input ∈ log → .offered id input ∈ log') : OfferRows (resolveOffers offers picks status now) log' where
  sole o member o' member' pending pending' := by
    rcases mem_resolveOffers member with ⟨stored, _⟩ | ⟨before, _, rfl⟩
    · rcases mem_resolveOffers member' with ⟨stored', _⟩ | ⟨before, _, rfl⟩
      · exact rows.sole o stored o' stored' pending pending'
      · exact (leaves pending').elim
    · exact (leaves pending).elim
  ids := by
    rw [resolveOffers_ids]
    exact rows.ids
  made o member := by
    rcases mem_resolveOffers member with ⟨stored, _⟩ | ⟨before, picked, rfl⟩
    · exact grown _ _ (rows.made o stored)
    · exact grown _ _ (rows.made before (mem_pendingWith.mp picked).1)
  named o member := by
    rcases mem_resolveOffers member with ⟨stored, _⟩ | ⟨before, picked, rfl⟩
    · exact rows.named o stored
    · exact rows.named before (mem_pendingWith.mp picked).1
  opened o member pending other := by
    rcases mem_resolveOffers member with ⟨stored, unpicked⟩ | ⟨before, _, rfl⟩
    · rw [recorded, List.mem_append, not_or]
      refine ⟨fun new => ?_, rows.opened o stored pending other⟩
      obtain ⟨gone, picked, same⟩ := List.mem_map.mp new
      obtain ⟨there, _, chosen⟩ := mem_pendingWith.mp picked
      cases List.inj_on_of_nodup_map rows.ids there stored (congrArg Prod.fst same)
      rw [unpicked pending] at chosen
      cases chosen
    · exact (leaves pending).elim
  left o member closed := by
    rw [recorded]
    rcases mem_resolveOffers member with ⟨stored, _⟩ | ⟨before, picked, rfl⟩
    · exact List.mem_append_right _ (rows.left o stored closed)
    · exact List.mem_append_left _ (List.mem_map.mpr ⟨before, picked, rfl⟩)
  known id other member := by
    have known : ∃ o ∈ offers, o.id = id := by
      rw [recorded] at member
      rcases List.mem_append.mp member with new | old
      · obtain ⟨gone, picked, same⟩ := List.mem_map.mp new
        exact ⟨gone, (mem_pendingWith.mp picked).1, congrArg Prod.fst same⟩
      · exact rows.known id other old
    have listed : id ∈ (resolveOffers offers picks status now).map (·.id) := by
      rw [resolveOffers_ids]
      exact List.mem_map.mpr known
    exact List.mem_map.mp listed
  leftOnce := by
    rw [recorded, List.map_append, List.map_map, List.nodup_append]
    refine ⟨rows.ids.sublist (List.filter_sublist.map _), rows.leftOnce, ?_⟩
    rintro id new id' old rfl
    obtain ⟨gone, picked, rfl⟩ := List.mem_map.mp new
    obtain ⟨⟨_, other⟩, before, rfl⟩ := List.mem_map.mp old
    obtain ⟨there, pending, _⟩ := mem_pendingWith.mp picked
    exact rows.opened gone there pending other before

theorem OfferRows.creating {input : OwnershipOfferInput} {id : String} (rows : OfferRows offers log) (named : input.recipientUserId ≠ "")
    (free : ∀ o ∈ offers, o.status ≠ .pending ∧ o.id ≠ id) : OfferRows ({ input with id } :: offers) (.offered id input :: log) where
  sole o member o' member' pending pending' := by
    rcases List.mem_cons.mp member with same | stored
    · rcases List.mem_cons.mp member' with same' | stored'
      · rw [same, same']
      · exact ((free o' stored').1 pending').elim
    · exact ((free o stored).1 pending).elim
  ids := by
    refine List.nodup_cons.mpr ⟨fun again => ?_, rows.ids⟩
    obtain ⟨o, stored, same⟩ := List.mem_map.mp again
    exact (free o stored).2 same
  made o member := by
    rcases List.mem_cons.mp member with same | stored
    · rw [same]
      exact List.mem_cons_self
    · exact List.mem_cons_of_mem _ (rows.made o stored)
  named o member := by
    rcases List.mem_cons.mp member with same | stored
    · rw [same]
      exact named
    · exact rows.named o stored
  opened o member pending status closed := by
    rcases List.mem_cons.mp member with same | stored
    · rw [same] at closed
      obtain ⟨known, stored, same⟩ := rows.known id status closed
      exact (free known stored).2 same
    · exact rows.opened o stored pending status closed
  left o member closed := by
    rcases List.mem_cons.mp member with same | stored
    · rw [same] at closed
      exact (closed rfl).elim
    · exact rows.left o stored closed
  known other status member := by
    obtain ⟨o, stored, same⟩ := rows.known other status member
    exact ⟨o, List.mem_cons_of_mem _ stored, same⟩
  leftOnce := rows.leftOnce

theorem OfferRows.extended (rows : OfferRows offers log) (closed : closings log' = closings log)
    (grown : ∀ id input, .offered id input ∈ log → .offered id input ∈ log') : OfferRows offers log' :=
  ⟨rows.sole, rows.ids, fun o stored => grown _ _ (rows.made o stored), rows.named, closed.symm ▸ rows.opened, closed.symm ▸ rows.left,
    closed.symm ▸ rows.known, closed.symm ▸ rows.leftOnce⟩

end Rows

/-! ### A transfer that is accepted -/

section Acceptances
variable {lake : DataLake} {w w' : OfferWorld} {reads : Reads} {recipientUserId offerId : String}

theorem refuseWhen_ok {refused : Bool} {message : String} (ok : refuseWhen refused message = .ok ()) : refused = false := by
  cases refused with
  | false => rfl
  | true => cases ok

theorem openOffer_ok {now : Time} {found : Option OwnershipOffer} {offer : OwnershipOffer} (ok : openOffer now recipientUserId found = .ok offer) :
    found = some offer ∧ offer.recipientUserId = recipientUserId ∧ offer.status = .pending ∧ now < offer.expiresAt := by
  unfold openOffer at ok
  split at ok
  · cases ok
  · rename_i addressed matched
    obtain ⟨⟨⟩, opened, ok⟩ := bind_ok ok
    obtain ⟨⟨⟩, alive, ok⟩ := bind_ok ok
    cases ok
    obtain ⟨there, recipient⟩ := Option.filter_eq_some_iff.mp matched
    have opened := refuseWhen_ok opened
    have alive := refuseWhen_ok alive
    refine ⟨there, beq_iff_eq.mp recipient, by simpa using opened, ?_⟩
    simpa using alive

/-- What an accept that succeeded has checked and left. -/
structure Accepted (w w' : OfferWorld) (a : Acceptance) : Prop where
  offered : a.offer ∈ w.offers ∧ a.offer.status = .pending
  lake : w.lake = some a.lake
  before : a.before = w.grants
  recipient : a.recipientUserId = a.offer.recipientUserId
  unexpired : a.now < a.offer.expiresAt
  owners : (ownersBy a.lake a.before a.now).Perm a.offer.priorOwnerUserIds
  organization : normalizeId a.lake.organizationId = a.offer.organizationId
  after : ∃ actor : ManageActor, a.after = (applyLakeOwnershipTransfer actor a.lake (lakeGrants (grantRows a.before) a.lake.id.val a.now)
    a.recipientUserId a.before).1
  left : w' = { w with
    grants := a.after
    offers := resolveOffers w.offers (·.id == a.offer.id) .accepted a.now
    log := .accepted a :: w.log }

theorem accept_ok {result : AcceptLakeOwnershipOfferResult} (ok : acceptLakeOwnershipOffer reads recipientUserId offerId w = .ok (w', result)) :
    ∃ a, Accepted w w' a := by
  unfold acceptLakeOwnershipOffer at ok
  obtain ⟨offer, opened, ok⟩ := bind_ok ok
  obtain ⟨lake, found, ok⟩ := bind_ok ok
  obtain ⟨⟨⟩, fresh, ok⟩ := bind_ok ok
  obtain ⟨⟨⟩, stayed, ok⟩ := bind_ok ok
  obtain ⟨⟨⟩, _, ok⟩ := bind_ok ok
  cases ok
  obtain ⟨there, recipient, pending, unexpired⟩ := openOffer_ok opened
  have here : w.lake = some lake := by
    cases at_ : w.lake <;> rw [at_] at found <;> cases found
    rfl
  have fresh : (resolveEffectiveOwnerIds lake.createdByUserId (w.activeGrants lake reads.now)).isPerm offer.priorOwnerUserIds = true := by
    simpa using refuseWhen_ok fresh
  have stayed := refuseWhen_ok stayed
  let offerer : ManageActor := { userId := offer.offeredByUserId, isAdmin := offer.offeredVia == .platformAdmin }
  let after := (applyLakeOwnershipTransfer offerer lake (w.activeGrants lake reads.now) recipientUserId w.grants).1
  exact ⟨⟨offer, recipientUserId, reads.now, lake, w.grants, after⟩, {
    offered := ⟨List.mem_of_find?_eq_some there, pending⟩
    lake := here
    before := rfl
    recipient := recipient.symm
    unexpired
    owners := List.isPerm_iff.mp fresh
    organization := by simpa using stayed
    after := ⟨offerer, rfl⟩
    left := rfl }⟩

theorem get?_transferred {actor : ManageActor} {grants : List LakeGrant} {table : GrantTable} {newOwnerUserId : String} {key : GrantKey} :
    (applyLakeOwnershipTransfer actor lake grants newOwnerUserId table).1.get? key =
      if key.dataLakeId = lake.id.val ∧ key.principalType = .user ∧
          key.principalId ∈ (resolveEffectiveOwnerIds lake.createdByUserId grants).filter (· ≠ newOwnerUserId) then
        some { role := .curator, grantedByUserId := actor.userId, expiresAt := none }
      else if key = userKey lake.id.val newOwnerUserId then some { role := .owner, grantedByUserId := actor.userId, expiresAt := none }
      else table.get? key := by
  unfold applyLakeOwnershipTransfer
  dsimp only
  rw [get?_demoted, get?_upsertGrant]
  rfl

theorem transferred_soleOwner {actor : ManageActor} {table : GrantTable} {newOwnerUserId userId : String} {now : Time} (named : newOwnerUserId ≠ "") :
    userId ∈ ownersBy lake (applyLakeOwnershipTransfer actor lake (lakeGrants (grantRows table) lake.id.val now) newOwnerUserId table).1 now ↔
      userId = newOwnerUserId := by
  have owns : ∀ other, OwnsAt (applyLakeOwnershipTransfer actor lake (lakeGrants (grantRows table) lake.id.val now) newOwnerUserId table).1 now
      lake.id.val other → other ≠ "" → other = newOwnerUserId := by
    rintro other ⟨terms, found, role, live⟩ given
    rw [get?_transferred] at found
    split at found
    · cases found
      cases role
    · rename_i kept
      split at found
      · rename_i same
        injection same
      · by_contra different
        refine kept ⟨rfl, rfl, List.mem_filter.mpr ⟨?_, decide_eq_true different⟩⟩
        exact (effective_owner_iff given).mpr (Or.inl ⟨terms, found, role, live⟩)
  have recipient : OwnsAt (applyLakeOwnershipTransfer actor lake (lakeGrants (grantRows table) lake.id.val now) newOwnerUserId table).1 now
      lake.id.val newOwnerUserId := by
    refine ⟨{ role := .owner, grantedByUserId := actor.userId }, ?_, rfl, rfl⟩
    rw [get?_transferred, if_neg (by simp [userKey]), if_pos rfl]
  unfold ownersBy
  constructor
  · intro owner
    rcases (effective_owner_iff (owner_named owner)).mp owner with granted | ⟨_, unowned⟩
    · exact owns userId granted (owner_named owner)
    · exact (unowned newOwnerUserId named recipient).elim
  · rintro rfl
    exact (effective_owner_iff named).mpr (Or.inl recipient)

theorem Accepted.rightful {a : Acceptance} {grants : GrantTable} (accepted : Accepted w w' a) (rows : OfferRows w.offers w.log)
    (sameLake : a.lake.id = lake.id ∧ a.lake.createdByUserId = lake.createdByUserId) (current : w.grants = grants) :
    Rightful lake grants w.log a where
  current := accepted.before.trans current
  sameLake := sameLake
  made := rows.made a.offer accepted.offered.1
  recipient := accepted.recipient
  unexpired := accepted.unexpired
  sameOwners userId := accepted.owners.mem_iff
  sameOrganization := accepted.organization
  soleOwner userId := by
    obtain ⟨actor, after⟩ := accepted.after
    rw [after]
    refine transferred_soleOwner ?_
    rw [accepted.recipient]
    exact rows.named a.offer accepted.offered.1
  demoted userId prior other := by
    obtain ⟨actor, after⟩ := accepted.after
    refine ⟨{ role := .curator, grantedByUserId := actor.userId }, ?_, rfl, rfl⟩
    rw [after, get?_transferred, if_pos]
    exact ⟨rfl, rfl, List.mem_filter.mpr ⟨accepted.owners.mem_iff.mpr prior, decide_eq_true other⟩⟩
  untouched key other unowned := by
    obtain ⟨actor, after⟩ := accepted.after
    rw [after, get?_transferred, if_neg, if_neg other]
    rintro ⟨here, isUser, owner⟩
    obtain ⟨owner, _⟩ := List.mem_filter.mp owner
    refine unowned key.principalId (accepted.owners.mem_iff.mp owner) ?_
    rw [userKey, ← here, ← isUser]

end Acceptances

/-! ### The invariant -/

/-- What an event was allowed by. -/
def Grounded (lake : DataLake) (start : GrantTable) : OfferEvent → List OfferEvent → Prop
  | .accessed l asOf grants, earlier => grants = lakeGrants (grantRows (grantsAfter start earlier)) l.id.val asOf
  | .offered _ input, earlier => Snapshot start earlier input
  | .closed _ status, _ => status ≠ .accepted
  | .accepted a, earlier => Rightful lake (grantsAfter start earlier) earlier a
  | .door _, _ => True

structure OfferBooks (lake : DataLake) (start : GrantTable) (w : OfferWorld) : Prop where
  rows : OfferRows w.offers w.log
  sameLake : ∀ l, w.lake = some l → l.id = lake.id ∧ l.createdByUserId = lake.createdByUserId
  grants : w.grants = grantsAfter start w.log
  grounded : Justified (Grounded lake start) w.log

/-- The lake and its grants were read at some time. -/
def ReadOnce (log : List OfferEvent) (l : DataLake) (grants : List LakeGrant) : Prop :=
  ∃ newer asOf older, log = newer ++ .accessed l asOf grants :: older

structure OfferInv (lake : DataLake) (start : GrantTable) (w : OfferWorld) (ph : Nat → OfferPhase) : Prop where
  books : OfferBooks lake start w
  read : ∀ i l grants, ph i = .admitted l grants → ReadOnce w.log l grants

section Books
variable {lake : DataLake} {start : GrantTable} {w w' : OfferWorld}

theorem closings_closed {picked : List OwnershipOffer} {status : OfferStatus} {log : List OfferEvent} :
    closings (picked.map (fun o => .closed o.id status) ++ log) = picked.map (fun o => (o.id, status)) ++ closings log := by
  induction picked with
  | nil => rfl
  | cons o rest ih => exact congrArg ((o.id, status) :: ·) ih

theorem grantsAfter_closed {picked : List OwnershipOffer} {status : OfferStatus} {log : List OfferEvent} :
    grantsAfter start (picked.map (fun o => .closed o.id status) ++ log) = grantsAfter start log := by
  induction picked with
  | nil => rfl
  | cons o rest ih => exact ih

theorem grounded_closed {picked : List OwnershipOffer} {status : OfferStatus} {log : List OfferEvent} (other : status ≠ .accepted)
    (grounded : Justified (Grounded lake start) log) : Justified (Grounded lake start) (picked.map (fun o => .closed o.id status) ++ log) := by
  induction picked with
  | nil => exact grounded
  | cons o rest ih => exact ⟨other, ih⟩

theorem OfferBooks.close {picks : OwnershipOffer → Bool} {status : OfferStatus} {now : Time} (books : OfferBooks lake start w)
    (leaves : status ≠ .pending) (other : status ≠ .accepted) : OfferBooks lake start (w.close picks status now) where
  rows := books.rows.resolving leaves closings_closed fun _ _ made => List.mem_append_right _ made
  sameLake := books.sameLake
  grants := books.grants.trans grantsAfter_closed.symm
  grounded := grounded_closed other books.grounded

theorem OfferBooks.accessed {l : DataLake} {asOf : Time} (books : OfferBooks lake start w) :
    OfferBooks lake start (w.record (.accessed l asOf (w.activeGrants l asOf))) where
  rows := books.rows.extended rfl fun _ _ made => List.mem_cons_of_mem _ made
  sameLake := books.sameLake
  grants := books.grants
  grounded := by
    refine ⟨?_, books.grounded⟩
    show lakeGrants (grantRows w.grants) l.id.val asOf = lakeGrants (grantRows (grantsAfter start w.log)) l.id.val asOf
    rw [← books.grants]

theorem snapshot_read {l : DataLake} {grants : List LakeGrant} {input : OwnershipOfferInput} (books : OfferBooks lake start w)
    (read : ReadOnce w.log l grants) (made : MadeFrom l grants input) : Snapshot start w.log input := by
  obtain ⟨newer, asOf, older, split⟩ := read
  have grounded : grants = lakeGrants (grantRows (grantsAfter start older)) l.id.val asOf := justified_at books.grounded split
  refine ⟨newer, l, asOf, grants, older, split, ?_, made.organization⟩
  rw [made.owners, grounded]
  rfl

theorem OfferBooks.create {l : DataLake} {grants : List LakeGrant} {input : OwnershipOfferInput} {id : String} (books : OfferBooks lake start w)
    (read : ReadOnce w.log l grants) (made : MadeFrom l grants input) : OfferBooks lake start (w.create input id).2 := by
  unfold OfferWorld.create
  split
  · exact books
  · rename_i free
    have free : ∀ o ∈ w.offers, o.status ≠ .pending ∧ o.id ≠ id := by simpa using free
    exact ⟨books.rows.creating made.named free, books.sameLake, books.grants, snapshot_read books read made, books.grounded⟩

theorem pendingWith_sole {o : OwnershipOffer} (rows : OfferRows w.offers w.log) (stored : o ∈ w.offers) (pending : o.status = .pending) :
    pendingWith w.offers (·.id == o.id) = [o] := by
  have alone : ∀ o' ∈ pendingWith w.offers (·.id == o.id), o' = o := fun o' member =>
    rows.sole o' (mem_pendingWith.mp member).1 o stored (mem_pendingWith.mp member).2.1 pending
  have there : o ∈ pendingWith w.offers (·.id == o.id) := mem_pendingWith.mpr ⟨stored, pending, beq_self_eq_true _⟩
  have distinct : (pendingWith w.offers (·.id == o.id)).Nodup := (List.Nodup.of_map _ rows.ids).filter _
  cases shape : pendingWith w.offers (·.id == o.id) with
  | nil =>
    rw [shape] at there
    cases there
  | cons first rest =>
    rw [shape] at alone distinct
    have same := alone first List.mem_cons_self
    cases rest with
    | nil => rw [same]
    | cons second rest =>
      have again := alone second (List.mem_cons_of_mem _ List.mem_cons_self)
      rw [same, again] at distinct
      exact absurd List.mem_cons_self (List.nodup_cons.mp distinct).1

theorem OfferBooks.accept {a : Acceptance} (books : OfferBooks lake start w) (accepted : Accepted w w' a) : OfferBooks lake start w' := by
  have rightful := accepted.rightful books.rows (books.sameLake a.lake accepted.lake) books.grants
  have picked := pendingWith_sole books.rows accepted.offered.1 accepted.offered.2
  rw [accepted.left]
  refine ⟨books.rows.resolving nofun ?_ fun _ _ made => List.mem_cons_of_mem _ made, books.sameLake, rfl, rightful, books.grounded⟩
  rw [picked]
  rfl

theorem OfferBooks.leaves {grants : GrantTable} (books : OfferBooks lake start w) : OfferBooks lake start (w.leaves grants) where
  rows := books.rows.extended rfl fun _ _ made => List.mem_cons_of_mem _ made
  sameLake := books.sameLake
  grants := rfl
  grounded := ⟨trivial, books.grounded⟩

theorem OfferBooks.door {door : LakeDoor} (books : OfferBooks lake start w) (moved : w.lake.bind (w.through · door) = some w') :
    OfferBooks lake start w' ∧ ∃ newer, w'.log = newer ++ w.log := by
  obtain ⟨l, here, through⟩ := Option.bind_eq_some_iff.mp moved
  have left : ∀ grants, some (w.leaves grants) = some w' → OfferBooks lake start w' ∧ ∃ newer, w'.log = newer ++ w.log := by
    intro grants same
    cases same
    exact ⟨books.leaves, [_], rfl⟩
  cases door with
  | transfer accounts findOrganization actor newOwnerUserId now =>
    unfold OfferWorld.through at through
    dsimp only at through
    split at through
    · exact left _ through
    · cases through
  | grantAccess sameAddress accounts actor input now =>
    unfold OfferWorld.through at through
    dsimp only at through
    split at through
    · exact left _ through
    · cases through
  | revokeAccess actor principalType principalId now =>
    unfold OfferWorld.through at through
    dsimp only at through
    split at through
    · exact left _ through
    · cases through
  | depart departedUserId organization triggeredBy now => exact left _ through
  | moveLake organizationId =>
    cases through
    refine ⟨⟨books.rows, fun l' moved => ?_, books.grants, books.grounded⟩, [], rfl⟩
    cases moved
    exact books.sameLake l here
  | removeLake =>
    cases through
    exact ⟨⟨books.rows, nofun, books.grants, books.grounded⟩, [], rfl⟩

/-! ### One step of one thread -/

theorem perform_books {op : OfferOp} {x : OfferChoice} (books : OfferBooks lake start w) (passive : op.passive) :
    OfferBooks lake start (w.perform op x).2 ∧ ∃ newer, (w.perform op x).2.log = newer ++ w.log := by
  cases op with
  | clock | findUser | findOrganization | findPendingForLake | findOffer => exact ⟨books, [], rfl⟩
  | expirePendingForLake asOf => exact ⟨books.close nofun nofun, _, rfl⟩
  | accept recipientUserId offerId =>
    unfold OfferWorld.perform
    dsimp only
    split
    · rename_i w' result ok
      obtain ⟨a, accepted⟩ := accept_ok ok
      refine ⟨books.accept accepted, [.accepted a], ?_⟩
      rw [accepted.left]
      rfl
    · exact ⟨books, [], rfl⟩
  | _ => exact passive.elim

theorem offerExec_settled {op : OfferOp} {x : OfferChoice} {reply : Except OfferError op.Value} (executed : w.exec op x = (reply, w')) :
    (w' = w ∧ ∃ e, reply = .error e) ∨ w' = (w.perform op x).2 ∧ (reply = (w.perform op x).1 ∨ ∃ e, reply = .error e) := by
  have settled : ((w.exec op x).2 = w ∧ ∃ e, (w.exec op x).1 = .error e) ∨
      (w.exec op x).2 = (w.perform op x).2 ∧ ((w.exec op x).1 = (w.perform op x).1 ∨ ∃ e, (w.exec op x).1 = .error e) := by
    unfold OfferWorld.exec
    cases x.fault with
    | none => exact Or.inr ⟨rfl, Or.inl rfl⟩
    | some f => cases f <;> cases op <;> first | exact Or.inl ⟨rfl, _, rfl⟩ | exact Or.inr ⟨rfl, Or.inr ⟨_, rfl⟩⟩
  rw [executed] at settled
  exact settled

theorem readOnce_grown {log log' : List OfferEvent} {l : DataLake} {grants : List LakeGrant} (read : ReadOnce log l grants)
    (grown : ∃ newer, log' = newer ++ log) : ReadOnce log' l grants := by
  obtain ⟨newer, asOf, older, split⟩ := read
  obtain ⟨newest, grown⟩ := grown
  exact ⟨newest ++ newer, asOf, older, by rw [grown, split, List.append_assoc]⟩

variable {ph : Nat → OfferPhase} {i : Nat}

theorem OfferInv.advance {q : OfferPhase} (inv : OfferInv lake start w ph) (books : OfferBooks lake start w') (grown : ∃ newer, w'.log = newer ++ w.log)
    (mine : ∀ l grants, q = .admitted l grants → ReadOnce w'.log l grants) : OfferInv lake start w' (Function.update ph i q) where
  books := books
  read j l grants at_ := by
    rcases updated at_ with ⟨rfl, new⟩ | ⟨_, at_⟩
    · exact mine l grants new
    · exact readOnce_grown (inv.read j l grants at_) grown

theorem offerInv_step {op : OfferOp} {x : OfferChoice} {reply : Except OfferError op.Value} {q : OfferPhase} (inv : OfferInv lake start w ph)
    (executed : w.exec op x = (reply, w')) (permitted : OfferMoves (ph i) op reply q) : OfferInv lake start w' (Function.update ph i q) := by
  generalize at_ : ph i = p at permitted
  cases permitted with
  | stays passive =>
    rcases offerExec_settled executed with ⟨rfl, _⟩ | ⟨rfl, _⟩
    · rw [← at_, Function.update_eq_self]
      exact inv
    · obtain ⟨books, grown⟩ := perform_books inv.books (x := x) passive
      exact inv.advance books grown fun l grants same => readOnce_grown (inv.read i l grants (at_.trans same)) grown
  | @admits l grants =>
    rcases offerExec_settled executed with ⟨_, e, rejected⟩ | ⟨rfl, answered | ⟨e, rejected⟩⟩
    · cases rejected
    · unfold OfferWorld.perform at answered ⊢
      dsimp only at answered ⊢
      split at answered
      · cases answered
        refine inv.advance inv.books.accessed ⟨[_], rfl⟩ fun l' grants' same => ?_
        cases same
        exact ⟨[], x.reads.now, w.log, rfl⟩
      · cases answered
    · cases rejected
  | turnsAway =>
    rcases offerExec_settled executed with ⟨rfl, _⟩ | ⟨rfl, _⟩
    · exact inv.advance inv.books ⟨[], rfl⟩ nofun
    · unfold OfferWorld.perform
      dsimp only
      split
      · exact inv.advance inv.books.accessed ⟨[_], rfl⟩ nofun
      · exact inv.advance inv.books ⟨[], rfl⟩ nofun
  | @creates l grants input reply made =>
    rcases offerExec_settled executed with ⟨rfl, _⟩ | ⟨rfl, _⟩
    · exact inv.advance inv.books ⟨[], rfl⟩ nofun
    · refine inv.advance (inv.books.create (inv.read i l grants at_) made) ?_ nofun
      show ∃ newer, (w.create input x.newId).2.log = newer ++ w.log
      unfold OfferWorld.create
      split
      · exact ⟨[], rfl⟩
      · exact ⟨[_], rfl⟩
  | @closes _ id status reply closes =>
    rcases offerExec_settled executed with ⟨rfl, _⟩ | ⟨rfl, _⟩
    · rw [← at_, Function.update_eq_self]
      exact inv
    · have leaves : status ≠ .pending ∧ status ≠ .accepted := by
        rcases closes with rfl | rfl <;> exact ⟨nofun, nofun⟩
      have grown : ∃ newer, (w.resolve id status x.reads.now).2.log = newer ++ w.log := ⟨_, rfl⟩
      refine inv.advance (inv.books.close leaves.1 leaves.2) grown fun l grants same => ?_
      exact readOnce_grown (inv.read i l grants (at_.trans same)) grown

end Books

/-! ### Runs -/

section Runs
variable {lake : DataLake} {start : GrantTable} {w : OfferWorld}

theorem mem_closings {log : List OfferEvent} {a : Acceptance} (accepted : .accepted a ∈ log) : (a.offer.id, .accepted) ∈ closings log := by
  induction log with
  | nil => cases accepted
  | cons e earlier ih =>
    rcases List.mem_cons.mp accepted with rfl | before
    · exact List.mem_cons_self
    · cases e <;> simp [closings, ih before]

theorem OfferBooks.sound (books : OfferBooks lake start w) : OffersSound lake start w where
  sole := books.rows.sole
  leftOnce := books.rows.leftOnce
  left o stored := by
    refine ⟨books.rows.left o stored, fun closed pending => ?_⟩
    exact books.rows.opened o stored pending o.status closed
  grants := books.grants
  snapshot later id input earlier split := justified_at books.grounded split
  accepted later a earlier split := justified_at books.grounded split
  once a status accepted closed := by
    have same := List.inj_on_of_nodup_map books.rows.leftOnce closed (mem_closings accepted) rfl
    exact congrArg Prod.snd same

theorem offerInv_preserved : Preserves offerSemantics OfferMoves (fun _ _ _ _ => True) (OfferInv lake start) where
  env inv moved := by
    obtain ⟨books, grown⟩ := inv.books.door moved
    exact ⟨books, fun i l grants at_ => readOnce_grown (inv.read i l grants at_) grown⟩
  step inv _ executed permitted := offerInv_step inv (Option.some.inj executed) permitted

theorem offerInv_start : OfferInv lake start { lake := some lake, grants := start, offers := [], log := [] } fun _ => .idle where
  books := {
    rows := {
      sole := fun _ member => absurd member List.not_mem_nil
      ids := List.nodup_nil
      made := fun _ member => absurd member List.not_mem_nil
      named := fun _ member => absurd member List.not_mem_nil
      opened := fun _ member => absurd member List.not_mem_nil
      left := fun _ member => absurd member List.not_mem_nil
      known := fun _ _ member => absurd member List.not_mem_nil
      leftOnce := List.nodup_nil }
    sameLake := fun _ same => by
      cases same
      exact ⟨rfl, rfl⟩
    grants := rfl
    grounded := trivial }
  read _ _ _ impossible := nomatch impossible

end Runs

end Bike4Mind.DataLakes
