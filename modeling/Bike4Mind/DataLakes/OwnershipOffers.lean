import Bike4Mind.Concurrency.Protocol
import Bike4Mind.DataLakes.GrantEffects

/-! Offers of a lake's ownership, the calls that make and answer them, and the other doors that move the lake's grants meanwhile. -/

namespace Bike4Mind.DataLakes
open Collections Concurrency

inductive OfferError where
  | notFound (message : String)
  | badRequest (message : String)
  -- A driver error with code 11000.
  | duplicateKey
  -- Any other rejection of an adapter.
  | error (message : String)
  deriving DecidableEq

inductive OfferStatus where
  | pending | accepted | declined | cancelled | expired
  deriving DecidableEq

/-- What `create` is given besides the status. -/
structure OwnershipOfferInput where
  organizationId : Option String
  offeredByUserId : String
  recipientUserId : String
  expiresAt : Time
  priorOwnerUserIds : List String
  offeredVia : OwnershipOfferRung
  deriving DecidableEq

structure OwnershipOffer extends OwnershipOfferInput where
  id : String
  status : OfferStatus := .pending
  resolvedAt : Option Time := none
  deriving DecidableEq

/-! ### Users and organizations -/

structure UserDocument where
  id : { id : String // id ≠ "" }
  isAdmin : Bool := false

structure OrgUserShare where
  userId : String
  permissions : List String := []

structure OrganizationDocument where
  id : OrganizationId
  userId : String
  adminUserIds : List String := []
  users : List OrgUserShare := []

def OrganizationDocument.organization (org : OrganizationDocument) : Organization where
  id := org.id
  userId := org.userId
  adminUserIds := org.adminUserIds
  users := org.users.map (·.userId)

def ORG_MEMBERSHIP_ACL_PERMISSIONS : List String := ["read", "write"]

def orgAclRowConfersMembership (row : OrgUserShare) : Bool := row.permissions.any (ORG_MEMBERSHIP_ACL_PERMISSIONS.contains ·)

def isOrgMember (user : UserDocument) (org : OrganizationDocument) : Bool :=
  user.isAdmin || org.userId == user.id.val || org.users.any fun member => member.userId == user.id.val && orgAclRowConfersMembership member

/-- The collections that offers only read, as they stand at one call, and its clock. -/
structure Reads where
  now : Time := 0
  users : List UserDocument := []
  organizations : List OrganizationDocument := []

def Reads.findUser (reads : Reads) (id : String) : Option UserDocument := reads.users.find? (·.id.val == id)

def Reads.findOrganization (reads : Reads) (id : String) : Option OrganizationDocument := reads.organizations.find? (·.id.val == id)

/-! ### The lake with its grants and offers -/

structure Acceptance where
  offer : OwnershipOffer
  recipientUserId : String
  now : Time
  lake : DataLake
  before : GrantTable
  after : GrantTable

inductive OfferEvent where
  | accessed (lake : DataLake) (asOf : Time) (grants : List LakeGrant)
  | offered (id : String) (offer : OwnershipOfferInput)
  -- Resolved without a transfer.
  | closed (id : String) (status : OfferStatus)
  | accepted (acceptance : Acceptance)
  -- Another door left these grants.
  | door (grants : GrantTable)

structure OfferWorld where
  lake : Option DataLake
  grants : GrantTable
  offers : List OwnershipOffer
  log : List OfferEvent

def OwnershipOffer.resolved (offer : OwnershipOffer) (toStatus : OfferStatus) (now : Time) : OwnershipOffer :=
  { offer with status := toStatus, resolvedAt := some now }

/-- Every pending offer that is picked leaves for one status. -/
def resolveOffers (offers : List OwnershipOffer) (picks : OwnershipOffer → Bool) (toStatus : OfferStatus) (now : Time) : List OwnershipOffer :=
  offers.map fun offer => if offer.status = .pending ∧ picks offer = true then offer.resolved toStatus now else offer

def pendingWith (offers : List OwnershipOffer) (picks : OwnershipOffer → Bool) : List OwnershipOffer :=
  offers.filter fun offer => offer.status = .pending ∧ picks offer = true

namespace OfferWorld

def record (w : OfferWorld) (e : OfferEvent) : OfferWorld := { w with log := e :: w.log }

def activeGrants (w : OfferWorld) (lake : DataLake) (asOf : Time) : List LakeGrant := lakeGrants (grantRows w.grants) lake.id.val asOf

/-- `buildPendingOfferExpiryFilter` -/
def findPendingForLake (w : OfferWorld) (asOf : Option Time) : Option OwnershipOffer :=
  w.offers.find? fun offer => offer.status == .pending && asOf.all (· < offer.expiresAt)

/-- The pending offers that are picked leave for a status without a transfer. -/
def close (w : OfferWorld) (picks : OwnershipOffer → Bool) (toStatus : OfferStatus) (now : Time) : OfferWorld :=
  { w with
    offers := resolveOffers w.offers picks toStatus now
    log := (pendingWith w.offers picks).map (fun offer => .closed offer.id toStatus) ++ w.log }

def expirePendingForLake (w : OfferWorld) (asOf : Time) : OfferWorld := w.close (·.expiresAt ≤ asOf) .expired asOf

def resolve (w : OfferWorld) (id : String) (toStatus : OfferStatus) (now : Time) : Option OwnershipOffer × OfferWorld :=
  (((pendingWith w.offers (·.id == id)).head?).map (·.resolved toStatus now), w.close (·.id == id) toStatus now)

/-- The insert under the unique index on the pending offers of a lake. -/
def create (w : OfferWorld) (input : OwnershipOfferInput) (id : String) : Option OwnershipOffer × OfferWorld :=
  if w.offers.any fun offer => offer.status == .pending || offer.id == id then (none, w)
  else (some { input with id }, { w with offers := { input with id } :: w.offers, log := .offered id input :: w.log })

end OfferWorld

/-! ### Accepting -/

def OFFER_CLOSED : String := "This ownership offer is no longer open"

def PENDING_ALREADY : String := "This data lake already has a pending ownership offer; cancel it first"

def refuseWhen (refused : Bool) (message : String) : Except OfferError Unit := if refused then .error (.badRequest message) else .ok ()

structure AcceptLakeOwnershipOfferResult extends TransferLakeOwnershipResult where
  offer : OwnershipOffer

/-- The offer is open, and addressed to the caller. -/
def openOffer (now : Time) (recipientUserId : String) (found : Option OwnershipOffer) : Except OfferError OwnershipOffer := do
  match found.filter (·.recipientUserId == recipientUserId) with
  | none => throw (.notFound "Ownership offer not found")
  | some offer =>
    refuseWhen (offer.status != .pending) OFFER_CLOSED
    refuseWhen (offer.expiresAt ≤ now) "This ownership offer has expired"
    return offer

/-- Within the lake's organization, the rung the offer was made under still holds. -/
def offererLeft (reads : Reads) (offer : OwnershipOffer) (org : Option OrganizationDocument) : Option String :=
  match offer.offeredVia with
  | .platformAdmin => none
  | .orgAdmin =>
    if org.any fun org => isOrgAdminOf org.organization offer.offeredByUserId then none
    else some "The person who made this offer is no longer an admin of the organization that owns this data lake"
  | _ =>
    if org.any fun org => (reads.findUser offer.offeredByUserId).any fun offerer =>
        isOrgMember offerer org || isOrgAdminOf org.organization offer.offeredByUserId then none
    else some "The person who made this offer is no longer a member of the organization that owns this data lake"

def refuseFor (refusal : Option String) : Except OfferError Unit := refusal.elim (.ok ()) fun message => .error (.badRequest message)

def checkParties (reads : Reads) (offer : OwnershipOffer) (recipientUserId : String) (lakeOrg : Option String) : Except OfferError Unit := do
  refuseWhen (offer.offeredVia == .platformAdmin && !(reads.findUser offer.offeredByUserId).any (·.isAdmin))
    "The person who made this offer is no longer a platform admin"
  match lakeOrg with
  | none => return ()
  | some id =>
    let org := reads.findOrganization id
    refuseFor (offererLeft reads offer org)
    refuseWhen (!org.any fun org => isOrgOwnershipCandidate org.organization recipientUserId)
      "You are no longer a member of the organization that owns this data lake"

def foundLake : Option DataLake → Except OfferError DataLake
  | none => .error (.badRequest "The data lake this offer is for no longer exists")
  | some lake => .ok lake

/-- One transaction. Owners are compared as sets: both lists are sorted first. -/
def acceptLakeOwnershipOffer (reads : Reads) (recipientUserId offerId : String) (w : OfferWorld) :
    Except OfferError (OfferWorld × AcceptLakeOwnershipOfferResult) := do
  let offer ← openOffer reads.now recipientUserId (w.offers.find? (·.id == offerId))
  let lake ← foundLake w.lake
  let grants := w.activeGrants lake reads.now
  refuseWhen (!(resolveEffectiveOwnerIds lake.createdByUserId grants).isPerm offer.priorOwnerUserIds)
    "Ownership of this data lake changed after the offer was made, so it can no longer be accepted"
  let lakeOrg := normalizeId lake.organizationId
  refuseWhen (lakeOrg != offer.organizationId)
    "The data lake has moved to a different organization since this offer was made, so it can no longer be accepted"
  checkParties reads offer recipientUserId lakeOrg
  let offerer : ManageActor := { userId := offer.offeredByUserId, isAdmin := offer.offeredVia == .platformAdmin }
  let (after, applied) := applyLakeOwnershipTransfer offerer lake grants recipientUserId w.grants
  return ({ w with
    grants := after
    offers := resolveOffers w.offers (·.id == offer.id) .accepted reads.now
    log := .accepted { offer, recipientUserId, now := reads.now, lake, before := w.grants, after } :: w.log },
    { applied with offer := offer.resolved .accepted reads.now })

/-! ### Calls -/

inductive OfferOp where
  -- `assertLakeAccessWithGrantsById`
  | accessLake
  -- `new Date()`
  | clock
  | findUser (id : String)
  | findOrganization (id : String)
  | expirePendingForLake (asOf : Time)
  | findPendingForLake (asOf : Option Time)
  | create (input : OwnershipOfferInput)
  | findOffer (id : String)
  | resolve (id : String) (toStatus : OfferStatus)
  | accept (recipientUserId offerId : String)

@[reducible] def OfferOp.Value : OfferOp → Type
  | accessLake => DataLake × List LakeGrant
  | clock => Time
  | findUser _ => Option UserDocument
  | findOrganization _ => Option OrganizationDocument
  | findPendingForLake _ | findOffer _ | resolve _ _ => Option OwnershipOffer
  | create _ => OwnershipOffer
  | expirePendingForLake _ => Unit
  | accept _ _ => AcceptLakeOwnershipOfferResult

/-- A call rejects before it took effect, or after; a transaction that rejects has none. -/
inductive OfferFault where
  | before | after
  deriving DecidableEq

structure OfferChoice where
  fault : Option OfferFault := none
  reads : Reads := {}
  -- The caller may see the lake.
  admitted : Bool := true
  newId : String := ""

def ADAPTER_REJECTED : OfferError := .error "the call was rejected"

def OfferWorld.perform (w : OfferWorld) (op : OfferOp) (x : OfferChoice) : Except OfferError op.Value × OfferWorld :=
  match op with
  | .accessLake =>
    match w.lake, x.admitted with
    | some lake, true => (.ok (lake, w.activeGrants lake x.reads.now), w.record (.accessed lake x.reads.now (w.activeGrants lake x.reads.now)))
    | _, _ => (.error (.notFound "Data lake not found"), w)
  | .clock => (.ok x.reads.now, w)
  | .findUser id => (.ok (x.reads.findUser id), w)
  | .findOrganization id => (.ok (x.reads.findOrganization id), w)
  | .expirePendingForLake asOf => (.ok (), w.expirePendingForLake asOf)
  | .findPendingForLake asOf => (.ok (w.findPendingForLake asOf), w)
  | .create input => (((w.create input x.newId).1.elim (.error .duplicateKey) .ok), (w.create input x.newId).2)
  | .findOffer id => (.ok (w.offers.find? (·.id == id)), w)
  | .resolve id toStatus => (.ok (w.resolve id toStatus x.reads.now).1, (w.resolve id toStatus x.reads.now).2)
  | .accept recipientUserId offerId =>
    match acceptLakeOwnershipOffer x.reads recipientUserId offerId w with
    | .ok (w', result) => (.ok result, w')
    | .error refusal => (.error refusal, w)

def OfferWorld.exec (w : OfferWorld) (op : OfferOp) (x : OfferChoice) : Except OfferError op.Value × OfferWorld :=
  match x.fault, op with
  | none, op => w.perform op x
  | some _, .accept _ _ => (.error ADAPTER_REJECTED, w)
  | some .before, _ => (.error ADAPTER_REJECTED, w)
  | some .after, op => (.error ADAPTER_REJECTED, (w.perform op x).2)

abbrev OfferCall (α : Type) := Program OfferOp OfferOp.Value OfferError α

def accessLake : OfferCall (DataLake × List LakeGrant) := .perform OfferOp.accessLake
def clock : OfferCall Time := .perform OfferOp.clock
def findUser (id : String) : OfferCall (Option UserDocument) := .perform (OfferOp.findUser id)
def findOrganization (id : String) : OfferCall (Option OrganizationDocument) := .perform (OfferOp.findOrganization id)
def expirePendingForLake (asOf : Time) : OfferCall Unit := .perform (OfferOp.expirePendingForLake asOf)
def findPendingForLake (asOf : Option Time) : OfferCall (Option OwnershipOffer) := .perform (OfferOp.findPendingForLake asOf)
def createOffer (input : OwnershipOfferInput) : OfferCall OwnershipOffer := .perform (OfferOp.create input)
def findOffer (id : String) : OfferCall (Option OwnershipOffer) := .perform (OfferOp.findOffer id)
def resolveOffer (id : String) (toStatus : OfferStatus) : OfferCall (Option OwnershipOffer) := .perform (OfferOp.resolve id toStatus)
def acceptOffer (recipientUserId offerId : String) : OfferCall AcceptLakeOwnershipOfferResult := .perform (OfferOp.accept recipientUserId offerId)

def settleAuthorization : Except LakeRefusal LakeTransferAuthorization → OfferCall LakeTransferAuthorization
  | .ok authorization => return authorization
  | .error (.badRequest message) | .error (.forbidden message) => throw (.badRequest message)

/-- Refused without a look at the recipient. -/
def lacksAuthority (actor : LakeTransferActor) (lake : DataLake) (grants : List LakeGrant) (newOwnerUserId : String) : Bool :=
  let authority := resolveLakeTransferAuthority lake actor grants
  !authority.allowed || authority.viaOrgAdminOnly && newOwnerUserId == actor.userId

/-- `authorizeLakeTransfer` over the reads it comes to make. -/
def authorizeOffer (actor : LakeTransferActor) (lake : DataLake) (grants : List LakeGrant) (newOwnerUserId : String) :
    OfferCall LakeTransferAuthorization := do
  if lacksAuthority actor lake grants newOwnerUserId then
    settleAuthorization (authorizeLakeTransfer [] (fun _ => none) actor lake grants newOwnerUserId)
  else
    match ← findUser newOwnerUserId, normalizeId lake.organizationId with
    | none, _ => settleAuthorization (authorizeLakeTransfer [] (fun _ => none) actor lake grants newOwnerUserId)
    | some user, none =>
      settleAuthorization (authorizeLakeTransfer [{ id := user.id.val, email := none }] (fun _ => none) actor lake grants newOwnerUserId)
    | some user, some id =>
      let organization := (← findOrganization id).map (·.organization)
      settleAuthorization
        (authorizeLakeTransfer [{ id := user.id.val, email := none }] (fun _ => organization) actor lake grants newOwnerUserId)

def DATA_LAKE_OWNERSHIP_OFFER_TTL_DAYS : Int := 7

def offerLakeOwnership (actor : LakeTransferActor) (lake : DataLake) (grants : List LakeGrant) (newOwnerUserId : String) :
    OfferCall OwnershipOffer := do
  let authorization ← authorizeOffer actor lake grants newOwnerUserId
  let now ← clock
  expirePendingForLake now
  if (← findPendingForLake (some now)).isSome then throw (.badRequest PENDING_ALREADY)
  else
    tryCatch (createOffer {
      organizationId := normalizeId lake.organizationId
      offeredByUserId := actor.userId
      recipientUserId := newOwnerUserId
      expiresAt := now + DATA_LAKE_OWNERSHIP_OFFER_TTL_DAYS * 24 * 60 * 60 * 1000
      priorOwnerUserIds := resolveEffectiveOwnerIds lake.createdByUserId grants
      offeredVia := authorization.manageRung })
      fun err => throw (if err = .duplicateKey then .badRequest PENDING_ALREADY else err)

/-- A resolution that came too late is refused. -/
def resolveOpen (id : String) (toStatus : OfferStatus) : OfferCall OwnershipOffer := do
  match ← resolveOffer id toStatus with
  | some offer => return offer
  | none => throw (.badRequest OFFER_CLOSED)

def declineLakeOwnershipOffer (recipientUserId offerId : String) : OfferCall OwnershipOffer := do
  match (← findOffer offerId).filter (·.recipientUserId == recipientUserId) with
  | none => throw (.notFound "Ownership offer not found")
  | some offer => resolveOpen offer.id .declined

def cancelLakeOwnershipOffer (actor : LakeTransferActor) (lake : DataLake) (grants : List LakeGrant) : OfferCall OwnershipOffer := do
  match ← findPendingForLake none with
  | none => throw (.notFound "This data lake has no pending ownership offer")
  | some pending =>
    let isOfferer := actor.userId != "" && actor.userId == pending.offeredByUserId
    if !isOfferer && !(resolveLakeTransferAuthority lake actor grants).allowed then
      throw (.badRequest "You do not have permission to cancel this ownership offer")
    else resolveOpen pending.id .cancelled

/-! ### Runs -/

inductive OfferRun where
  | offer (actor : LakeTransferActor) (newOwnerUserId : String)
  | accept (recipientUserId offerId : String)
  | decline (recipientUserId offerId : String)
  | cancel (actor : LakeTransferActor)

def OfferRun.program : OfferRun → OfferCall OwnershipOffer
  | offer actor newOwnerUserId => accessLake.bind fun found => offerLakeOwnership actor found.1 found.2 newOwnerUserId
  | accept recipientUserId offerId => (acceptOffer recipientUserId offerId).bind fun result => .pure result.offer
  | decline recipientUserId offerId => declineLakeOwnershipOffer recipientUserId offerId
  | cancel actor => accessLake.bind fun found => cancelLakeOwnershipOffer actor found.1 found.2

/-- The other doors, each one transaction. -/
inductive LakeDoor where
  | transfer (accounts : List Account) (findOrganization : String → Option Organization) (actor : LakeTransferActor)
      (newOwnerUserId : String) (now : Time)
  | grantAccess (sameAddress : String → String → Bool) (accounts : List Account) (actor : ManageActor) (input : GrantLakeAccessInput) (now : Time)
  | revokeAccess (actor : ManageActor) (principalType : PrincipalType) (principalId : String) (now : Time)
  | depart (departedUserId : String) (organization : Organization) (triggeredBy : String) (now : Time)
  | moveLake (organizationId : Option String)
  | removeLake

namespace OfferWorld

def leaves (w : OfferWorld) (grants : GrantTable) : OfferWorld := { w with grants, log := .door grants :: w.log }

def through (w : OfferWorld) (lake : DataLake) : LakeDoor → Option OfferWorld
  | .transfer accounts findOrganization actor newOwnerUserId now =>
    match authorizeLakeTransfer accounts findOrganization actor lake (w.activeGrants lake now) newOwnerUserId with
    | .ok _ => some (w.leaves (applyLakeOwnershipTransfer actor.toManageActor lake (w.activeGrants lake now) newOwnerUserId w.grants).1)
    | .error _ => none
  | .grantAccess sameAddress accounts actor input now =>
    match grantLakeAccess sameAddress accounts actor lake (w.activeGrants lake now) input now w.grants with
    | .ok (grants, _) => some (w.leaves grants)
    | .error _ => none
  | .revokeAccess actor principalType principalId now =>
    match revokeLakeAccess actor lake (w.activeGrants lake now) principalType principalId w.grants with
    | .ok (grants, _) => some (w.leaves grants)
    | .error _ => none
  | .depart departedUserId organization triggeredBy now =>
    some (w.leaves (lapseDepartedMemberLakeAccess departedUserId organization triggeredBy [lake] now w.grants).1)
  | .moveLake organizationId => some { w with lake := some { lake with organizationId } }
  | .removeLake => some { w with lake := none }

end OfferWorld

def offerSemantics : Semantics Nat OfferWorld OfferOp OfferOp.Value OfferError OfferChoice LakeDoor where
  exec _ w op x := some (w.exec op x)
  env w door := w.lake.bind (w.through · door)

abbrev OfferConfig := Config Nat OfferWorld OfferOp OfferOp.Value OfferError OwnershipOffer

/-- A lake with any grants and without an offer. -/
def offering (lake : DataLake) (grants : GrantTable) (runs : Nat → OfferRun) : OfferConfig where
  store := { lake := some lake, grants, offers := [], log := [] }
  threads i := (runs i).program

end Bike4Mind.DataLakes
