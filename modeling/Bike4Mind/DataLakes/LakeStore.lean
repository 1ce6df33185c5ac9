import Bike4Mind.Concurrency.Protocol
import Bike4Mind.DataLakes.ReadAccess

/-! One stored lake with its files, and the repository calls its lifecycle is made of. Each call is one atomic write. -/

namespace Bike4Mind.DataLakes
open Collections Concurrency

inductive LakeError where
  | notFound (message : String)
  | badRequest (message : String)
  -- Any rejection of an adapter.
  | error (message : String)
  deriving DecidableEq

structure LakeDocument extends DataLake where
  datalakeTag : String
  fileTagPrefix : Option String := none
  filesArchivedAt : Option Time := none
  filesDeletedAt : Option Time := none
  purgeClaimId : Option String := none
  purgeStartedAt : Option Time := none
  deriving DecidableEq

/-- What no lifecycle call writes on a file. -/
structure FabFile where
  id : String
  userId : String
  contentHash : Option String := none
  tags : List String := []
  pending : Bool := false
  deriving DecidableEq

/-- The two marks the lifecycle calls write on a file. -/
structure Marks where
  archivedAt : Option Time := none
  deletedAt : Option Time := none
  deriving DecidableEq

structure FabFiles where
  files : List FabFile
  distinct : (files.map (·.id)).Nodup

theorem FabFiles.id_inj {stored : FabFiles} {f g : FabFile} (left : f ∈ stored.files) (right : g ∈ stored.files)
    (same : f.id = g.id) : f = g :=
  List.inj_on_of_nodup_map stored.distinct left right same

/-! ### Membership -/

def DATALAKE_TAG_PREFIX : String := "datalake:"

def startsWith (text start : String) : Bool := start.toList.isPrefixOf text.toList

def normalizeTagPrefix (casing : Casing) (tagPrefix : Option String) : Option String :=
  let trimmed := (tagPrefix.map casing.trim).getD ""
  if trimmed ≠ "" ∧ trimmed.toList.getLast? = some ':' then some trimmed else none

def isReservedTagPrefix (casing : Casing) (tagPrefix : String) : Bool := startsWith (casing.trim tagPrefix) DATALAKE_TAG_PREFIX

/-- The scope of a lake that has a document. -/
structure MembershipScope where
  datalakeTag : String
  fileTagPrefix : Option String := none
  creatorUserId : Option String := none
  deriving DecidableEq

def lakeMembershipScope (lake : LakeDocument) : MembershipScope where
  datalakeTag := lake.datalakeTag
  fileTagPrefix := lake.fileTagPrefix
  creatorUserId := some lake.createdByUserId

def effectiveTagPrefixArm (casing : Casing) (scope : MembershipScope) : Option String :=
  match normalizeTagPrefix casing scope.fileTagPrefix with
  | none => none
  | some tagPrefix => if isReservedTagPrefix casing tagPrefix || blank scope.creatorUserId then none else some tagPrefix

/-- `buildDataLakeMembershipFilter` -/
def isMember (casing : Casing) (scope : MembershipScope) (file : FabFile) : Bool :=
  file.tags.contains scope.datalakeTag ||
    (effectiveTagPrefixArm casing scope).any fun tagPrefix =>
      file.tags.any (startsWith · tagPrefix) && some file.userId == scope.creatorUserId

def foldAscii (c : Char) : Char := if 'A' ≤ c ∧ c ≤ 'Z' then Char.ofNat (c.toNat + 32) else c

/-- `buildNoOtherLakeMetaTagFilter` -/
def carriesNoOtherLakeMetaTag (datalakeTag : String) (file : FabFile) : Bool :=
  !file.tags.any fun tag => DATALAKE_TAG_PREFIX.toList.isPrefixOf (tag.toList.map foldAscii) && tag != datalakeTag

/-- `archivedAt: stampedAt ?? { $ne: null }`, and the same of `deletedAt` -/
def stampedWith (stampedAt mark : Option Time) : Bool :=
  match stampedAt with
  | some at_ => mark == some at_
  | none => mark != none

theorem stampedWith_none {stampedAt : Option Time} : stampedWith stampedAt none = false := by
  cases stampedAt <;> rfl

/-! ### The operations -/

/-- Absent fields stay, `some none` writes null. -/
structure LakeSettleFields where
  status : DataLakeStatus
  filesArchivedAt : Option (Option Time) := none
  filesDeletedAt : Option (Option Time) := none
  deriving DecidableEq

/-- The message of a purge, with the claim it was accepted under. -/
structure DataLakeCleanupMessage where
  actor : ManageActor
  purgeClaimId : Option String

inductive ConnectionKind where
  | drive | gitHub
  deriving DecidableEq

/-- Adapter calls that write neither the lake's lifecycle fields nor a mark. -/
inductive SideEffect where
  | cancelBatches
  | warnOnPrefixCollision
  | adjustOwnerStorage
  | recordLakeMembershipChange
  | recordLakeConfigChange
  | removeFromIndex
  | setConnectionEnabled (connection : ConnectionKind) (enabled : Bool)
  | recomputeLakeStats
  | shredMemory
  | releaseConnections
  | deleteStoredObjects (fabFileId : String)
  | pullLakeTags (fabFileId : String)
  | deleteLakeRows
  deriving DecidableEq

inductive Op where
  | findById
  | listByLake (dataLakeId : String)
  | claimArchiving
  | claimDeleting
  | claimUnarchiving
  | claimRestoring
  | claimPurging (claimId : String)
  | beginPurgeExecution (claimId : Option String)
  | releasePurgingToDeleted (claimId : Option String)
  | settleLifecycleStatus (held : DataLakeStatus) (set : LakeSettleFields)
  -- The first write of `claimFilesArchivedAt` and of `claimFilesDeletedAt`.
  | setFilesArchivedAtIfUnset
  | setFilesDeletedAtIfUnset
  | delete
  | findArchivedByDataLakeTag (scope : MembershipScope) (stampedAt : Option Time)
  | findByContentHashesInDataLake (hashes : List String) (datalakeTag : String)
  | deleteManyInIds (ids : List String)
  | unarchiveByDataLakeTag (scope : MembershipScope) (stampedAt : Option Time)
  | archiveByDataLakeTag (scope : MembershipScope) (stamp : Option Time)
  | hasArchivedMemberExclusiveToDataLakeTag (scope : MembershipScope)
  -- The read and the row writes of `softDeleteByDataLakeTag`.
  | findUndeleted (scope : MembershipScope)
  | softDeleteRow (file : FabFile) (stamp : Time)
  | findDeletedByDataLakeTag (scope : MembershipScope) (stampedAt : Option Time)
  -- The row writes of `undeleteByDataLakeTag`.
  | undeleteRow (scope : MembershipScope) (stampedAt archiveStampToClear : Option Time) (file : FabFile)
  | findIdsByDataLakeTag (scope : MembershipScope)
  | hardDeleteWithChunks (id : String)
  | newDate
  | randomUUID
  | sendToQueue (message : DataLakeCleanupMessage)
  | receive
  | sideEffect (effect : SideEffect)

abbrev Op.Value : Op → Type
  | .findById => Option LakeDocument
  | .settleLifecycleStatus .. => Option LakeDocument
  | .setFilesArchivedAtIfUnset => Option LakeDocument
  | .setFilesDeletedAtIfUnset => Option LakeDocument
  | .listByLake _ => List LakeGrant
  | .claimArchiving => Bool
  | .claimDeleting => Bool
  | .claimUnarchiving => Bool
  | .claimRestoring => Bool
  | .claimPurging _ => Bool
  | .beginPurgeExecution _ => Bool
  | .releasePurgingToDeleted _ => Bool
  | .hasArchivedMemberExclusiveToDataLakeTag _ => Bool
  | .softDeleteRow .. => Bool
  | .undeleteRow .. => Bool
  | .findArchivedByDataLakeTag .. => List FabFile
  | .findByContentHashesInDataLake .. => List FabFile
  | .findUndeleted _ => List FabFile
  | .findDeletedByDataLakeTag .. => List FabFile
  | .findIdsByDataLakeTag _ => List FabFile
  | .unarchiveByDataLakeTag .. => Nat
  | .archiveByDataLakeTag .. => Nat
  | .newDate => Time
  | .randomUUID => String
  | .receive => DataLakeCleanupMessage
  | .delete => Unit
  | .deleteManyInIds _ => Unit
  | .hardDeleteWithChunks _ => Unit
  | .sendToQueue _ => Unit
  | .sideEffect _ => Unit

abbrev Async := Program Op Op.Value LakeError

def await (op : Op) : Async op.Value := .perform op

/-! ### The store -/

/-- What the calls did, as far as a run is judged by it. -/
inductive Event where
  | listedArchived (thread : Nat)
  | matchedLive (thread : Nat)
  | unarchived (ids : List String)
  | sent (purgeClaimId : Option String)
  | began (purgeClaimId stored : Option String)
  | restoring
  deriving DecidableEq

structure World where
  lake : Option LakeDocument
  grants : List AccessGrant := []
  files : FabFiles
  /-- The marks of each row that is stored. -/
  marks : FabFile → Option Marks
  now : Time := 0
  /-- Every id drawn so far. -/
  drawn : List String := []
  queue : List DataLakeCleanupMessage := []
  /-- Newest first. -/
  log : List Event := []

/-- What the outside world picks for an operation. -/
structure Draw where
  uuid : String := ""
  message : Nat := 0
  deriving DecidableEq

namespace World

def find (w : World) (matching : FabFile → Marks → Bool) : List FabFile :=
  w.files.files.filter fun f => (w.marks f).any (matching f)

def mark (w : World) (matching : FabFile → Marks → Bool) (set : Marks → Marks) : World :=
  { w with marks := fun f => (w.marks f).map fun m => if matching f m then set m else m }

/-- `updateOne` on the lake: whether it matched, and what is stored then. -/
def updateLake (w : World) (matching : LakeDocument → Bool) (set : LakeDocument → LakeDocument) : Bool × World :=
  match w.lake with
  | none => (false, w)
  | some lake => if matching lake then (true, { w with lake := some (set lake) }) else (false, w)

/-- `findOneAndUpdate` on the lake. -/
def findOneAndUpdate (w : World) (matching : LakeDocument → Bool) (set : LakeDocument → LakeDocument) :
    Option LakeDocument × World :=
  let (matched, after) := w.updateLake matching set
  (if matched then after.lake else none, after)

section Lemmas
variable {w w' : World} {matching : LakeDocument → Bool} {set : LakeDocument → LakeDocument}

theorem updateLake_true (h : w.updateLake matching set = (true, w')) :
    ∃ lake, w.lake = some lake ∧ matching lake = true ∧ w' = { w with lake := some (set lake) } := by
  unfold updateLake at h
  split at h
  · cases h
  · rename_i lake stored
    split at h
    · rename_i matched
      cases h
      exact ⟨lake, stored, matched, rfl⟩
    · cases h

theorem updateLake_false (h : w.updateLake matching set = (false, w')) : w' = w := by
  unfold updateLake at h
  split at h
  · cases h
    rfl
  · split at h
    · cases h
    · cases h
      rfl

theorem findOneAndUpdate_cases {found : Option LakeDocument} (h : w.findOneAndUpdate matching set = (found, w')) :
    (found = none ∧ w' = w) ∨
      ∃ lake, w.lake = some lake ∧ matching lake = true ∧ found = some (set lake) ∧ w' = { w with lake := some (set lake) } := by
  unfold findOneAndUpdate at h
  cases updated : w.updateLake matching set with
  | mk matched after =>
    rw [updated] at h
    cases matched with
    | false =>
      cases h
      exact Or.inl ⟨rfl, updateLake_false updated⟩
    | true =>
      obtain ⟨lake, stored, matched, same⟩ := updateLake_true updated
      cases h
      exact Or.inr ⟨lake, stored, matched, by rw [same]; rfl, same⟩

end Lemmas

def record (w : World) (e : Event) : World := { w with log := e :: w.log }

def claimLifecycleStatus (w : World) (held : List DataLakeStatus) (status : DataLakeStatus) : Bool × World :=
  w.updateLake (held.contains ·.status) fun lake => { lake with status }

end World

def LakeSettleFields.apply (set : LakeSettleFields) (lake : LakeDocument) : LakeDocument :=
  { lake with
    status := set.status
    filesArchivedAt := set.filesArchivedAt.getD lake.filesArchivedAt
    filesDeletedAt := set.filesDeletedAt.getD lake.filesDeletedAt }

def archivedMember (casing : Casing) (scope : MembershipScope) (stampedAt : Option Time) (f : FabFile) (m : Marks) : Bool :=
  isMember casing scope f && m.deletedAt == none && stampedWith stampedAt m.archivedAt

/-- `findByContentHashesInDataLake` -/
def liveCopy (hashes : List String) (datalakeTag : String) (f : FabFile) (m : Marks) : Bool :=
  f.contentHash.any hashes.contains && m.deletedAt == none && m.archivedAt == none && f.tags.contains datalakeTag && !f.pending

def deletedMember (casing : Casing) (scope : MembershipScope) (stampedAt : Option Time) (f : FabFile) (m : Marks) : Bool :=
  isMember casing scope f && stampedWith stampedAt m.deletedAt

/-- The marks of a row that a restore brings back. -/
def Marks.undeleted (archiveStampToClear : Option Time) (m : Marks) : Marks where
  archivedAt := if archiveStampToClear.isSome ∧ m.archivedAt = archiveStampToClear then none else m.archivedAt
  deletedAt := none

/-- What one operation replies and stores. `none` is a draw that cannot come up. -/
def World.perform (casing : Casing) (i : Nat) (w : World) : (op : Op) → Draw → Option (op.Value × World)
  | .findById, _ => some (w.lake, w)
  | .listByLake dataLakeId, _ => some (lakeGrants w.grants dataLakeId w.now, w)
  | .claimArchiving, _ => some (w.claimLifecycleStatus [.draft, .active, .archiving] .archiving)
  | .claimDeleting, _ => some (w.claimLifecycleStatus [.draft, .active, .archiving, .archived, .deleting] .deleting)
  | .claimUnarchiving, _ => some (w.claimLifecycleStatus [.archived, .unarchiving, .restoring] .unarchiving)
  | .claimRestoring, draw =>
    if draw.uuid ∈ w.drawn then none
    else
      let (matched, after) := w.updateLake
        (fun lake => [DataLakeStatus.deleted, .restoring].contains lake.status && lake.purgeStartedAt == none)
        fun lake => { lake with status := .restoring, purgeClaimId := some draw.uuid }
      some (matched, if matched then { after with drawn := draw.uuid :: after.drawn, log := .restoring :: after.log } else w)
  | .claimPurging claimId, _ =>
    some (w.updateLake (fun lake => lake.status == .deleted && lake.purgeStartedAt == none)
      fun lake => { lake with status := .purging, purgeClaimId := some claimId })
  | .beginPurgeExecution claimId, _ =>
    let (matched, after) := w.updateLake
      (fun lake => [DataLakeStatus.deleted, .purging].contains lake.status && lake.purgeClaimId == claimId)
      fun lake => { lake with status := .purging, purgeStartedAt := some w.now }
    some (matched, if matched then after.record (.began claimId (w.lake.bind (·.purgeClaimId))) else w)
  | .releasePurgingToDeleted claimId, _ =>
    some (w.updateLake (fun lake => lake.status == .purging && lake.purgeClaimId == claimId && lake.purgeStartedAt == none)
      fun lake => { lake with status := .deleted })
  | .settleLifecycleStatus held set, _ => some (w.findOneAndUpdate (·.status == held) set.apply)
  | .setFilesArchivedAtIfUnset, _ =>
    some (w.findOneAndUpdate (·.filesArchivedAt == none) fun lake => { lake with filesArchivedAt := some w.now })
  | .setFilesDeletedAtIfUnset, _ =>
    some (w.findOneAndUpdate (·.filesDeletedAt == none) fun lake => { lake with filesDeletedAt := some w.now })
  | .delete, _ => some ((), { w with lake := none })
  | .findArchivedByDataLakeTag scope stampedAt, _ =>
    some (w.find (archivedMember casing scope stampedAt), w.record (.listedArchived i))
  | .findByContentHashesInDataLake hashes datalakeTag, _ => some (w.find (liveCopy hashes datalakeTag), w.record (.matchedLive i))
  | .deleteManyInIds ids, _ =>
    some ((), w.mark (fun f m => ids.contains f.id && m.deletedAt == none) fun m => { m with deletedAt := some w.now })
  | .unarchiveByDataLakeTag scope stampedAt, _ =>
    let restored := w.find (archivedMember casing scope stampedAt)
    some (restored.length, (w.mark (archivedMember casing scope stampedAt) fun m => { m with archivedAt := none }).record
      (.unarchived (restored.map (·.id))))
  | .archiveByDataLakeTag scope stamp, _ =>
    let matching := fun f (m : Marks) => isMember casing scope f && m.deletedAt == none && m.archivedAt == none
    some ((w.find matching).length, w.mark matching fun m => { m with archivedAt := some (stamp.getD w.now) })
  | .hasArchivedMemberExclusiveToDataLakeTag scope, _ =>
    some (!(w.find fun f m => isMember casing scope f && carriesNoOtherLakeMetaTag scope.datalakeTag f &&
      m.deletedAt == none && m.archivedAt != none).isEmpty, w)
  | .findUndeleted scope, _ => some (w.find fun f m => isMember casing scope f && m.deletedAt == none, w)
  | .softDeleteRow file stamp, _ =>
    let matching := fun f (m : Marks) => f.id == file.id && m.deletedAt == none
    some (!(w.find matching).isEmpty, w.mark matching fun m => { m with deletedAt := some stamp })
  | .findDeletedByDataLakeTag scope stampedAt, _ => some (w.find (deletedMember casing scope stampedAt), w)
  | .undeleteRow scope stampedAt archiveStampToClear file, _ =>
    let matching := fun f m => f.id == file.id && deletedMember casing scope stampedAt f m
    some (!(w.find matching).isEmpty, w.mark matching (·.undeleted archiveStampToClear))
  | .findIdsByDataLakeTag scope, _ => some (w.find fun f _ => isMember casing scope f, w)
  | .hardDeleteWithChunks id, _ => some ((), { w with marks := fun f => if f.id = id then none else w.marks f })
  | .newDate, _ => some (w.now, w)
  | .randomUUID, draw => if draw.uuid ∈ w.drawn then none else some (draw.uuid, { w with drawn := draw.uuid :: w.drawn })
  | .sendToQueue message, _ => some ((), { w with queue := message :: w.queue, log := .sent message.purgeClaimId :: w.log })
  | .receive, draw => (w.queue[draw.message]?).map fun message => (message, w)
  | .sideEffect _, _ => some ((), w)

/-- Time goes by. -/
def World.elapse (w : World) (t : Time) : Option World := if w.now ≤ t then some { w with now := t } else none

end Bike4Mind.DataLakes
