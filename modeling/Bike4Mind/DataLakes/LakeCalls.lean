import Bike4Mind.DataLakes.LakeStore

/-! The calls that move a lake through its lifecycle. -/

namespace Bike4Mind.DataLakes
open Concurrency

def DataLakeStatus.text : DataLakeStatus → String
  | .draft => "draft"
  | .active => "active"
  | .archiving => "archiving"
  | .archived => "archived"
  | .unarchiving => "unarchiving"
  | .restoring => "restoring"
  | .deleting => "deleting"
  | .deleted => "deleted"
  | .purging => "purging"

/-- A failure is logged and swallowed. -/
def bestEffort (effect : SideEffect) : Async Unit := tryCatch (await (.sideEffect effect)) fun _ => pure ()

def loadActiveLakeGrants (lake : LakeDocument) : Async (List LakeGrant) := await (.listByLake lake.id.val)

/-- The lake and its grants, for a caller who manages it. -/
def loadManagedLake (actor : ManageActor) (denied : LakeError) : Async LakeDocument := do
  match ← await .findById with
  | none => .throw (.notFound "Data lake not found")
  | some existing =>
    let grants ← loadActiveLakeGrants existing
    if canManageLake existing.toDataLake actor grants then return existing else .throw denied

/-- `if (!entered)` with its refusal. -/
def claimed (claim : Async Bool) (refuse : Async Unit) : Async Unit := do
  if ← claim then return () else refuse

def setConnections (enabled : Bool) : Async Unit := do
  bestEffort (.setConnectionEnabled .drive enabled)
  bestEffort (.setConnectionEnabled .gitHub enabled)

/-! ### Archive -/

/-- `claimFilesArchivedAt` -/
def claimFilesArchivedAt : Async (Option Time) := do
  match ← await .setFilesArchivedAtIfUnset with
  | some lake => return lake.filesArchivedAt
  | none => return (← await .findById).bind (·.filesArchivedAt)

def hasUnstampedArchive (existing : LakeDocument) : Async Bool := do
  if existing.filesArchivedAt.isSome then return false
  else await (.hasArchivedMemberExclusiveToDataLakeTag { datalakeTag := existing.datalakeTag })

def archiveStamp (existing : LakeDocument) : Async (Option Time) := do
  if ← hasUnstampedArchive existing then return none else claimFilesArchivedAt

def settleArchived : Async Unit := do
  match ← await (.settleLifecycleStatus .archiving { status := .archived }) with
  | some _ => return ()
  | none =>
    match ← await .findById with
    | none => .throw (.notFound "Data lake not found after archive")
    | some current => .throw (.badRequest s!"This data lake moved to '{current.status.text}' while it was being archived; its files were archived but the archive did not complete")

def archiveClaimed (existing : LakeDocument) : Async Unit := do
  await (.sideEffect .cancelBatches)
  let scope := lakeMembershipScope existing
  let stamp ← archiveStamp existing
  await (.sideEffect .warnOnPrefixCollision)
  let _ ← await (.archiveByDataLakeTag scope stamp)
  bestEffort .removeFromIndex
  settleArchived
  setConnections false
  bestEffort .recordLakeConfigChange
  await (.sideEffect .recomputeLakeStats)

def archiveDataLake (actor : ManageActor) : Async Unit := do
  let existing ← loadManagedLake actor (.badRequest "You do not have permission to archive this data lake")
  if existing.status = .purging then
    .throw (.badRequest "This data lake is being permanently deleted and can no longer be archived")
  else if existing.status = .archived then return ()
  else if existing.status ∈ [.deleting, .deleted, .restoring, .unarchiving] then
    .throw (.badRequest s!"Cannot archive a data lake in '{existing.status.text}' status")
  else
    claimed (await .claimArchiving)
      (.throw (.badRequest "This data lake changed status mid-request and can no longer be archived"))
    archiveClaimed existing

/-! ### Unarchive -/

structure UnarchiveResult where
  restoredCount : Nat
  skippedDuplicates : Nat
  deriving DecidableEq

/-- `.map(f => f.contentHash).filter(h => !!h)` -/
def contentHashes (files : List FabFile) : List String := files.filterMap fun f => f.contentHash.filter (· ≠ "")

def duplicatesOf (files live : List FabFile) : List FabFile :=
  files.filter fun f => !blank f.contentHash && (live.map (·.contentHash)).contains f.contentHash

/-- Soft-deletes the duplicates while the status is still the one claimed. -/
def discard (duplicates : List FabFile) : Async Nat := do
  if duplicates = [] then return 0
  else
    let holder ← await .findById
    if holder.any (·.status == .unarchiving) then
      await (.deleteManyInIds (duplicates.map (·.id)))
      bestEffort .adjustOwnerStorage
      return duplicates.length
    else return 0

def dedupArchived (existing : LakeDocument) (archived : List FabFile) : Async Nat := do
  if contentHashes archived = [] then return 0
  else
    let live ← await (.findByContentHashesInDataLake (contentHashes archived) existing.datalakeTag)
    discard (duplicatesOf archived live)

/-- The settle of either reversal: a lake that vanished is let pass, one that moved is reported. -/
def settleActive (held : DataLakeStatus) (set : LakeSettleFields) : Async Unit := do
  match ← await (.settleLifecycleStatus held set) with
  | some _ =>
    bestEffort .recordLakeConfigChange
    setConnections true
  | none =>
    match ← await .findById with
    | none => return ()
    | some current => .throw (.badRequest s!"This data lake moved to '{current.status.text}' while it was being restored; the restore did not complete")

def unarchiveClaimed (existing : LakeDocument) : Async UnarchiveResult := do
  let scope := lakeMembershipScope existing
  let stampedAt := existing.filesArchivedAt
  let archived ← await (.findArchivedByDataLakeTag scope stampedAt)
  let skippedDuplicates ← dedupArchived existing archived
  let restoredCount ← await (.unarchiveByDataLakeTag scope stampedAt)
  settleActive .unarchiving { status := .active, filesArchivedAt := some none }
  await (.sideEffect .recomputeLakeStats)
  return { restoredCount, skippedDuplicates }

/-- The refusal names the status that won. -/
def refuseUnarchive : Async Unit := do
  match ← await .findById with
  | some current => .throw (.badRequest s!"Cannot restore a data lake in '{current.status.text}' status")
  | none => .throw (.badRequest "This data lake is no longer available to restore")

def unarchiveDataLake (actor : ManageActor) : Async UnarchiveResult := do
  let existing ← loadManagedLake actor (.badRequest "You do not have permission to restore this data lake")
  if existing.status ∈ [.archived, .unarchiving, .restoring] then
    claimed (await .claimUnarchiving) refuseUnarchive
    unarchiveClaimed existing
  else .throw (.badRequest s!"Cannot restore a data lake in '{existing.status.text}' status")

/-! ### Delete -/

/-- `claimFilesDeletedAt` -/
def claimFilesDeletedAt : Async (Option Time) := do
  match ← await .setFilesDeletedAtIfUnset with
  | some lake => return lake.filesDeletedAt
  | none => return (← await .findById).bind (·.filesDeletedAt)

/-- A teardown from before lakes carried the stamp stays without one. -/
def deleteStamp (existing : LakeDocument) : Async (Option Time) := do
  if existing.status = .deleting ∧ existing.filesDeletedAt = none then return none else claimFilesDeletedAt

def softDeleteRows (stamp : Time) : List FabFile → Async (List FabFile)
  | [] => pure []
  | file :: rest => do
    let flipped ← await (.softDeleteRow file stamp)
    let swept ← softDeleteRows stamp rest
    return if flipped then file :: swept else swept

/-- `at: Date = new Date()` -/
def dateOr : Option Time → Async Time
  | some stamp => pure stamp
  | none => await .newDate

def softDeleteByDataLakeTag (scope : MembershipScope) (stamp : Option Time) : Async (List FabFile) := do
  let stamped ← dateOr stamp
  softDeleteRows stamped (← await (.findUndeleted scope))

/-- One audit row for each file, best effort. -/
def recordMembershipChanges : List FabFile → Async Unit
  | [] => pure ()
  | _ :: rest => do
    bestEffort .recordLakeMembershipChange
    recordMembershipChanges rest

def settleDeleted : Async Unit := do
  match ← await (.settleLifecycleStatus .deleting { status := .deleted }) with
  | some _ => return ()
  | none =>
    match ← await .findById with
    | none => .throw (.notFound "Data lake not found after delete")
    | some current => .throw (.badRequest s!"This data lake moved to '{current.status.text}' while it was being deleted; its files were soft-deleted but the delete did not complete")

def deleteClaimed (existing : LakeDocument) (stamp : Option Time) : Async Unit := do
  await (.sideEffect .warnOnPrefixCollision)
  let swept ← softDeleteByDataLakeTag (lakeMembershipScope existing) stamp
  recordMembershipChanges swept
  bestEffort .adjustOwnerStorage
  bestEffort .removeFromIndex
  settleDeleted
  setConnections false
  bestEffort .recordLakeConfigChange

def deleteDataLake (actor : ManageActor) : Async Unit := do
  let existing ← loadManagedLake actor (.badRequest "You do not have permission to delete this data lake")
  if existing.status = .deleted then return ()
  else if existing.status = .purging then
    .throw (.badRequest "This data lake is being permanently deleted and can no longer be deleted")
  else if existing.status ∈ [.restoring, .unarchiving] then
    .throw (.badRequest "This data lake is being restored and cannot be deleted right now")
  else
    await (.sideEffect .cancelBatches)
    let stamp ← deleteStamp existing
    claimed (await .claimDeleting)
      (.throw (.badRequest "This data lake changed status mid-request and can no longer be deleted"))
    deleteClaimed existing stamp

/-! ### Restore -/

def undeleteRows (scope : MembershipScope) (stampedAt archiveStampToClear : Option Time) :
    List FabFile → Async (List FabFile)
  | [] => pure []
  | file :: rest => do
    let moved ← await (.undeleteRow scope stampedAt archiveStampToClear file)
    let restored ← undeleteRows scope stampedAt archiveStampToClear rest
    return if moved then file :: restored else restored

def undeleteByDataLakeTag (scope : MembershipScope) (excludeIds : List String) (stampedAt archiveStampToClear : Option Time) :
    Async (List FabFile) := do
  let candidates ← await (.findDeletedByDataLakeTag scope stampedAt)
  undeleteRows scope stampedAt archiveStampToClear (candidates.filter fun f => !excludeIds.contains f.id)

/-- The deleted rows that stay discarded. -/
def dedupDeleted (existing : LakeDocument) (deleted : List FabFile) : Async (List FabFile) := do
  if contentHashes deleted = [] then return []
  else
    let live ← await (.findByContentHashesInDataLake (contentHashes deleted) existing.datalakeTag)
    return duplicatesOf deleted live

def restoreClaimed (existing : LakeDocument) : Async UnarchiveResult := do
  let scope := lakeMembershipScope existing
  let stampedAt := existing.filesDeletedAt
  let deleted ← await (.findDeletedByDataLakeTag scope stampedAt)
  let duplicates ← dedupDeleted existing deleted
  let restored ← undeleteByDataLakeTag scope (duplicates.map (·.id)) stampedAt existing.filesArchivedAt
  recordMembershipChanges restored
  bestEffort .adjustOwnerStorage
  settleActive .restoring { status := .active, filesDeletedAt := some none, filesArchivedAt := some none }
  await (.sideEffect .recomputeLakeStats)
  return { restoredCount := restored.length, skippedDuplicates := duplicates.length }

def restoreDeletedDataLake (actor : ManageActor) : Async UnarchiveResult := do
  let existing ← loadManagedLake actor (.badRequest "You do not have permission to restore this data lake")
  if existing.status = .purging then
    .throw (.badRequest "This data lake is being permanently deleted and can no longer be restored")
  else if existing.status ∈ [.deleted, .restoring] then
    claimed (await .claimRestoring)
      (.throw (.badRequest "This data lake is being permanently deleted and can no longer be restored"))
    restoreClaimed existing
  else .throw (.badRequest s!"Cannot restore a data lake in '{existing.status.text}' status")

/-! ### Purge -/

def acceptDataLakePurge (actor : ManageActor) (claimId : String) : Async Unit := do
  let _ ← loadManagedLake actor (.badRequest "You do not have permission to clean up this data lake")
  claimed (await (.claimPurging claimId)) (.throw (.badRequest "Data lake must be soft-deleted before cleanup"))
  bestEffort .recordLakeConfigChange

/-- The `cleanup` action of the lifecycle route: a claim without a message behind it is released. -/
def requestCleanup (actor : ManageActor) : Async Unit := do
  let lake ← loadManagedLake actor (.error "You do not have permission to clean up this data lake")
  if lake.status = .purging then .throw (.badRequest "This data lake is already being permanently deleted")
  else if lake.status ≠ .deleted then .throw (.badRequest "Data lake must be soft-deleted before cleanup")
  else
    let purgeClaimId ← await .randomUUID
    tryCatch (do
        acceptDataLakePurge actor purgeClaimId
        await (.sendToQueue { actor, purgeClaimId := some purgeClaimId }))
      fun e => do
        let _ ← tryCatch (await (.releasePurgingToDeleted (some purgeClaimId))) fun _ => pure false
        .throw e

def purgeFiles : List FabFile → Async Unit
  | [] => pure ()
  | file :: rest => do
    await (.sideEffect (.deleteStoredObjects file.id))
    await (.hardDeleteWithChunks file.id)
    purgeFiles rest

def spareSurvivors : List FabFile → Async Unit
  | [] => pure ()
  | file :: rest => do
    await (.sideEffect (.pullLakeTags file.id))
    spareSurvivors rest

/-- The sweep, once the generation is admitted. -/
def purgeAdmitted (existing : LakeDocument) : Async Unit := do
  await (.sideEffect .warnOnPrefixCollision)
  let scope := lakeMembershipScope existing
  let files ← await (.findIdsByDataLakeTag scope)
  await (.sideEffect .removeFromIndex)
  await (.sideEffect .shredMemory)
  await (.sideEffect .releaseConnections)
  purgeFiles files
  spareSurvivors (← await (.findIdsByDataLakeTag scope))
  await (.sideEffect .deleteLakeRows)
  await .delete

/-- A started generation that this message names. -/
def resumesStartedGeneration (existing : LakeDocument) (purgeClaimId : Option String) : Bool :=
  purgeClaimId != some "" && existing.purgeStartedAt.isSome && existing.purgeClaimId == purgeClaimId

def admitsCleanup (existing : LakeDocument) (message : DataLakeCleanupMessage) : Async Bool := do
  if resumesStartedGeneration existing message.purgeClaimId then return true
  else return canManageLake existing.toDataLake message.actor (← loadActiveLakeGrants existing)

def cleanupDeletedDataLake (message : DataLakeCleanupMessage) : Async Unit := do
  match ← await .findById with
  | none => return ()
  | some existing =>
    if !(← admitsCleanup existing message) then .throw (.badRequest "You do not have permission to clean up this data lake")
    else if existing.status ∉ [DataLakeStatus.purging, .deleted] then
      .throw (.badRequest "Data lake must be soft-deleted before cleanup")
    else
      claimed (await (.beginPurgeExecution message.purgeClaimId))
        (.throw (.badRequest "Cleanup generation no longer owns this data lake"))
      purgeAdmitted existing

/-- What the queue's consumer does with a refusal: it releases an unstarted purge of this message. -/
def releaseRefused (message : DataLakeCleanupMessage) : LakeError → Async Unit
  | .badRequest refusal => do
    if ← await (.releasePurgingToDeleted message.purgeClaimId) then return ()
    else
      let lake ← await .findById
      if lake.any fun l => l.purgeStartedAt.isSome && l.purgeClaimId == message.purgeClaimId then .throw (.badRequest refusal)
      else return ()
  | e => .throw e

/-- One delivery of a message. -/
def dispatchCleanup : Async Unit := do
  let message ← await .receive
  tryCatch (cleanupDeletedDataLake message) (releaseRefused message)

/-! ### All calls on one lake -/

inductive LakeCall where
  | archive (actor : ManageActor)
  | unarchive (actor : ManageActor)
  | delete (actor : ManageActor)
  | restore (actor : ManageActor)
  | requestCleanup (actor : ManageActor)
  | dispatchCleanup
  | releasePurge (claimId : Option String)

def LakeCall.program : LakeCall → Async Unit
  | .archive actor => archiveDataLake actor
  | .unarchive actor => do
    let _ ← unarchiveDataLake actor
    return ()
  | .delete actor => deleteDataLake actor
  | .restore actor => do
    let _ ← restoreDeletedDataLake actor
    return ()
  | .requestCleanup actor => DataLakes.requestCleanup actor
  | .dispatchCleanup => DataLakes.dispatchCleanup
  | .releasePurge claimId => do
    let _ ← await (.releasePurgingToDeleted claimId)
    return ()

end Bike4Mind.DataLakes
