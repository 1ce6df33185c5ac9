import Bike4Mind.DataLakes.FileBooks
import Bike4Mind.DataLakes.LakeCalls

/-! The calls that take files into the lake and out of it, with the events and the charges they record. -/

namespace Bike4Mind.DataLakes.Books
open Collections Concurrency

/-- A failure is logged and swallowed. -/
def bestEffort (op : Op) (none : op.Value) : Async op.Value := tryCatch (await op) fun _ => pure none

def loadActiveLakeGrants (lake : LakeDocument) : Async (List LakeGrant) := await (.listByLake lake.id.val)

def resolveCanManageLake (lake : LakeDocument) (actor : ManageActor) : Async Bool := do
  return canManageLake lake.toDataLake actor (← loadActiveLakeGrants lake)

/-- One event for each file. -/
def recordMembershipChanges (action : MembershipAction) : List StoredFile → Async Unit
  | [] => pure ()
  | file :: rest => do
    await (.recordLakeMembershipChange file.id action)
    recordMembershipChanges action rest

def bestEffortAdjustOwnerStorage : List StorageDelta → Async Unit
  | [] => pure ()
  | delta :: rest => do
    bestEffort (.incrementCurrentStorage delta.owner delta.bytes) ()
    bestEffortAdjustOwnerStorage rest

/-! ### Single files -/

/-- The quota gate of a join. -/
def joinFits (fabFileId : String) (ownerTransferPreCleared : Bool) : Async Unit := do
  if ownerTransferPreCleared then return ()
  else
    match ← await (.findFile fabFileId) with
    | none => return ()
    | some _ => await (.aside .assertStorageOwnerTransferFits)

def recordIf (condition : Bool) (fabFileId : String) (action : MembershipAction) : Async Unit := do
  if condition then await (.recordLakeMembershipChange fabFileId action) else return ()

def addFileToLake (casing : Casing) (actor : ManageActor) (lake : LakeDocument) (fabFileId : String)
    (ownerTransferPreCleared : Bool) : Async Unit := do
  if !(← resolveCanManageLake lake actor) then
    .throw (.badRequest "You do not have permission to add files to this data lake")
  else
    joinFits fabFileId ownerTransferPreCleared
    let priorState ← await (.pushTagReturningPriorState fabFileId lake.datalakeTag)
    recordIf (priorState.isSome && !satisfiesMembershipScope casing lake.membership.scope priorState) fabFileId .added
    await (.aside .reassignStorageOwner)

/-- A file the lake does not hold. -/
def refuseRemoval (file : Option SignalSourceFile) : Async (List (String × ℚ)) := do
  if file.isSome then
    await (.aside .markSourceShredded)
    await (.aside .reassignStorageOwner)
  .throw (.notFound "File not found in this data lake")

def removeFileFromLake (casing : Casing) (actor : ManageActor) (lake : LakeDocument) (fabFileId : String) :
    Async (List (String × ℚ)) := do
  if !(← resolveCanManageLake lake actor) then
    .throw (.badRequest "You do not have permission to remove files from this data lake")
  else
    let file ← await (.findFile fabFileId)
    let signals := lakeMembershipSignals casing lake.membership file
    if !signals.inLake then refuseRemoval file
    else
      let pulled ← await (.pullTagsByFabFileId fabFileId signals.tagsToPull)
      await (.aside .markSourceShredded)
      recordIf (decide (0 < pulled)) fabFileId .removed
      await (.aside .reassignStorageOwner)
      return signals.contentTags

/-! ### Whole lakes -/

/-- The lake, for a caller who manages it. -/
def loadManagedLake (actor : ManageActor) (denied : LakeError) : Async LakeDocument := do
  match ← await .findById with
  | none => .throw (.notFound "Data lake not found")
  | some existing =>
    if ← resolveCanManageLake existing actor then return existing else .throw denied

/-- `if (!entered)` with its refusal. -/
def claimed (claim : Async Bool) (refuse : Async Unit) : Async Unit := do
  if ← claim then return () else refuse

def setConnections (enabled : Bool) : Async Unit := do
  bestEffort (.aside (.setConnectionEnabled .drive enabled)) ()
  bestEffort (.aside (.setConnectionEnabled .gitHub enabled)) ()

/-- A settle that lost names the status that won. -/
def refuseSettle (absent : Async Unit) (moved : DataLakeStatus → String) : Async Unit := do
  match ← await .findById with
  | none => absent
  | some current => .throw (.badRequest (moved current.status))

/-! ### Archive -/

/-- `claimFilesArchivedAt` -/
def claimFilesArchivedAt : Async (Option Time) := do
  match ← await .setFilesArchivedAtIfUnset with
  | some lake => return lake.filesArchivedAt
  | none => return (← await .findById).bind (·.filesArchivedAt)

def archiveStamp (existing : LakeDocument) : Async (Option Time) := do
  if existing.filesArchivedAt.isSome then claimFilesArchivedAt
  else if ← await (.hasArchivedMemberExclusiveToDataLakeTag { datalakeTag := existing.datalakeTag }) then return none
  else claimFilesArchivedAt

def settleArchived : Async Unit := do
  match ← await (.settleLifecycleStatus .archiving { status := .archived }) with
  | some _ => return ()
  | none => refuseSettle (.throw (.notFound "Data lake not found after archive")) fun status =>
      s!"This data lake moved to '{status.text}' while it was being archived; its files were archived but the archive did not complete"

def archiveClaimed (existing : LakeDocument) : Async Unit := do
  await (.aside .cancelBatches)
  let stamp ← archiveStamp existing
  await (.aside .warnOnPrefixCollision)
  let _ ← await (.archiveByDataLakeTag (lakeMembershipScope existing) stamp)
  bestEffort (.aside .removeFromIndex) ()
  settleArchived
  setConnections false
  bestEffort (.aside .recordLakeConfigChange) ()
  await (.aside .recomputeLakeStats)

def archiveDataLake (actor : ManageActor) : Async Unit := do
  let existing ← loadManagedLake actor (.badRequest "You do not have permission to archive this data lake")
  if existing.status = .purging then
    .throw (.badRequest "This data lake is being permanently deleted and can no longer be archived")
  else if existing.status = .archived then return ()
  else if existing.status ∈ [.deleting, .deleted, .restoring, .unarchiving] then
    .throw (.badRequest s!"Cannot archive a data lake in '{existing.status.text}' status")
  else
    claimed (await .claimArchiving)
      (.throw (.badRequest "This data lake changed status mid-request and can no longer be archived"))
    archiveClaimed existing

/-! ### Unarchive -/

/-- `.map(f => f.contentHash).filter(h => !!h)` -/
def contentHashes (files : List StoredFile) : List String := files.filterMap fun f => f.contentHash.filter (· ≠ "")

def duplicatesOf (files live : List StoredFile) : List StoredFile :=
  files.filter fun f => !blank f.contentHash && (live.map (·.contentHash)).contains f.contentHash

/-- Soft-deletes the duplicates while the status is still the one claimed, and takes their bytes off. -/
def discard (duplicates : List StoredFile) : Async Nat := do
  if duplicates = [] then return 0
  else
    let holder ← await .findById
    if holder.any (·.status == .unarchiving) then
      await (.deleteManyInIds (duplicates.map (·.id)))
      bestEffortAdjustOwnerStorage (groupStorageDeltaByOwner duplicates (-1))
      return duplicates.length
    else return 0

def dedupArchived (existing : LakeDocument) (archived : List StoredFile) : Async Nat := do
  if contentHashes archived = [] then return 0
  else
    let live ← await (.findByContentHashesInDataLake (contentHashes archived) existing.datalakeTag)
    discard (duplicatesOf archived live)

/-- The settle of either reversal: a lake that vanished is let pass, one that moved is reported. -/
def settleActive (held : DataLakeStatus) (set : LakeSettleFields) : Async Unit := do
  match ← await (.settleLifecycleStatus held set) with
  | some _ =>
    bestEffort (.aside .recordLakeConfigChange) ()
    setConnections true
  | none => refuseSettle (pure ()) fun status =>
      s!"This data lake moved to '{status.text}' while it was being restored; the restore did not complete"

def unarchiveClaimed (existing : LakeDocument) : Async UnarchiveResult := do
  let scope := lakeMembershipScope existing
  let archived ← await (.findArchivedByDataLakeTag scope existing.filesArchivedAt)
  let skippedDuplicates ← dedupArchived existing archived
  let restoredCount ← await (.unarchiveByDataLakeTag scope existing.filesArchivedAt)
  settleActive .unarchiving { status := .active, filesArchivedAt := some none }
  await (.aside .recomputeLakeStats)
  return { restoredCount, skippedDuplicates }

/-- The refusal names the status that won. -/
def refuseUnarchive : Async Unit :=
  refuseSettle (.throw (.badRequest "This data lake is no longer available to restore")) fun status =>
    s!"Cannot restore a data lake in '{status.text}' status"

def unarchiveDataLake (actor : ManageActor) : Async UnarchiveResult := do
  let existing ← loadManagedLake actor (.badRequest "You do not have permission to restore this data lake")
  if existing.status ∈ [.archived, .unarchiving, .restoring] then
    claimed (await .claimUnarchiving) refuseUnarchive
    unarchiveClaimed existing
  else .throw (.badRequest s!"Cannot restore a data lake in '{existing.status.text}' status")

/-! ### Delete -/

/-- `claimFilesDeletedAt` -/
def claimFilesDeletedAt : Async (Option Time) := do
  match ← await .setFilesDeletedAtIfUnset with
  | some lake => return lake.filesDeletedAt
  | none => return (← await .findById).bind (·.filesDeletedAt)

/-- A teardown from before lakes carried the stamp stays without one. -/
def deleteStamp (existing : LakeDocument) : Async (Option Time) := do
  if existing.status = .deleting ∧ existing.filesDeletedAt = none then return none else claimFilesDeletedAt

/-- The files whose row moved. -/
def sweepRows (move : String → Op) (moved : (id : String) → (move id).Value → Bool) : List StoredFile → Async (List StoredFile)
  | [] => pure []
  | file :: rest => do
    let reply ← await (move file.id)
    let swept ← sweepRows move moved rest
    return if moved file.id reply then file :: swept else swept

/-- `at: Date = new Date()` -/
def dateOr : Option Time → Async Time
  | some stamp => pure stamp
  | none => await .newDate

def softDeleteByDataLakeTag (scope : MembershipScope) (stamp : Option Time) : Async (List StoredFile) := do
  let stamped ← dateOr stamp
  sweepRows (.softDeleteRow · stamped) (fun _ flipped => flipped) (← await (.findUndeleted scope))

def settleDeleted : Async Unit := do
  match ← await (.settleLifecycleStatus .deleting { status := .deleted }) with
  | some _ => return ()
  | none => refuseSettle (.throw (.notFound "Data lake not found after delete")) fun status =>
      s!"This data lake moved to '{status.text}' while it was being deleted; its files were soft-deleted but the delete did not complete"

def deleteClaimed (existing : LakeDocument) (stamp : Option Time) : Async Unit := do
  await (.aside .warnOnPrefixCollision)
  let swept ← softDeleteByDataLakeTag (lakeMembershipScope existing) stamp
  recordMembershipChanges .removed swept
  bestEffortAdjustOwnerStorage (groupStorageDeltaByOwner swept (-1))
  bestEffort (.aside .removeFromIndex) ()
  settleDeleted
  setConnections false
  bestEffort (.aside .recordLakeConfigChange) ()

def deleteDataLake (actor : ManageActor) : Async Unit := do
  let existing ← loadManagedLake actor (.badRequest "You do not have permission to delete this data lake")
  if existing.status = .deleted then return ()
  else if existing.status = .purging then
    .throw (.badRequest "This data lake is being permanently deleted and can no longer be deleted")
  else if existing.status ∈ [.restoring, .unarchiving] then
    .throw (.badRequest "This data lake is being restored and cannot be deleted right now")
  else
    await (.aside .cancelBatches)
    let stamp ← deleteStamp existing
    claimed (await .claimDeleting)
      (.throw (.badRequest "This data lake changed status mid-request and can no longer be deleted"))
    deleteClaimed existing stamp

/-! ### Restore -/

def undeleteByDataLakeTag (scope : MembershipScope) (excludeIds : List String) (stampedAt archiveStampToClear : Option Time) :
    Async (List StoredFile) := do
  let candidates ← await (.findDeletedByDataLakeTag scope stampedAt)
  sweepRows (.undeleteRow scope stampedAt archiveStampToClear ·) (fun _ moved => moved)
    (candidates.filter fun f => !excludeIds.contains f.id)

/-- The deleted rows that stay discarded. -/
def dedupDeleted (existing : LakeDocument) (deleted : List StoredFile) : Async (List StoredFile) := do
  if contentHashes deleted = [] then return []
  else
    let live ← await (.findByContentHashesInDataLake (contentHashes deleted) existing.datalakeTag)
    return duplicatesOf deleted live

def restoreClaimed (existing : LakeDocument) : Async UnarchiveResult := do
  let scope := lakeMembershipScope existing
  let deleted ← await (.findDeletedByDataLakeTag scope existing.filesDeletedAt)
  let duplicates ← dedupDeleted existing deleted
  let restored ← undeleteByDataLakeTag scope (duplicates.map (·.id)) existing.filesDeletedAt existing.filesArchivedAt
  recordMembershipChanges .added restored
  bestEffortAdjustOwnerStorage (groupStorageDeltaByOwner restored 1)
  settleActive .restoring { status := .active, filesDeletedAt := some none, filesArchivedAt := some none }
  await (.aside .recomputeLakeStats)
  return { restoredCount := restored.length, skippedDuplicates := duplicates.length }

def restoreDeletedDataLake (actor : ManageActor) : Async UnarchiveResult := do
  let existing ← loadManagedLake actor (.badRequest "You do not have permission to restore this data lake")
  if existing.status = .purging then
    .throw (.badRequest "This data lake is being permanently deleted and can no longer be restored")
  else if existing.status ∈ [.deleted, .restoring] then
    claimed (await .claimRestoring)
      (.throw (.badRequest "This data lake is being permanently deleted and can no longer be restored"))
    restoreClaimed existing
  else .throw (.badRequest s!"Cannot restore a data lake in '{existing.status.text}' status")

end Bike4Mind.DataLakes.Books
