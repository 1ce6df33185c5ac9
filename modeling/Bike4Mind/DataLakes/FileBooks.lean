import Bike4Mind.DataLakes.MembershipAgrees

/-! One lake with its files, what is written about them, and the calls that move a file in or out. Each call is one atomic write. -/

namespace Bike4Mind.DataLakes
open Collections Concurrency

def LakeDocument.membership (lake : LakeDocument) : MembershipLake where
  id := lake.id.val
  datalakeTag := lake.datalakeTag
  fileTagPrefix := lake.fileTagPrefix
  createdByUserId := some lake.createdByUserId

namespace Books

/-! ### Charges -/

inductive FileStatus where
  | pending | complete
  deriving DecidableEq

inductive StorageOwner where
  | user (id : String)
  | org (id : String)
  deriving DecidableEq

/-- What none of these calls writes on a file. -/
structure StoredFile where
  id : String
  userId : String
  organizationId : Option String := none
  contentHash : Option String := none
  fileSize : Option Nat := none
  storageChargedAt : Option Time := none
  status : Option FileStatus := some .complete
  createdAt : Option Time := none
  deriving DecidableEq

def STORAGE_CHARGE_STAMP_CUTOFF : Time := 1791417600000

def isStorageCharged (row : StoredFile) : Bool :=
  if row.storageChargedAt ≠ none then true
  else if row.status ≠ some .complete then false
  else row.createdAt.any (· < STORAGE_CHARGE_STAMP_CUTOFF)

def chargedBytes (row : StoredFile) : Nat := if isStorageCharged row then row.fileSize.getD 0 else 0

def storageOwnerOf (row : StoredFile) : StorageOwner :=
  if blank row.organizationId then .user row.userId else .org (row.organizationId.getD "")

structure StorageDelta where
  owner : StorageOwner
  bytes : Int
  deriving DecidableEq

def addDelta (totals : OrderedMap StorageOwner Int) (delta : StorageDelta) : OrderedMap StorageOwner Int :=
  if delta.bytes = 0 then totals
  else totals.set delta.owner ((totals.get? delta.owner).getD 0 + delta.bytes)

/-- The totals by owner, without those that are 0. -/
def sumStorageDeltaByOwner (deltas : List StorageDelta) : List StorageDelta :=
  ((deltas.foldl addDelta ∅).entries.map fun entry => { owner := entry.1, bytes := entry.2 }).filter (·.bytes ≠ 0)

def groupStorageDeltaByOwner (swept : List StoredFile) (sign : Int) : List StorageDelta :=
  sumStorageDeltaByOwner (swept.map fun file => { owner := storageOwnerOf file, bytes := sign * chargedBytes file })

/-! ### The rows -/

structure FileState extends Marks where
  tags : Option (List FileTag) := none
  deriving DecidableEq

structure StoredFiles where
  files : List StoredFile
  distinct : (files.map (·.id)).Nodup

/-- The fields a membership signal is read from. -/
def StoredFile.signals (file : StoredFile) (state : FileState) : SignalSourceFile where
  userId := some file.userId
  tags := state.tags

def StoredFile.row (file : StoredFile) (state : FileState) : FabFile where
  id := file.id
  userId := file.userId
  contentHash := file.contentHash
  tags := (file.signals state).tagNames
  pending := file.status = some .pending

def FileState.live (state : FileState) : Bool := state.deletedAt == none

/-- A member of the lake that is not soft-deleted. -/
def liveMember (casing : Casing) (scope : MembershipScope) (file : StoredFile) (state : FileState) : Bool :=
  isMember casing scope (file.row state) && state.live

def DATALAKE_TAG_STRENGTH : ℚ := 1

/-! ### The operations -/

inductive MembershipAction where
  | added | removed
  deriving DecidableEq

/-- Calls that write neither a file's tags or marks nor a status of the lake, the log or a counter of a sweep. -/
inductive Aside where
  | cancelBatches
  | warnOnPrefixCollision
  | removeFromIndex
  | recordLakeConfigChange
  | setConnectionEnabled (connection : ConnectionKind) (enabled : Bool)
  | recomputeLakeStats
  | assertStorageOwnerTransferFits
  | markSourceShredded
  | reassignStorageOwner
  deriving DecidableEq

inductive Op where
  | findById
  | listByLake (dataLakeId : String)
  | claimArchiving
  | claimDeleting
  | claimUnarchiving
  | claimRestoring
  | settleLifecycleStatus (held : DataLakeStatus) (set : LakeSettleFields)
  | setFilesArchivedAtIfUnset
  | setFilesDeletedAtIfUnset
  -- `fabFiles.findById`
  | findFile (fabFileId : String)
  | pushTagReturningPriorState (fabFileId tagName : String)
  | pullTagsByFabFileId (fabFileId : String) (tagNames : List String)
  | findArchivedByDataLakeTag (scope : MembershipScope) (stampedAt : Option Time)
  | findByContentHashesInDataLake (hashes : List String) (datalakeTag : String)
  | deleteManyInIds (ids : List String)
  | unarchiveByDataLakeTag (scope : MembershipScope) (stampedAt : Option Time)
  | archiveByDataLakeTag (scope : MembershipScope) (stamp : Option Time)
  | hasArchivedMemberExclusiveToDataLakeTag (scope : MembershipScope)
  -- The read and the row writes of `softDeleteByDataLakeTag`.
  | findUndeleted (scope : MembershipScope)
  | softDeleteRow (fabFileId : String) (stamp : Time)
  | findDeletedByDataLakeTag (scope : MembershipScope) (stampedAt : Option Time)
  -- The row writes of `undeleteByDataLakeTag`.
  | undeleteRow (scope : MembershipScope) (stampedAt archiveStampToClear : Option Time) (fabFileId : String)
  | newDate
  | recordLakeMembershipChange (fabFileId : String) (action : MembershipAction)
  | incrementCurrentStorage (owner : StorageOwner) (bytes : Int)
  | aside (effect : Aside)

abbrev Op.Value : Op → Type
  | .findById => Option LakeDocument
  | .settleLifecycleStatus .. => Option LakeDocument
  | .setFilesArchivedAtIfUnset => Option LakeDocument
  | .setFilesDeletedAtIfUnset => Option LakeDocument
  | .listByLake _ => List LakeGrant
  | .claimArchiving => Bool
  | .claimDeleting => Bool
  | .claimUnarchiving => Bool
  | .claimRestoring => Bool
  | .hasArchivedMemberExclusiveToDataLakeTag _ => Bool
  | .softDeleteRow .. => Bool
  | .undeleteRow .. => Bool
  | .findFile _ => Option SignalSourceFile
  | .pushTagReturningPriorState .. => Option SignalSourceFile
  | .findArchivedByDataLakeTag .. => List StoredFile
  | .findByContentHashesInDataLake .. => List StoredFile
  | .findUndeleted _ => List StoredFile
  | .findDeletedByDataLakeTag .. => List StoredFile
  | .pullTagsByFabFileId .. => Nat
  | .unarchiveByDataLakeTag .. => Nat
  | .archiveByDataLakeTag .. => Nat
  | .newDate => Time
  | .deleteManyInIds _ => Unit
  | .recordLakeMembershipChange .. => Unit
  | .incrementCurrentStorage .. => Unit
  | .aside _ => Unit

theorem Op.answered (op : Op) : Nonempty op.Value := by
  cases op <;> first | exact ⟨none⟩ | exact ⟨[]⟩ | exact ⟨false⟩ | exact ⟨(0 : Nat)⟩ | exact ⟨()⟩

abbrev Async := Program Op Op.Value LakeError

def await (op : Op) : Async op.Value := .perform op

/-! ### The store -/

/-- One write of a file's tags or of its deletion, with the events recorded for it. -/
structure Write where
  thread : Nat
  file : StoredFile
  before : FileState
  after : FileState
  recorded : List MembershipAction := []
  deriving DecidableEq

structure Adjustment extends StorageDelta where
  thread : Nat
  deriving DecidableEq

structure World where
  lake : Option LakeDocument
  grants : List AccessGrant := []
  files : StoredFiles
  states : String → FileState
  now : Time := 0
  /-- Newest first. -/
  writes : List Write := []
  /-- Events no write of the call explains. -/
  orphans : List (String × MembershipAction) := []
  adjustments : List Adjustment := []
  /-- Rows a discard listed that were soft-deleted already. -/
  stale : List StoredFile := []

/-- The event goes to the last write of this call on the file. -/
def attach (i : Nat) (fabFileId : String) (action : MembershipAction) : List Write → Option (List Write)
  | [] => none
  | write :: rest =>
    if write.thread = i ∧ write.file.id = fabFileId then
      some ({ write with recorded := action :: write.recorded } :: rest)
    else (attach i fabFileId action rest).map (write :: ·)

namespace World

def find (w : World) (matching : StoredFile → FileState → Bool) : List StoredFile :=
  w.files.files.filter fun f => matching f (w.states f.id)

def get? (w : World) (id : String) : Option StoredFile := w.files.files.find? (·.id = id)

def write (w : World) (i : Nat) (file : StoredFile) (set : FileState → FileState) : World :=
  { w with
    states := Function.update w.states file.id (set (w.states file.id))
    writes := { thread := i, file, before := w.states file.id, after := set (w.states file.id) } :: w.writes }

/-- `updateOne` by id: the row as it was when it matched, and what is stored then. -/
def updateRow (w : World) (i : Nat) (id : String) (matching : StoredFile → FileState → Bool) (set : FileState → FileState) :
    Option FileState × World :=
  match w.get? id with
  | none => (none, w)
  | some file => if matching file (w.states id) then (some (w.states id), w.write i file set) else (none, w)

/-- `updateMany` of an archive mark. -/
def markArchived (w : World) (matching : StoredFile → FileState → Bool) (archivedAt : Option Time) : World :=
  { w with states := fun id =>
      match w.get? id with
      | some f => if matching f (w.states id) then { w.states id with archivedAt } else w.states id
      | none => w.states id }

def softDelete (w : World) (i : Nat) (id : String) (stamp : Time) : Bool × World :=
  let (moved, after) := w.updateRow i id (fun _ s => s.live) fun s => { s with deletedAt := some stamp }
  (moved.isSome, after)

/-- `deleteMany` by ids, which skips what is soft-deleted. -/
def softDeleteAll (w : World) (i : Nat) : List String → World
  | [] => w
  | id :: rest => softDeleteAll (w.softDelete i id w.now).2 i rest

def updateLake (w : World) (matching : LakeDocument → Bool) (set : LakeDocument → LakeDocument) : Bool × World :=
  match w.lake with
  | none => (false, w)
  | some lake => if matching lake then (true, { w with lake := some (set lake) }) else (false, w)

def findOneAndUpdate (w : World) (matching : LakeDocument → Bool) (set : LakeDocument → LakeDocument) :
    Option LakeDocument × World :=
  let (matched, after) := w.updateLake matching set
  (if matched then after.lake else none, after)

def claimLifecycleStatus (w : World) (held : List DataLakeStatus) (status : DataLakeStatus) : Bool × World :=
  w.updateLake (held.contains ·.status) fun lake => { lake with status }

def recordEvent (w : World) (i : Nat) (fabFileId : String) (action : MembershipAction) : World :=
  match attach i fabFileId action w.writes with
  | some writes => { w with writes }
  | none => { w with orphans := (fabFileId, action) :: w.orphans }

end World

def FileState.pushed (tagName : String) (s : FileState) : FileState :=
  { s with tags := some (s.tags.getD [] ++ [{ name := some tagName, strength := some DATALAKE_TAG_STRENGTH }]) }

def FileState.pulled (f : StoredFile) (tagNames : List String) (s : FileState) : FileState :=
  { s with tags := ((f.signals s).pull tagNames).tags }

def FileState.undeleted (archiveStampToClear : Option Time) (s : FileState) : FileState :=
  { s with toMarks := s.toMarks.undeleted archiveStampToClear }

/-- What one operation replies and stores. -/
def World.perform (casing : Casing) (i : Nat) (w : World) (uuid : String) : (op : Op) → op.Value × World
  | .findById => (w.lake, w)
  | .listByLake dataLakeId => (lakeGrants w.grants dataLakeId w.now, w)
  | .claimArchiving => w.claimLifecycleStatus [.draft, .active, .archiving] .archiving
  | .claimDeleting => w.claimLifecycleStatus [.draft, .active, .archiving, .archived, .deleting] .deleting
  | .claimUnarchiving => w.claimLifecycleStatus [.archived, .unarchiving, .restoring] .unarchiving
  | .claimRestoring =>
    w.updateLake (fun lake => [DataLakeStatus.deleted, .restoring].contains lake.status && lake.purgeStartedAt == none)
      fun lake => { lake with status := .restoring, purgeClaimId := some uuid }
  | .settleLifecycleStatus held set => w.findOneAndUpdate (·.status == held) set.apply
  | .setFilesArchivedAtIfUnset =>
    w.findOneAndUpdate (·.filesArchivedAt == none) fun lake => { lake with filesArchivedAt := some w.now }
  | .setFilesDeletedAtIfUnset =>
    w.findOneAndUpdate (·.filesDeletedAt == none) fun lake => { lake with filesDeletedAt := some w.now }
  | .findFile id => (((w.get? id).filter fun _ => (w.states id).live).map (·.signals (w.states id)), w)
  | .pushTagReturningPriorState id tagName =>
    if tagName = "" then (none, w)
    else
      let (moved, after) := w.updateRow i id (fun f s => s.live && !(f.signals s).tagNames.contains tagName) (·.pushed tagName)
      (moved.bind fun prior => (w.get? id).map (·.signals prior), after)
  | .pullTagsByFabFileId id tagNames =>
    match w.get? id with
    | none => (0, w)
    | some file =>
      let (moved, after) := w.updateRow i id (fun f s => (f.signals s).tagNames.any tagNames.contains) (·.pulled file tagNames)
      (if moved.isSome then 1 else 0, after)
  | .findArchivedByDataLakeTag scope stampedAt =>
    (w.find fun f s => archivedMember casing scope stampedAt (f.row s) s.toMarks, w)
  | .findByContentHashesInDataLake hashes datalakeTag => (w.find fun f s => liveCopy hashes datalakeTag (f.row s) s.toMarks, w)
  | .deleteManyInIds ids =>
    ((), { w.softDeleteAll i ids with
      stale := (w.find fun f s => ids.contains f.id && !s.live) ++ w.stale })
  | .unarchiveByDataLakeTag scope stampedAt =>
    let matching := fun (f : StoredFile) (s : FileState) => archivedMember casing scope stampedAt (f.row s) s.toMarks
    ((w.find matching).length, w.markArchived matching none)
  | .archiveByDataLakeTag scope stamp =>
    let matching := fun (f : StoredFile) (s : FileState) => isMember casing scope (f.row s) && s.live && s.archivedAt == none
    ((w.find matching).length, w.markArchived matching (some (stamp.getD w.now)))
  | .hasArchivedMemberExclusiveToDataLakeTag scope =>
    (!(w.find fun f s => isMember casing scope (f.row s) && carriesNoOtherLakeMetaTag scope.datalakeTag (f.row s) &&
      s.live && s.archivedAt != none).isEmpty, w)
  | .findUndeleted scope => (w.find (liveMember casing scope), w)
  | .softDeleteRow id stamp => w.softDelete i id stamp
  | .findDeletedByDataLakeTag scope stampedAt => (w.find fun f s => deletedMember casing scope stampedAt (f.row s) s.toMarks, w)
  | .undeleteRow scope stampedAt archiveStampToClear id =>
    let (moved, after) := w.updateRow i id (fun f s => deletedMember casing scope stampedAt (f.row s) s.toMarks)
      (·.undeleted archiveStampToClear)
    (moved.isSome, after)
  | .newDate => (w.now, w)
  | .recordLakeMembershipChange id action => ((), w.recordEvent i id action)
  | .incrementCurrentStorage owner bytes => ((), { w with adjustments := { owner, bytes, thread := i } :: w.adjustments })
  | .aside _ => ((), w)

/-- Time goes by. -/
def World.elapse (w : World) (t : Time) : Option World := if w.now ≤ t then some { w with now := t } else none

/-! ### Rows and writes -/

namespace World
variable {w : World} {i : Nat} {id : String} {matching : StoredFile → FileState → Bool} {set : FileState → FileState}

theorem get?_some {f : StoredFile} (found : w.get? id = some f) : f ∈ w.files.files ∧ f.id = id :=
  ⟨List.mem_of_find?_eq_some found, by simpa using List.find?_some found⟩

theorem get?_of_mem {f : StoredFile} (stored : f ∈ w.files.files) : w.get? f.id = some f := by
  cases found : w.get? f.id with
  | none => exact absurd (List.find?_eq_none.mp found f stored) (by simp)
  | some g =>
    obtain ⟨member, same⟩ := get?_some found
    rw [List.inj_on_of_nodup_map w.files.distinct member stored same]

theorem updateRow_cases : w.updateRow i id matching set = (none, w) ∨
    ∃ f, w.get? id = some f ∧ matching f (w.states id) = true ∧
      w.updateRow i id matching set = (some (w.states id), w.write i f set) := by
  unfold updateRow
  cases found : w.get? id with
  | none => exact Or.inl rfl
  | some f =>
    by_cases matched : matching f (w.states id) = true
    · exact Or.inr ⟨f, rfl, matched, if_pos matched⟩
    · exact Or.inl (if_neg matched)

theorem softDelete_cases {stamp : Time} : w.softDelete i id stamp = (false, w) ∨
    ∃ f, w.get? id = some f ∧ (w.states id).live = true ∧
      w.softDelete i id stamp = (true, w.write i f fun s => { s with deletedAt := some stamp }) := by
  unfold softDelete
  rcases @updateRow_cases w i id (fun _ s => s.live) fun s => { s with deletedAt := some stamp } with missed | ⟨f, found, live, moved⟩
  · exact Or.inl (by rw [missed]; rfl)
  · exact Or.inr ⟨f, found, live, by rw [moved]; rfl⟩

end World

/-! ### What the writes of a file add up to -/

section Histories
variable (view : StoredFile → FileState → Bool)

/-- The writes of a file take its view from `first` to `last`. -/
def Chained (id : String) (first : Bool) : List Write → Bool → Prop
  | [], last => first = last
  | write :: rest, last =>
    if write.file.id = id then view write.file write.after = last ∧ Chained id first rest (view write.file write.before)
    else Chained id first rest last

def count (b : Bool) : Int := if b then 1 else 0

/-- How many files a write brings under the view: one, none, or one less. -/
def Write.change (write : Write) : Int := count (view write.file write.after) - count (view write.file write.before)

variable {view} {id : String} {first last : Bool} {writes : List Write}

theorem chained_cons {write : Write} (own : write.file.id = id) : Chained view id first (write :: writes) last ↔
    view write.file write.after = last ∧ Chained view id first writes (view write.file write.before) := by
  show (if _ then _ else _) ↔ _
  rw [if_pos own]

theorem chained_other {write : Write} (other : write.file.id ≠ id) :
    Chained view id first (write :: writes) last ↔ Chained view id first writes last := by
  show (if _ then _ else _) ↔ _
  rw [if_neg other]

end Histories

end Books
end Bike4Mind.DataLakes
