import Bike4Mind.DataLakes.FileBookCalls

/-! Calls that let files join a lake and leave it, and what each may do next. -/

namespace Bike4Mind.DataLakes.Books
open Collections Concurrency

namespace Membership

/-! ### Runs -/

inductive MembershipCall where
  | addFileToLake (actor : ManageActor) (lake : LakeDocument) (fabFileId : String) (ownerTransferPreCleared : Bool)
  | removeFileFromLake (actor : ManageActor) (lake : LakeDocument) (fabFileId : String)
  | deleteDataLake (actor : ManageActor)
  | restoreDeletedDataLake (actor : ManageActor)

def MembershipCall.program (casing : Casing) : MembershipCall → Async Unit
  | addFileToLake actor lake fabFileId ownerTransferPreCleared =>
    Books.addFileToLake casing actor lake fabFileId ownerTransferPreCleared
  | removeFileFromLake actor lake fabFileId => do
    let _ ← Books.removeFileFromLake casing actor lake fabFileId
    return ()
  | deleteDataLake actor => Books.deleteDataLake actor
  | restoreDeletedDataLake actor => do
    let _ ← Books.restoreDeletedDataLake actor
    return ()

/-- The lake document a single-file call was handed. -/
def MembershipCall.lake? : MembershipCall → Option LakeDocument
  | addFileToLake _ lake _ _ => some lake
  | removeFileFromLake _ lake _ => some lake
  | _ => none

/-! ### What one call may do next -/

inductive Phase where
  | start
  | held (lake : LakeDocument)
  | pulling (lake : LakeDocument) (fabFileId : String) (tagNames : List String)
  -- `left` are the rows still to write, `owed` the files whose event is still to come.
  | moving (lake : LakeDocument) (action : MembershipAction) (left owed : List String)
  | closed

namespace Phase

def lake? : Phase → Option LakeDocument
  | start | closed => none
  | held lake | pulling lake _ _ | moving lake _ _ _ => some lake

def mayWrite : Phase → String → Prop
  | start, _ | held _, _ => True
  | pulling _ fabFileId _, id => id = fabFileId
  | moving _ _ left _, id => id ∈ left
  | closed, _ => False

def owed : Phase → List String
  | moving _ _ _ owed => owed
  | _ => []

def action : Phase → MembershipAction
  | moving _ action _ _ => action
  | _ => .added

end Phase

/-- Operations that neither write a file's tags or deletion nor record an event. -/
def quiet : Op → Bool
  | .pushTagReturningPriorState .. => false
  | .pullTagsByFabFileId .. => false
  | .deleteManyInIds _ => false
  | .softDeleteRow .. => false
  | .undeleteRow .. => false
  | .recordLakeMembershipChange .. => false
  | _ => true

def joined (casing : Casing) (lake : LakeDocument) (fabFileId : String) (priorState : Option SignalSourceFile) : Phase :=
  .moving lake .added [] (if priorState.isSome && !satisfiesMembershipScope casing lake.membership.scope priorState then [fabFileId] else [])

/-- A rejection that is caught leaves the call where it was, unless it still owed an event. -/
inductive Moves (casing : Casing) : Protocol Phase Op Op.Value LakeError
  | failed {p op e} : Moves casing p op (.error e) .closed
  | rejected {p op e} : p.owed = [] → Moves casing p op (.error e) p
  | quiet {p op v} : quiet op = true → Moves casing p op (.ok v) p
  | read {lake} : Moves casing .start .findById (.ok (some lake)) (.held lake)
  | joined {lake fabFileId priorState} : Moves casing (.held lake) (.pushTagReturningPriorState fabFileId lake.datalakeTag)
      (.ok priorState) (joined casing lake fabFileId priorState)
  | loaded {lake fabFileId file} : (lakeMembershipSignals casing lake.membership file).inLake = true →
      Moves casing (.held lake) (.findFile fabFileId) (.ok file)
        (.pulling lake fabFileId (lakeMembershipSignals casing lake.membership file).tagsToPull)
  | pulled {lake fabFileId tagNames pulled} : Moves casing (.pulling lake fabFileId tagNames)
      (.pullTagsByFabFileId fabFileId tagNames) (.ok pulled)
      (.moving lake .removed [] (if decide (0 < pulled) then [fabFileId] else []))
  | listed {lake files} : Moves casing (.held lake) (.findUndeleted (lakeMembershipScope lake)) (.ok files)
      (.moving lake .removed (files.map (·.id)) [])
  | swept {lake fabFileId stamp left owed flipped} : Moves casing (.moving lake .removed (fabFileId :: left) owed)
      (.softDeleteRow fabFileId stamp) (.ok flipped)
      (.moving lake .removed left (owed ++ if flipped then [fabFileId] else []))
  | candidates {lake stampedAt} {files chosen : List StoredFile} : chosen.Sublist files →
      Moves casing (.held lake) (.findDeletedByDataLakeTag (lakeMembershipScope lake) stampedAt) (.ok files)
        (.moving lake .added (chosen.map (·.id)) [])
  | undeleted {lake stampedAt archiveStampToClear fabFileId left owed moved} :
      Moves casing (.moving lake .added (fabFileId :: left) owed)
        (.undeleteRow (lakeMembershipScope lake) stampedAt archiveStampToClear fabFileId) (.ok moved)
        (.moving lake .added left (owed ++ if moved then [fabFileId] else []))
  | recorded {lake action fabFileId owed} : Moves casing (.moving lake action [] (fabFileId :: owed))
      (.recordLakeMembershipChange fabFileId action) (.ok ()) (.moving lake action [] owed)

section Programs
variable {α β : Type} {casing : Casing} {p : Phase} {lake : LakeDocument}

/-- Nothing is owed when the program ends, and one that returns leaves `done`. -/
def Leaves (done : α → Phase → Prop) (result : Except LakeError α) (q : Phase) : Prop :=
  match result with
  | .ok value => done value q
  | .error _ => q.owed = []

theorem leaves_seq {done : α → Phase → Prop} {done' : β → Phase → Prop} {program : Async α} {f : α → Async β}
    (first : Follows (Moves casing) (Leaves done) program p)
    (next : ∀ value q, done value q → Follows (Moves casing) (Leaves done') (f value) q) :
    Follows (Moves casing) (Leaves done') (program >>= f) p :=
  follows_seq first next fun _ _ settled => settled

theorem await_follows {done : α → Phase → Prop} {op : Op} {f : op.Value → Async α}
    (next : ∀ value, ∃ q, Moves casing p op (.ok value) q ∧ Follows (Moves casing) (Leaves done) (f value) q) :
    Follows (Moves casing) (Leaves done) (await op >>= f) p :=
  follows_then next fun _ => ⟨.closed, .failed, rfl⟩

theorem quiet_follows {program : Async α} (only : Only (quiet · = true) program) (settled : p.owed = []) :
    Follows (Moves casing) (Leaves fun _ q => q = p) program p := by
  refine only.follows (fun op reply isQuiet => ?_) fun result => ?_
  · cases reply with
    | ok v => exact .quiet isQuiet
    | error e => exact .rejected settled
  · cases result with
    | ok v => rfl
    | error e => exact settled

theorem quietly {program : Async α} {f : α → Async β} {done : β → Phase → Prop} (only : Only (quiet · = true) program)
    (settled : p.owed = []) (next : ∀ value, Follows (Moves casing) (Leaves done) (f value) p) :
    Follows (Moves casing) (Leaves done) (program >>= f) p := by
  refine leaves_seq (quiet_follows only settled) fun value q here => ?_
  subst here
  exact next value

theorem ends {program : Async α} (only : Only (quiet · = true) program) (settled : p.owed = []) :
    Follows (Moves casing) (Leaves fun _ q => q.owed = []) program p :=
  follows_mono (quiet_follows only settled) fun result q here => by
    cases result with
    | ok v => exact here ▸ settled
    | error e => exact here

/-! ### Quiet programs -/

section Quiet

theorem bestEffort_quiet {op : Op} {none : op.Value} (isQuiet : quiet op = true) :
    Only (quiet · = true) (bestEffort op none) :=
  only_tryCatch (only_perform isQuiet) fun _ => trivial

theorem adjust_quiet {deltas : List StorageDelta} : Only (quiet · = true) (bestEffortAdjustOwnerStorage deltas) := by
  induction deltas with
  | nil => trivial
  | cons delta rest ih => exact only_bind (bestEffort_quiet rfl) fun _ => ih

theorem connections_quiet {enabled : Bool} : Only (quiet · = true) (setConnections enabled) :=
  only_bind (bestEffort_quiet rfl) fun _ => bestEffort_quiet rfl

theorem refuseSettle_quiet {absent : Async Unit} {moved : DataLakeStatus → String} (gone : Only (quiet · = true) absent) :
    Only (quiet · = true) (refuseSettle absent moved) := by
  refine only_bind (only_perform rfl) fun found => ?_
  cases found with
  | none => exact gone
  | some current => trivial

theorem settleDeleted_quiet : Only (quiet · = true) settleDeleted := by
  refine only_bind (only_perform rfl) fun settled => ?_
  cases settled with
  | some lake => trivial
  | none => exact refuseSettle_quiet trivial

theorem settleActive_quiet {held : DataLakeStatus} {set : LakeSettleFields} : Only (quiet · = true) (settleActive held set) := by
  refine only_bind (only_perform rfl) fun settled => ?_
  cases settled with
  | some lake => exact only_bind (bestEffort_quiet rfl) fun _ => connections_quiet
  | none => exact refuseSettle_quiet trivial

theorem claimed_quiet {claim : Async Bool} {refuse : Async Unit} (claims : Only (quiet · = true) claim)
    (refuses : Only (quiet · = true) refuse) : Only (quiet · = true) (claimed claim refuse) := by
  refine only_bind claims fun entered => ?_
  cases entered with
  | true => trivial
  | false => exact refuses

theorem claimFilesDeletedAt_quiet : Only (quiet · = true) claimFilesDeletedAt := by
  refine only_bind (only_perform rfl) fun set => ?_
  cases set with
  | some lake => trivial
  | none => exact only_bind (only_perform rfl) fun _ => trivial

theorem deleteStamp_quiet : Only (quiet · = true) (deleteStamp lake) := by
  unfold deleteStamp
  split
  · trivial
  · exact claimFilesDeletedAt_quiet

theorem dedupDeleted_quiet {deleted : List StoredFile} : Only (quiet · = true) (dedupDeleted lake deleted) := by
  unfold dedupDeleted
  split
  · trivial
  · exact only_bind (only_perform rfl) fun _ => trivial

theorem dateOr_quiet {stamp : Option Time} : Only (quiet · = true) (dateOr stamp) := by
  cases stamp with
  | some at_ => trivial
  | none => exact only_perform rfl

theorem resolveCanManageLake_quiet {actor : ManageActor} : Only (quiet · = true) (resolveCanManageLake lake actor) :=
  only_bind (only_perform rfl) fun _ => trivial

theorem joinFits_quiet {fabFileId : String} {ownerTransferPreCleared : Bool} :
    Only (quiet · = true) (joinFits fabFileId ownerTransferPreCleared) := by
  unfold joinFits
  split
  · trivial
  refine only_bind (only_perform rfl) fun file => ?_
  cases file with
  | none => trivial
  | some file => exact only_perform rfl

theorem refuseRemoval_quiet {file : Option SignalSourceFile} : Only (quiet · = true) (refuseRemoval file) := by
  unfold refuseRemoval
  split
  · exact only_bind (only_perform rfl) fun _ => only_bind (only_perform rfl) fun _ => trivial
  · trivial

end Quiet

/-! ### The calls -/

theorem recordIf_follows {condition : Bool} {fabFileId : String} {action : MembershipAction} :
    Follows (Moves casing) (Leaves fun _ q => q = .moving lake action [] []) (recordIf condition fabFileId action)
      (.moving lake action [] (if condition then [fabFileId] else [])) := by
  unfold recordIf
  cases condition with
  | false => exact rfl
  | true =>
    refine follows_perform fun reply => ?_
    cases reply with
    | ok done => exact ⟨_, .recorded, rfl⟩
    | error e => exact ⟨.closed, .failed, rfl⟩

theorem records_follow {action : MembershipAction} {files : List StoredFile} :
    Follows (Moves casing) (Leaves fun _ q => q = .moving lake action [] []) (recordMembershipChanges action files)
      (.moving lake action [] (files.map (·.id))) := by
  induction files with
  | nil => exact rfl
  | cons file rest ih => exact await_follows fun _ => ⟨_, .recorded, ih⟩

theorem sweep_follows {move : String → Op} {moved : (id : String) → (move id).Value → Bool} {action : MembershipAction}
    (writes : ∀ id left owed reply, Moves casing (.moving lake action (id :: left) owed) (move id) (.ok reply)
      (.moving lake action left (owed ++ if moved id reply then [id] else []))) {files : List StoredFile} {owed : List String} :
    Follows (Moves casing) (Leaves fun swept q => q = .moving lake action [] (owed ++ swept.map (·.id)))
      (sweepRows move moved files) (.moving lake action (files.map (·.id)) owed) := by
  induction files generalizing owed with
  | nil =>
    show Phase.moving lake action [] owed = _
    rw [List.map_nil, List.append_nil]
  | cons file rest ih =>
    refine await_follows fun reply => ⟨_, writes _ _ _ reply, ?_⟩
    refine leaves_seq ih fun swept q here => ?_
    subst here
    show Phase.moving lake action [] _ = _
    cases moved file.id reply <;> simp

theorem add_follows {actor : ManageActor} {fabFileId : String} {ownerTransferPreCleared : Bool} :
    Follows (Moves casing) (Leaves fun _ q => q.owed = []) (addFileToLake casing actor lake fabFileId ownerTransferPreCleared)
      (.held lake) := by
  refine quietly resolveCanManageLake_quiet rfl fun allowed => ?_
  split
  · exact rfl
  refine quietly joinFits_quiet rfl fun _ => ?_
  refine await_follows fun priorState => ⟨_, .joined, ?_⟩
  refine leaves_seq recordIf_follows fun _ q here => ?_
  subst here
  exact ends (only_perform rfl) rfl

theorem remove_follows {actor : ManageActor} {fabFileId : String} :
    Follows (Moves casing) (Leaves fun _ q => q.owed = []) (removeFileFromLake casing actor lake fabFileId) (.held lake) := by
  refine quietly resolveCanManageLake_quiet rfl fun allowed => ?_
  split
  · exact rfl
  refine await_follows fun file => ?_
  dsimp only
  split
  · exact ⟨_, .quiet rfl, ends refuseRemoval_quiet rfl⟩
  · rename_i signalled
    refine ⟨_, .loaded (by simpa using signalled), ?_⟩
    refine await_follows fun pulled => ⟨_, .pulled, ?_⟩
    refine await_follows fun _ => ⟨_, .quiet rfl, ?_⟩
    refine leaves_seq recordIf_follows fun _ q here => ?_
    subst here
    exact ends (only_bind (only_perform rfl) fun _ => trivial) rfl

theorem load_follows {actor : ManageActor} {denied : LakeError} :
    Follows (Moves casing) (Leaves fun lake q => q = .held lake) (loadManagedLake actor denied) .start := by
  refine await_follows fun found => ?_
  cases found with
  | none => exact ⟨_, .quiet rfl, rfl⟩
  | some lake =>
    refine ⟨_, .read, quietly resolveCanManageLake_quiet rfl fun allowed => ?_⟩
    cases allowed with
    | true => exact rfl
    | false => exact rfl

theorem softDelete_follows {stamp : Option Time} :
    Follows (Moves casing) (Leaves fun swept q => q = .moving lake .removed [] (swept.map (·.id)))
      (softDeleteByDataLakeTag (lakeMembershipScope lake) stamp) (.held lake) := by
  refine quietly dateOr_quiet rfl fun stamped => ?_
  refine await_follows fun files => ⟨_, .listed, ?_⟩
  exact @sweep_follows casing lake (.softDeleteRow · stamped) (fun _ flipped => flipped) .removed
    (fun _ _ _ _ => .swept) files []

theorem deleteClaimed_follows {stamp : Option Time} :
    Follows (Moves casing) (Leaves fun _ q => q.owed = []) (deleteClaimed lake stamp) (.held lake) := by
  refine quietly (only_perform rfl) rfl fun _ => ?_
  refine leaves_seq softDelete_follows fun swept q here => ?_
  subst here
  refine leaves_seq records_follow fun _ q here => ?_
  subst here
  refine ends (only_bind adjust_quiet fun _ => only_bind (bestEffort_quiet rfl) fun _ => ?_) rfl
  exact only_bind settleDeleted_quiet fun _ => only_bind connections_quiet fun _ => bestEffort_quiet rfl

theorem delete_follows {actor : ManageActor} :
    Follows (Moves casing) (Leaves fun _ q => q.owed = []) (deleteDataLake actor) .start := by
  refine leaves_seq load_follows fun lake q here => ?_
  subst here
  split
  · exact rfl
  split
  · exact rfl
  split
  · exact rfl
  refine quietly (only_perform rfl) rfl fun _ => ?_
  refine quietly deleteStamp_quiet rfl fun stamp => ?_
  exact quietly (claimed_quiet (only_perform rfl) trivial) rfl fun _ => deleteClaimed_follows

theorem undelete_follows {excludeIds : List String} {stampedAt archiveStampToClear : Option Time} :
    Follows (Moves casing) (Leaves fun restored q => q = .moving lake .added [] (restored.map (·.id)))
      (undeleteByDataLakeTag (lakeMembershipScope lake) excludeIds stampedAt archiveStampToClear) (.held lake) := by
  refine await_follows fun candidates => ?_
  have kept : (List.filter (fun f : StoredFile => !excludeIds.contains f.id) candidates).Sublist candidates := List.filter_sublist
  refine ⟨_, .candidates kept, ?_⟩
  exact @sweep_follows casing lake (.undeleteRow (lakeMembershipScope lake) stampedAt archiveStampToClear ·) (fun _ moved => moved)
    .added (fun _ _ _ _ => .undeleted) (candidates.filter fun f => !excludeIds.contains f.id) []

theorem restoreClaimed_follows :
    Follows (Moves casing) (Leaves fun _ q => q.owed = []) (restoreClaimed lake) (.held lake) := by
  refine quietly (only_perform rfl) rfl fun deleted => ?_
  refine quietly dedupDeleted_quiet rfl fun duplicates => ?_
  refine leaves_seq undelete_follows fun restored q here => ?_
  subst here
  refine leaves_seq records_follow fun _ q here => ?_
  subst here
  refine ends (only_bind adjust_quiet fun _ => only_bind settleActive_quiet fun _ => ?_) rfl
  exact only_bind (only_perform rfl) fun _ => trivial

theorem restore_follows {actor : ManageActor} :
    Follows (Moves casing) (Leaves fun _ q => q.owed = []) (restoreDeletedDataLake actor) .start := by
  refine leaves_seq load_follows fun lake q here => ?_
  subst here
  split
  · exact rfl
  split
  · exact quietly (claimed_quiet (only_perform rfl) trivial) rfl fun _ => restoreClaimed_follows
  · exact rfl

end Programs

end Membership
end Bike4Mind.DataLakes.Books
