import Bike4Mind.DataLakes.LakeCalls

/-! Lifecycle calls whose repository calls may fail at any point, and what each of them may write of a purge claim. -/

namespace Bike4Mind.DataLakes
open Concurrency

/-- How a repository call ends for its caller. A failed one may have landed all the same. -/
inductive Settling where
  | resolves
  | rejects (landed : Bool) (error : LakeError)
  deriving DecidableEq

def Settling.reply {α : Type} (value : α) : Settling → Except LakeError α
  | .resolves => .ok value
  | .rejects _ error => .error error

def Settling.landed : Settling → Bool
  | .resolves => true
  | .rejects landed _ => landed

def faulty (casing : Casing) : Semantics Nat World Op Op.Value LakeError (Draw × Settling) Time where
  exec i w op x := (w.perform casing i op x.1).map fun out => (x.2.reply out.1, if x.2.landed then out.2 else w)
  env := World.elapse

namespace Purge

/-- The claim id a call has drawn, until and after it claims the purge with it. -/
inductive Phase where
  | free
  | drawn (id : String)
  | claimed (id : String)

/-- Operations that neither draw a claim id, claim a purge, nor send its message. -/
def plain : Op → Bool
  | .randomUUID => false
  | .claimPurging _ => false
  | .sendToQueue _ => false
  | .settleLifecycleStatus held _ => held != .purging
  | _ => true

inductive Purges : Protocol Phase Op Op.Value LakeError
  | plain {p op reply} : plain op = true → Purges p op reply p
  | drew {id} : Purges .free .randomUUID (.ok id) (.drawn id)
  | undrawn {e} : Purges .free .randomUUID (.error e) .free
  | claimed {id reply} : Purges (.drawn id) (.claimPurging id) reply (.claimed id)
  | sent {id message reply} : message.purgeClaimId = some id → Purges (.claimed id) (.sendToQueue message) reply (.claimed id)

/-! ### The calls that touch no claim -/

abbrev Plain {α : Type} (program : Async α) : Prop := Only (plain · = true) program

section Plain
variable {α β : Type}

theorem plain_await {op : Op} (h : plain op = true) : Plain (await op) := only_perform h

theorem plain_seq {program : Async α} {rest : α → Async β} (first : Plain program) (next : ∀ a, Plain (rest a)) :
    Plain (program >>= rest) := only_bind first next

theorem plain_await_seq {op : Op} {rest : op.Value → Async β} (h : plain op = true) (next : ∀ a, Plain (rest a)) :
    Plain (await op >>= rest) := plain_seq (plain_await h) next

theorem plain_bestEffort {effect : SideEffect} : Plain (bestEffort effect) :=
  only_tryCatch (plain_await rfl) fun _ => trivial

theorem plain_loadManagedLake {actor : ManageActor} {denied : LakeError} : Plain (loadManagedLake actor denied) := by
  refine plain_await_seq rfl fun found => ?_
  cases found with
  | none => trivial
  | some lake =>
    refine plain_await_seq rfl fun grants => ?_
    split <;> trivial

theorem plain_claimed {claim : Async Bool} {refuse : Async Unit} (claims : Plain claim) (refuses : Plain refuse) :
    Plain (claimed claim refuse) := by
  refine plain_seq claims fun entered => ?_
  split
  · trivial
  · exact refuses

theorem plain_setConnections {enabled : Bool} : Plain (setConnections enabled) :=
  plain_seq plain_bestEffort fun _ => plain_bestEffort

theorem plain_archiveStamp {existing : LakeDocument} : Plain (archiveStamp existing) := by
  refine plain_seq ?_ fun unstamped => ?_
  · unfold hasUnstampedArchive
    split
    · trivial
    · exact plain_await rfl
  · split
    · trivial
    refine plain_await_seq rfl fun updated => ?_
    cases updated with
    | some lake => trivial
    | none => exact plain_await_seq rfl fun _ => trivial

theorem plain_settleArchived : Plain settleArchived := by
  refine plain_await_seq rfl fun settled => ?_
  cases settled with
  | some lake => trivial
  | none =>
    refine plain_await_seq rfl fun current => ?_
    cases current <;> trivial

theorem plain_archive {actor : ManageActor} : Plain (archiveDataLake actor) := by
  refine plain_seq plain_loadManagedLake fun existing => ?_
  split
  · trivial
  split
  · trivial
  split
  · trivial
  refine plain_seq (plain_claimed (plain_await rfl) trivial) fun _ => ?_
  refine plain_await_seq rfl fun _ => plain_seq plain_archiveStamp fun stamp => ?_
  refine plain_await_seq rfl fun _ => plain_await_seq rfl fun _ => plain_seq plain_bestEffort fun _ => ?_
  refine plain_seq plain_settleArchived fun _ => plain_seq plain_setConnections fun _ => ?_
  exact plain_seq plain_bestEffort fun _ => plain_await rfl

theorem plain_settleActive {held : DataLakeStatus} {set : LakeSettleFields} (stable : held ≠ .purging) :
    Plain (settleActive held set) := by
  refine plain_await_seq (bne_iff_ne.mpr stable) fun settled => ?_
  cases settled with
  | some lake => exact plain_seq plain_bestEffort fun _ => plain_setConnections
  | none =>
    refine plain_await_seq rfl fun current => ?_
    cases current <;> trivial

theorem plain_dedupArchived {existing : LakeDocument} {archived : List FabFile} : Plain (dedupArchived existing archived) := by
  unfold dedupArchived
  split
  · trivial
  refine plain_await_seq rfl fun live => ?_
  unfold discard
  split
  · trivial
  refine plain_await_seq rfl fun holder => ?_
  split
  · exact plain_await_seq rfl fun _ => plain_seq plain_bestEffort fun _ => trivial
  · trivial

theorem plain_unarchive {actor : ManageActor} : Plain (unarchiveDataLake actor) := by
  refine plain_seq plain_loadManagedLake fun existing => ?_
  split
  · refine plain_seq (plain_claimed (plain_await rfl) (plain_await_seq rfl fun current => ?_)) fun _ => ?_
    · cases current <;> trivial
    refine plain_await_seq rfl fun archived => plain_seq plain_dedupArchived fun skipped => ?_
    refine plain_await_seq rfl fun count => plain_seq (plain_settleActive nofun) fun _ => ?_
    exact plain_await_seq rfl fun _ => trivial
  · trivial

theorem plain_softDeleteRows {stamp : Time} {files : List FabFile} : Plain (softDeleteRows stamp files) := by
  induction files with
  | nil => trivial
  | cons file rest ih => exact plain_await_seq rfl fun flipped => plain_seq ih fun swept => trivial

theorem plain_softDelete {scope : MembershipScope} {stamp : Option Time} : Plain (softDeleteByDataLakeTag scope stamp) := by
  refine plain_seq (?_ : Plain (dateOr stamp)) fun stamped => plain_await_seq rfl fun files => plain_softDeleteRows
  cases stamp with
  | some stamp => trivial
  | none => exact plain_await rfl

theorem plain_recordMembershipChanges {files : List FabFile} : Plain (recordMembershipChanges files) := by
  induction files with
  | nil => trivial
  | cons file rest ih => exact plain_seq plain_bestEffort fun _ => ih

theorem plain_deleteStamp {existing : LakeDocument} : Plain (deleteStamp existing) := by
  unfold deleteStamp
  split
  · trivial
  refine plain_await_seq rfl fun updated => ?_
  cases updated with
  | some lake => trivial
  | none => exact plain_await_seq rfl fun _ => trivial

theorem plain_settleDeleted : Plain settleDeleted := by
  refine plain_await_seq rfl fun settled => ?_
  cases settled with
  | some lake => trivial
  | none =>
    refine plain_await_seq rfl fun current => ?_
    cases current <;> trivial

theorem plain_delete {actor : ManageActor} : Plain (deleteDataLake actor) := by
  refine plain_seq plain_loadManagedLake fun existing => ?_
  split
  · trivial
  split
  · trivial
  split
  · trivial
  refine plain_await_seq rfl fun _ => plain_seq plain_deleteStamp fun stamp => ?_
  refine plain_seq (plain_claimed (plain_await rfl) trivial) fun _ => plain_await_seq rfl fun _ => ?_
  refine plain_seq plain_softDelete fun swept => plain_seq plain_recordMembershipChanges fun _ => ?_
  refine plain_seq plain_bestEffort fun _ => plain_seq plain_bestEffort fun _ => plain_seq plain_settleDeleted fun _ => ?_
  exact plain_seq plain_setConnections fun _ => plain_bestEffort

theorem plain_undeleteRows {scope : MembershipScope} {stampedAt archiveStamp : Option Time} {files : List FabFile} :
    Plain (undeleteRows scope stampedAt archiveStamp files) := by
  induction files with
  | nil => trivial
  | cons file rest ih => exact plain_await_seq rfl fun moved => plain_seq ih fun restored => trivial

theorem plain_dedupDeleted {existing : LakeDocument} {deleted : List FabFile} : Plain (dedupDeleted existing deleted) := by
  unfold dedupDeleted
  split
  · trivial
  · exact plain_await_seq rfl fun live => trivial

theorem plain_restore {actor : ManageActor} : Plain (restoreDeletedDataLake actor) := by
  refine plain_seq plain_loadManagedLake fun existing => ?_
  split
  · trivial
  split
  · refine plain_seq (plain_claimed (plain_await rfl) trivial) fun _ => ?_
    refine plain_await_seq rfl fun deleted => plain_seq plain_dedupDeleted fun duplicates => ?_
    refine plain_seq (plain_await_seq rfl fun candidates => plain_undeleteRows) fun restored => ?_
    refine plain_seq plain_recordMembershipChanges fun _ => plain_seq plain_bestEffort fun _ => ?_
    exact plain_seq (plain_settleActive nofun) fun _ => plain_await_seq rfl fun _ => trivial
  · trivial

theorem plain_purgeFiles {files : List FabFile} : Plain (purgeFiles files) := by
  induction files with
  | nil => trivial
  | cons file rest ih => exact plain_await_seq rfl fun _ => plain_await_seq rfl fun _ => ih

theorem plain_spareSurvivors {files : List FabFile} : Plain (spareSurvivors files) := by
  induction files with
  | nil => trivial
  | cons file rest ih => exact plain_await_seq rfl fun _ => ih

theorem plain_purgeAdmitted {existing : LakeDocument} : Plain (purgeAdmitted existing) := by
  refine plain_await_seq rfl fun _ => plain_await_seq rfl fun files => plain_await_seq rfl fun _ => ?_
  refine plain_await_seq rfl fun _ => plain_await_seq rfl fun _ => plain_seq plain_purgeFiles fun _ => ?_
  refine plain_await_seq rfl fun survivors => plain_seq plain_spareSurvivors fun _ => ?_
  exact plain_await_seq rfl fun _ => plain_await rfl

theorem plain_cleanup {message : DataLakeCleanupMessage} : Plain (cleanupDeletedDataLake message) := by
  refine plain_await_seq rfl fun found => ?_
  cases found with
  | none => trivial
  | some existing =>
    refine plain_seq (?_ : Plain (admitsCleanup existing message)) fun admitted => ?_
    · unfold admitsCleanup
      split
      · trivial
      · exact plain_await_seq rfl fun grants => trivial
    split
    · trivial
    split
    · trivial
    · exact plain_seq (plain_claimed (plain_await rfl) trivial) fun _ => plain_purgeAdmitted

theorem plain_releaseRefused {message : DataLakeCleanupMessage} {e : LakeError} : Plain (releaseRefused message e) := by
  cases e with
  | badRequest refusal =>
    refine plain_await_seq rfl fun released => ?_
    split
    · trivial
    refine plain_await_seq rfl fun lake => ?_
    split <;> trivial
  | notFound text => trivial
  | error text => trivial

theorem plain_dispatchCleanup : Plain dispatchCleanup :=
  plain_await_seq rfl fun _ => only_tryCatch plain_cleanup fun _ => plain_releaseRefused

end Plain

/-! ### Every call follows the protocol -/

section Follows
variable {α : Type} {p : Phase}

/-- However the call ends. -/
def Any (_ : Except LakeError α) (_ : Phase) : Prop := True

theorem plain_follows {program : Async α} (h : Plain program) : Follows Purges (fun _ q => q = p) program p :=
  Only.follows h (fun _ _ permitted => .plain permitted) fun _ => rfl

theorem plain_then {β : Type} {program : Async α} {rest : α → Async β} (h : Plain program) (next : ∀ a, Follows Purges Any (rest a) p) :
    Follows Purges Any (program >>= rest) p :=
  follows_seq (plain_follows h) (fun a _ here => here ▸ next a) fun _ _ _ => trivial

theorem plain_any {program : Async α} (h : Plain program) : Follows Purges Any program p :=
  follows_mono (plain_follows h) fun _ _ _ => trivial

theorem accept_follows {actor : ManageActor} {id : String} :
    Follows Purges (fun r q => r = .ok () → q = .claimed id) (acceptDataLakePurge actor id) (.drawn id) := by
  refine follows_seq (plain_follows plain_loadManagedLake) (fun lake q here => ?_) fun _ _ _ => nofun
  subst here
  refine follows_seq (?_ : Follows Purges (fun r q => r = .ok () → q = .claimed id) _ _) (fun _ _ here => ?_) fun _ _ _ => nofun
  · refine follows_then (fun entered => ⟨_, .claimed, ?_⟩) fun e => ⟨_, .claimed, nofun⟩
    split
    · exact fun _ => rfl
    · exact nofun
  · cases here rfl
    exact follows_mono (plain_follows plain_bestEffort) fun _ _ here _ => here

theorem request_follows {actor : ManageActor} : Follows Purges Any (requestCleanup actor) .free := by
  refine plain_then plain_loadManagedLake fun lake => ?_
  split
  · trivial
  split
  · trivial
  refine follows_then (fun id => ⟨_, .drew, ?_⟩) fun e => ⟨_, .undrawn, trivial⟩
  refine follows_tryCatch (follows_bind (follows_mono accept_follows fun r q claimed => ?_))
  have released : ∀ e q, Follows Purges Any (do
      let _ ← tryCatch (await (.releasePurgingToDeleted (some id))) fun _ => pure false
      (.throw e : Async Unit)) q := fun e _ => plain_then (only_tryCatch (plain_await rfl) fun _ => trivial) fun _ => trivial
  cases r with
  | error e => exact released e q
  | ok done =>
    cases claimed rfl
    refine follows_perform fun reply => ⟨_, .sent rfl, ?_⟩
    cases reply with
    | ok sent => trivial
    | error e => exact released e _

theorem call_follows (call : LakeCall) : Follows Purges Any call.program .free := by
  cases call with
  | archive actor => exact plain_any plain_archive
  | unarchive actor => exact plain_any (plain_seq plain_unarchive fun _ => trivial)
  | delete actor => exact plain_any plain_delete
  | restore actor => exact plain_any (plain_seq plain_restore fun _ => trivial)
  | requestCleanup actor => exact request_follows
  | dispatchCleanup => exact plain_any plain_dispatchCleanup
  | releasePurge claimId => exact plain_any (plain_await_seq rfl fun _ => trivial)

end Follows
end Purge
end Bike4Mind.DataLakes
