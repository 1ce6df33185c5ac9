import Bike4Mind.DataLakes.LakeCalls

/-! Restoring calls of one archived lake, interleaved at their awaits, with no repository call failing. -/

namespace Bike4Mind.DataLakes
open Concurrency

/-- Every repository call resolves. -/
def reliable (casing : Casing) : Semantics Nat World Op Op.Value LakeError Draw Time where
  exec i w op draw := (w.perform casing i op draw).map fun out => (.ok out.1, out.2)
  env := World.elapse

theorem reliable_some {casing : Casing} {i : Nat} {w w' : World} {op : Op} {draw : Draw} {reply : Except LakeError op.Value}
    (executed : (reliable casing).exec i w op draw = some (reply, w')) :
    ∃ value, reply = .ok value ∧ w.perform casing i op draw = some (value, w') := by
  obtain ⟨⟨value, after⟩, performed, same⟩ := Option.map_eq_some_iff.mp executed
  cases same
  exact ⟨value, rfl, performed⟩

/-! ### What one call may do next -/

namespace Unarchive

inductive Phase where
  | idle
  | seen (lake : LakeDocument)
  | claimed (lake : LakeDocument)
  | listed (lake : LakeDocument) (archived : List FabFile)
  | matched (lake : LakeDocument) (duplicates : List FabFile)
  | discarded (lake : LakeDocument)
  | swept
  | closed

/-- The lake as the call read it, once its dedup pass may be left. -/
def Phase.reversing : Phase → Option LakeDocument
  | .listed lake _ => some lake
  | .matched lake _ => some lake
  | .discarded lake => some lake
  | _ => none

def RESTORABLE : List DataLakeStatus := [.archived, .unarchiving, .restoring]

inductive Unarchives : Protocol Phase Op Op.Value LakeError
  | failed {p op e} : Unarchives p op (.error e) p
  | aside {p effect} : Unarchives p (.sideEffect effect) (.ok ()) p
  | read {lake} : Unarchives .idle .findById (.ok (some lake)) (.seen lake)
  | absent : Unarchives .idle .findById (.ok none) .closed
  | granted {lake id grants} : Unarchives (.seen lake) (.listByLake id) (.ok grants) (.seen lake)
  | entered {lake} : lake.status ∈ RESTORABLE → Unarchives (.seen lake) .claimUnarchiving (.ok true) (.claimed lake)
  | lost {lake} : Unarchives (.seen lake) .claimUnarchiving (.ok false) .closed
  | listed {lake archived} : Unarchives (.claimed lake)
      (.findArchivedByDataLakeTag (lakeMembershipScope lake) lake.filesArchivedAt) (.ok archived) (.listed lake archived)
  | matched {lake archived live} : Unarchives (.listed lake archived)
      (.findByContentHashesInDataLake (contentHashes archived) lake.datalakeTag) (.ok live)
      (.matched lake (duplicatesOf archived live))
  | discarded {lake duplicates} : Unarchives (.matched lake duplicates) (.deleteManyInIds (duplicates.map (·.id))) (.ok ())
      (.discarded lake)
  | swept {p lake count} : p.reversing = some lake → Unarchives p
      (.unarchiveByDataLakeTag (lakeMembershipScope lake) lake.filesArchivedAt) (.ok count) .swept
  | settled {settled} : Unarchives .swept
      (.settleLifecycleStatus .unarchiving { status := .active, filesArchivedAt := some none }) (.ok settled) .swept
  | reread {p found} : p ≠ .idle → Unarchives p .findById (.ok found) p

section Programs
variable {α : Type} {post : Except LakeError α → Phase → Prop} {p : Phase} {lake : LakeDocument}

/-- The steps of one call are left open to the next one as far as this. -/
def Leaves (done : Phase → Prop) (result : Except LakeError α) (q : Phase) : Prop := ∀ value, result = .ok value → done q

theorem leaves_error {done : Phase → Prop} {e : LakeError} {q : Phase} : Leaves done (.error e : Except LakeError α) q :=
  fun _ same => nomatch same

theorem leaves_ok {done : Phase → Prop} {value : α} {q : Phase} (h : done q) : Leaves done (.ok value) q := fun _ _ => h

theorem leaves_seq {done done' : Phase → Prop} {β : Type} {program : Async β} {f : β → Async α}
    (first : Follows Unarchives (Leaves done) program p)
    (next : ∀ value q, done q → Follows Unarchives (Leaves done') (f value) q) :
    Follows Unarchives (Leaves done') (program >>= f) p :=
  follows_seq first (fun value q reached => next value q (reached value rfl)) fun _ _ _ => leaves_error

theorem await_follows {done : Phase → Prop} {op : Op} {f : op.Value → Async α}
    (next : ∀ value, ∃ q, Unarchives p op (.ok value) q ∧ Follows Unarchives (Leaves done) (f value) q) :
    Follows Unarchives (Leaves done) (await op >>= f) p :=
  follows_then next fun _ => ⟨p, .failed, leaves_error⟩

theorem aside_follows {effect : SideEffect} : Follows Unarchives (Leaves (· = p)) (await (.sideEffect effect)) p := by
  intro reply
  cases reply with
  | ok done => exact ⟨p, .aside, leaves_ok rfl⟩
  | error e => exact ⟨p, .failed, leaves_error⟩

theorem bestEffort_follows {effect : SideEffect} : Follows Unarchives (Leaves (· = p)) (bestEffort effect) p := by
  intro reply
  cases reply with
  | ok done => exact ⟨p, .aside, leaves_ok rfl⟩
  | error e => exact ⟨p, .failed, leaves_ok rfl⟩

theorem discard_follows {duplicates : List FabFile} :
    Follows Unarchives (Leaves (·.reversing = some lake)) (discard duplicates) (.matched lake duplicates) := by
  unfold discard
  split
  · exact leaves_ok rfl
  refine await_follows fun holder => ⟨_, .reread nofun, ?_⟩
  split
  · refine await_follows fun _ => ⟨_, .discarded, ?_⟩
    refine leaves_seq bestEffort_follows fun _ q here => ?_
    subst here
    exact leaves_ok rfl
  · exact leaves_ok rfl

theorem dedup_follows {archived : List FabFile} :
    Follows Unarchives (Leaves (·.reversing = some lake)) (dedupArchived lake archived) (.listed lake archived) := by
  unfold dedupArchived
  split
  · exact leaves_ok rfl
  · exact await_follows fun live => ⟨_, .matched, discard_follows⟩

theorem connections_follow {enabled : Bool} : Follows Unarchives (Leaves (· = p)) (setConnections enabled) p := by
  refine leaves_seq bestEffort_follows fun _ q here => ?_
  subst here
  exact bestEffort_follows

theorem settle_follows : Follows Unarchives (Leaves (· = .swept))
    (settleActive .unarchiving { status := .active, filesArchivedAt := some none }) .swept := by
  refine await_follows fun settled => ⟨_, .settled, ?_⟩
  cases settled with
  | some lake =>
    refine leaves_seq bestEffort_follows fun _ q here => ?_
    subst here
    exact connections_follow
  | none =>
    refine await_follows fun current => ⟨_, .reread nofun, ?_⟩
    cases current with
    | none => exact leaves_ok rfl
    | some current => exact leaves_error

theorem claimed_follows : Follows Unarchives (Leaves (· = .swept)) (unarchiveClaimed lake) (.claimed lake) := by
  refine await_follows fun archived => ⟨_, .listed, ?_⟩
  refine leaves_seq dedup_follows fun skipped q reversing => ?_
  refine await_follows fun count => ⟨_, .swept reversing, ?_⟩
  refine leaves_seq settle_follows fun _ q here => ?_
  subst here
  refine leaves_seq aside_follows fun _ q here => ?_
  subst here
  exact leaves_ok rfl

theorem load_follows {actor : ManageActor} {denied : LakeError} :
    Follows Unarchives (fun r q => ∀ lake, r = .ok lake → q = .seen lake) (loadManagedLake actor denied) .idle := by
  refine follows_then (fun found => ?_) fun e => ⟨_, .failed, fun _ same => nomatch same⟩
  cases found with
  | none => exact ⟨_, .absent, fun _ same => nomatch same⟩
  | some lake =>
    refine ⟨_, .read, follows_then (fun grants => ⟨_, .granted, ?_⟩) fun e => ⟨_, .failed, fun _ same => nomatch same⟩⟩
    split
    · intro found same
      cases same
      rfl
    · exact fun _ same => nomatch same

theorem claim_follows (restorable : lake.status ∈ RESTORABLE) :
    Follows Unarchives (Leaves (· = .claimed lake)) (claimed (await .claimUnarchiving) refuseUnarchive) (.seen lake) := by
  refine await_follows fun entered => ?_
  cases entered with
  | true => exact ⟨_, .entered restorable, leaves_ok rfl⟩
  | false =>
    refine ⟨_, .lost, await_follows fun current => ⟨_, .reread nofun, ?_⟩⟩
    cases current with
    | none => exact leaves_error
    | some current => exact leaves_error

theorem unarchive_follows (actor : ManageActor) : Follows Unarchives (Leaves (· = .swept)) (unarchiveDataLake actor) .idle := by
  refine follows_seq load_follows (fun lake q loaded => ?_) fun _ _ _ => leaves_error
  cases loaded lake rfl
  split
  · rename_i restorable
    refine leaves_seq (claim_follows restorable) fun _ q here => ?_
    subst here
    exact claimed_follows
  · exact leaves_error

end Programs
end Unarchive
end Bike4Mind.DataLakes
