import Bike4Mind.DataLakes.UnarchiveCalls

/-! In which runs the restoring calls of a lake keep a copy of every document. -/

namespace Bike4Mind.DataLakes.Unarchive
open Concurrency

/-! ### What happened so far -/

def restoredIds : List Event → List String
  | [] => []
  | .unarchived ids :: rest => ids ++ restoredIds rest
  | _ :: rest => restoredIds rest

def swept : List Event → Bool
  | [] => false
  | .unarchived _ :: _ => true
  | _ :: rest => swept rest

/-- A sweep landed since the call listed the archived files. -/
def sweptSince (i : Nat) : List Event → Bool
  | [] => false
  | .unarchived _ :: _ => true
  | .listedArchived j :: rest => j != i && sweptSince i rest
  | _ :: rest => sweptSince i rest

/-- A sweep landed between the listing of the archived files and the search for their live copies. -/
def overtaken (i : Nat) : List Event → Bool
  | [] => false
  | .matchedLive j :: rest => if j = i then sweptSince i rest else overtaken i rest
  | _ :: rest => overtaken i rest

def Marks.live (m : Marks) : Bool := m.deletedAt == none && m.archivedAt == none

def Marks.undeleted? (m : Marks) : Bool := m.deletedAt == none

/-! ### The property -/

/-- One lake with its files, before any of the calls. -/
structure Shelf where
  lake : LakeDocument
  files : FabFiles
  marks : FabFile → Option Marks
  grants : List AccessGrant := []
  now : Time := 0

namespace Shelf
variable (casing : Casing) (before : Shelf)

def world : World where
  lake := some before.lake
  grants := before.grants
  files := before.files
  marks := before.marks
  now := before.now

def scope : MembershipScope := lakeMembershipScope before.lake

/-- A member of the lake that nobody deleted. -/
def member (f : FabFile) : Bool := isMember casing before.scope f && (before.marks f).any Marks.undeleted?

def live (f : FabFile) : Bool := isMember casing before.scope f && (before.marks f).any Marks.live

/-- A member that the lake's own archive holds. -/
def archived (f : FabFile) : Bool := (before.marks f).any (archivedMember casing before.scope before.lake.filesArchivedAt f)

/-- A content hash of some live or archived document. -/
def Carries (hash : String) : Prop :=
  ∃ f ∈ before.files.files, (before.live casing f = true ∨ before.archived casing f = true) ∧ f.pending = false ∧
    f.contentHash = some hash

/-- The only member with its content hash. -/
def Sole (f : FabFile) : Prop :=
  f ∈ before.files.files ∧ before.member casing f = true ∧
    ∃ hash, f.contentHash = some hash ∧ ∀ g ∈ before.files.files, before.member casing g = true → g.contentHash = some hash → g = f

end Shelf

abbrev LakeConfig := Config Nat World Op Op.Value LakeError UnarchiveResult
abbrev LakeAction := Action Nat Draw Time

/-- A thread without a call. -/
def noCall : Async UnarchiveResult := .throw (.error "no call")

def start (before : Shelf) (callers : List ManageActor) : LakeConfig where
  store := before.world
  threads i := (callers[i]?).elim noCall unarchiveDataLake

/-- All calls have ended, and one of them restored the lake. -/
def Ended (c : LakeConfig) : Prop := (∀ i, (c.threads i).settled = true) ∧ ∃ i, (c.threads i).result?.isSome = true

/-- No document is lost, and the documents are back once the calls have ended. -/
structure Spared (casing : Casing) (before : Shelf) (c : LakeConfig) : Prop where
  kept : ∀ hash, before.Carries casing hash → ∃ g ∈ before.files.files,
    (before.live casing g = true ∨ before.archived casing g = true) ∧ g.contentHash = some hash ∧
      (c.store.marks g).any Marks.undeleted? = true
  back : Ended c → ∀ hash, before.Carries casing hash → ∃ g ∈ before.files.files,
    isMember casing before.scope g = true ∧ g.contentHash = some hash ∧ (c.store.marks g).any Marks.live = true
  sole : ∀ f, before.Sole casing f → (c.store.marks f).any Marks.undeleted? = true

/-- A live member with the file's content hash that no sweep brought back. -/
def HasOtherCopy (casing : Casing) (before : Shelf) (w : World) (f : FabFile) : Prop :=
  ∃ g ∈ w.files.files, isMember casing before.scope g = true ∧ (w.marks g).any Marks.live = true ∧
    g.contentHash = f.contentHash ∧ g.id ∉ restoredIds w.log

/-- A call whose two reads a sweep fell between discards only files that have another copy. -/
def DiscardsCopies (casing : Casing) (before : Shelf) (i : Nat) (w : World) : Op → Draw → Prop
  | .deleteManyInIds ids, _ => overtaken i w.log = true → ∀ f ∈ w.files.files, f.id ∈ ids → HasOtherCopy casing before w f
  | _, _ => True

instance (casing : Casing) (before : Shelf) (i : Nat) (w : World) (op : Op) (draw : Draw) :
    Decidable (DiscardsCopies casing before i w op draw) := by
  unfold DiscardsCopies
  split
  · unfold HasOtherCopy
    infer_instance
  · infer_instance

/-! ### The invariant -/

section Invariant
variable (casing : Casing) (before : Shelf)

/-- A member live before the calls carries the file's content hash. -/
def Twinned (f : FabFile) : Prop := ∃ g ∈ before.files.files, before.live casing g = true ∧ g.contentHash = f.contentHash

structure Store (w : World) : Prop where
  files : w.files = before.files
  lake : ∃ lake, w.lake = some lake ∧ lakeMembershipScope lake = before.scope ∧
    (lake.status ∈ RESTORABLE → lake.filesArchivedAt = before.lake.filesArchivedAt)
  others : ∀ f ∈ before.files.files, before.archived casing f = false → w.marks f = before.marks f
  archived : ∀ f ∈ before.files.files, before.archived casing f = true → ∃ was m, before.marks f = some was ∧ w.marks f = some m ∧
    (m.deletedAt = none → m.archivedAt = if swept w.log then none else was.archivedAt) ∧
    (m.deletedAt ≠ none → Twinned casing before f)
  restored : ∀ id ∈ restoredIds w.log, ∃ f ∈ before.files.files, before.archived casing f = true ∧ f.id = id
  brought : ∀ f ∈ before.files.files, before.archived casing f = true → (w.marks f).any Marks.live = true → f.id ∈ restoredIds w.log

/-- The lake as the call read it. -/
def Read (lake : LakeDocument) : Prop :=
  lakeMembershipScope lake = before.scope ∧ lake.filesArchivedAt = before.lake.filesArchivedAt

def Listed (w : World) (i : Nat) (archived : List FabFile) : Prop :=
  (∀ f ∈ archived, f ∈ before.files.files ∧ before.archived casing f = true) ∧
    (archived ≠ [] → (swept w.log = true → sweptSince i w.log = true) ∧
      ∀ f ∈ before.files.files, before.archived casing f = true → (w.marks f).any Marks.undeleted? = true → f ∈ archived)

def Matched (w : World) (i : Nat) (duplicates : List FabFile) : Prop :=
  ∀ f ∈ duplicates, f ∈ before.files.files ∧ before.archived casing f = true ∧
    (∃ hash, f.contentHash = some hash ∧ before.Carries casing hash) ∧ (overtaken i w.log = true ∨ Twinned casing before f) ∧
    ∀ g ∈ before.files.files, before.archived casing g = true → (w.marks g).any Marks.undeleted? = true →
      g.contentHash = f.contentHash → g ∈ duplicates

def Thread (w : World) (i : Nat) : Phase → Prop
  | .idle => True
  | .closed => True
  | .seen lake => lakeMembershipScope lake = before.scope ∧
      (lake.status ∈ RESTORABLE → lake.filesArchivedAt = before.lake.filesArchivedAt)
  | .claimed lake => Read before lake
  | .listed lake archived => Read before lake ∧ Listed casing before w i archived
  | .matched lake duplicates => Read before lake ∧ Matched casing before w i duplicates
  | .discarded lake => Read before lake
  | .swept => swept w.log = true

def Inv (w : World) (ph : Nat → Phase) : Prop := Store casing before w ∧ ∀ i, Thread casing before w i (ph i)

end Invariant

/-! ### What the operations of one call leave to the others -/

structure Later (j : Nat) (w w' : World) : Prop where
  marks : ∀ f, (w'.marks f).any Marks.undeleted? = true → (w.marks f).any Marks.undeleted? = true
  swept : swept w.log = true → swept w'.log = true
  since : (Unarchive.swept w.log = true → sweptSince j w.log = true) → Unarchive.swept w'.log = true → sweptSince j w'.log = true
  overtaken : overtaken j w.log = true → overtaken j w'.log = true

section Later
variable {casing : Casing} {before : Shelf} {i j : Nat} {w w' : World} {p : Phase}

theorem thread_later (later : Later j w w') (h : Thread casing before w j p) : Thread casing before w' j p := by
  cases p with
  | idle => trivial
  | closed => trivial
  | seen lake => exact h
  | claimed lake => exact h
  | discarded lake => exact h
  | swept => exact later.swept h
  | listed lake archived =>
    obtain ⟨read, listed, complete⟩ := h
    refine ⟨read, listed, fun some_archived => ?_⟩
    obtain ⟨since, every⟩ := complete some_archived
    exact ⟨later.since since, fun f stored held undeleted => every f stored held (later.marks f undeleted)⟩
  | matched lake duplicates =>
    obtain ⟨read, matched⟩ := h
    refine ⟨read, fun f member => ?_⟩
    obtain ⟨stored, held, carried, copied, complete⟩ := matched f member
    refine ⟨stored, held, carried, copied.imp later.overtaken id, fun g stored held undeleted => ?_⟩
    exact complete g stored held (later.marks g undeleted)

theorem later_lake (marks : w'.marks = w.marks) (log : w'.log = w.log) : Later j w w' := by
  constructor
  · rw [marks]
    exact fun _ h => h
  · rw [log]
    exact id
  · rw [log]
    exact id
  · rw [log]
    exact id

theorem later_listed (other : j ≠ i) : Later j w (w.record (.listedArchived i)) := by
  have elsewhere : (i != j) = true := bne_iff_ne.mpr (Ne.symm other)
  constructor
  · exact fun _ h => h
  · exact id
  · intro since swept
    show ((i != j) && sweptSince j w.log) = true
    rw [elsewhere, Bool.true_and]
    exact since swept
  · exact id

theorem later_matched (other : j ≠ i) : Later j w (w.record (.matchedLive i)) := by
  constructor
  · exact fun _ h => h
  · exact id
  · exact id
  · intro before
    show (if i = j then sweptSince j w.log else overtaken j w.log) = true
    rw [if_neg (Ne.symm other)]
    exact before

theorem holds_mark {holds : Marks → Bool} {matching : FabFile → Marks → Bool} {set : Marks → Marks} {f : FabFile}
    (unset : ∀ m, holds (set m) = true → holds m = true) (h : ((w.mark matching set).marks f).any holds = true) :
    (w.marks f).any holds = true := by
  simp only [World.mark, Option.any_map] at h
  cases stored : w.marks f with
  | none => simp [stored] at h
  | some m =>
    simp only [stored, Option.any_some] at h ⊢
    split at h
    · exact unset m h
    · exact h

theorem mark_untouched {matching : FabFile → Marks → Bool} {set : Marks → Marks} {f : FabFile}
    (unmatched : (w.marks f).any (matching f) = false) : (w.mark matching set).marks f = w.marks f := by
  cases stored : w.marks f with
  | none => simp [World.mark, stored]
  | some m =>
    rw [stored, Option.any_some] at unmatched
    simp [World.mark, stored, unmatched]

theorem later_discarded {ids : List String} : Later j w
    (w.mark (fun f m => ids.contains f.id && m.deletedAt == none) fun m => { m with deletedAt := some w.now }) := by
  constructor
  · exact fun f h => holds_mark (fun m gone => by simp [Marks.undeleted?] at gone) h
  · exact id
  · exact id
  · exact id

theorem later_swept {matching : FabFile → Marks → Bool} {ids : List String} : Later j w
    ((w.mark matching fun m => { m with archivedAt := none }).record (.unarchived ids)) := by
  constructor
  · intro f h
    have same : ∀ m : Marks, Marks.undeleted? { m with archivedAt := none } = true → Marks.undeleted? m = true := fun _ h => h
    exact holds_mark same h
  · exact fun _ => rfl
  · exact fun _ _ => rfl
  · exact id

end Later

/-! ### The store after each operation -/

section Store
variable {casing : Casing} {before : Shelf} {i : Nat} {w : World}

theorem stored_archived {f : FabFile} (held : before.archived casing f = true) : ∃ m, before.marks f = some m ∧
    isMember casing before.scope f = true ∧ m.deletedAt = none ∧ stampedWith before.lake.filesArchivedAt m.archivedAt = true := by
  obtain ⟨m, stored, archived⟩ := (Option.any_eq_true _ _).mp held
  simp only [archivedMember, Bool.and_eq_true, beq_iff_eq] at archived
  exact ⟨m, stored, archived.1.1, archived.1.2, archived.2⟩

theorem archived_marked {f : FabFile} (held : before.archived casing f = true) {m : Marks} (stored : before.marks f = some m) :
    m.archivedAt ≠ none := by
  obtain ⟨m', stored', _, _, stamped⟩ := stored_archived held
  cases stored.symm.trans stored'
  intro unmarked
  rw [unmarked, stampedWith_none] at stamped
  cases stamped

theorem live_not_archived {f : FabFile} (live : before.live casing f = true) : before.archived casing f = false := by
  cases held : before.archived casing f with
  | false => rfl
  | true =>
    obtain ⟨_, alive⟩ := Bool.and_eq_true_iff.mp live
    obtain ⟨m, stored, alive⟩ := (Option.any_eq_true _ _).mp alive
    simp only [Marks.live, Bool.and_eq_true, beq_iff_eq] at alive
    exact (archived_marked held stored alive.2).elim

theorem live_kept (store : Store casing before w) {f : FabFile} (stored : f ∈ before.files.files) (live : before.live casing f = true) :
    (w.marks f).any Marks.live = true := by
  rw [store.others f stored (live_not_archived live)]
  exact (Bool.and_eq_true_iff.mp live).2

theorem found_iff (store : Store casing before w) {f : FabFile} (stored : f ∈ before.files.files) :
    (w.marks f).any (archivedMember casing before.scope before.lake.filesArchivedAt f) = true ↔
      before.archived casing f = true ∧ (w.marks f).any Marks.undeleted? = true ∧ swept w.log = false := by
  cases held : before.archived casing f with
  | false =>
    rw [store.others f stored held]
    simp only [Bool.false_eq_true, false_and, iff_false, Bool.not_eq_true]
    exact held
  | true =>
    obtain ⟨was, m, old, new, undeleted, _⟩ := store.archived f stored held
    obtain ⟨was', old', isMember, _, stamped⟩ := stored_archived held
    cases old.symm.trans old'
    simp only [new, Option.any_some, archivedMember, isMember, Marks.undeleted?, Bool.true_and, Bool.and_eq_true, beq_iff_eq, true_and]
    constructor
    · rintro ⟨alive, archived⟩
      refine ⟨alive, ?_⟩
      cases done : swept w.log with
      | false => rfl
      | true =>
        rw [undeleted alive, done, if_pos rfl, stampedWith_none] at archived
        cases archived
    · rintro ⟨alive, early⟩
      refine ⟨alive, ?_⟩
      rw [undeleted alive, early, if_neg Bool.false_ne_true]
      exact stamped

theorem store_lake (store : Store casing before w) {lake : LakeDocument} (scope : lakeMembershipScope lake = before.scope)
    (stamp : lake.status ∈ RESTORABLE → lake.filesArchivedAt = before.lake.filesArchivedAt) :
    Store casing before { w with lake := some lake } where
  files := store.files
  lake := ⟨lake, rfl, scope, stamp⟩
  others := store.others
  archived := store.archived
  restored := store.restored
  brought := store.brought

theorem store_listed (store : Store casing before w) : Store casing before (w.record (.listedArchived i)) where
  files := store.files
  lake := store.lake
  others := store.others
  archived := store.archived
  restored := store.restored
  brought := store.brought

theorem store_matched (store : Store casing before w) : Store casing before (w.record (.matchedLive i)) where
  files := store.files
  lake := store.lake
  others := store.others
  archived := store.archived
  restored := store.restored
  brought := store.brought

theorem store_discarded (store : Store casing before w) {ids : List String}
    (discards : ∀ f ∈ before.files.files, f.id ∈ ids → before.archived casing f = true ∧ Twinned casing before f) :
    Store casing before
      (w.mark (fun f m => ids.contains f.id && m.deletedAt == none) fun m => { m with deletedAt := some w.now }) := by
  have same : ∀ f, f.id ∉ ids → (w.mark (fun f m => ids.contains f.id && m.deletedAt == none)
      fun m => { m with deletedAt := some w.now }).marks f = w.marks f := by
    intro f kept
    simp [World.mark, kept]
  refine ⟨store.files, store.lake, fun f stored apart => ?_, fun f stored held => ?_, store.restored, fun f stored held live => ?_⟩
  · by_cases listed : f.id ∈ ids
    · exact (Bool.false_ne_true (apart.symm.trans (discards f stored listed).1)).elim
    · exact (same f listed).trans (store.others f stored apart)
  · obtain ⟨was, m, old, new, undeleted, deleted⟩ := store.archived f stored held
    by_cases listed : f.id ∈ ids
    · by_cases alive : m.deletedAt = none
      · refine ⟨was, { m with deletedAt := some w.now }, old, by simp [World.mark, new, listed, alive], nofun, fun _ => ?_⟩
        exact (discards f stored listed).2
      · refine ⟨was, m, old, by simp [World.mark, new, alive], fun h => (alive h).elim, deleted⟩
    · exact ⟨was, m, old, (same f listed).trans new, undeleted, deleted⟩
  · refine store.brought f stored held (holds_mark (fun m gone => ?_) live)
    simp [Marks.live] at gone

theorem store_swept (store : Store casing before w) :
    Store casing before
      ((w.mark (archivedMember casing before.scope before.lake.filesArchivedAt) fun m => { m with archivedAt := none }).record
        (.unarchived ((w.find (archivedMember casing before.scope before.lake.filesArchivedAt)).map (·.id)))) := by
  have found : ∀ f ∈ before.files.files, f ∈ w.find (archivedMember casing before.scope before.lake.filesArchivedAt) ↔
      before.archived casing f = true ∧ (w.marks f).any Marks.undeleted? = true ∧ swept w.log = false := by
    intro f stored
    rw [World.find, List.mem_filter, found_iff store stored, store.files]
    simp [stored]
  refine ⟨store.files, store.lake, fun f stored apart => ?_, fun f stored held => ?_, fun id member => ?_, fun f stored held live => ?_⟩
  · have unmatched : (w.marks f).any (archivedMember casing before.scope before.lake.filesArchivedAt f) = false := by
      rw [Bool.eq_false_iff]
      intro matched
      exact Bool.false_ne_true (apart.symm.trans ((found_iff store stored).mp matched).1)
    exact (mark_untouched unmatched).trans (store.others f stored apart)
  · obtain ⟨was, m, old, new, undeleted, deleted⟩ := store.archived f stored held
    by_cases matched : archivedMember casing before.scope before.lake.filesArchivedAt f m = true
    · exact ⟨was, { m with archivedAt := none }, old, by simp [World.record, World.mark, new, matched], fun _ => rfl, deleted⟩
    · refine ⟨was, m, old, by simp [World.record, World.mark, new, matched], fun alive => ?_, deleted⟩
      have early : swept w.log = true := by
        by_contra early
        refine matched ?_
        have listed := (found_iff store stored).mpr ⟨held, by simp [new, Marks.undeleted?, alive], Bool.eq_false_iff.mpr early⟩
        simpa [new] using listed
      rw [undeleted alive, early]
      rfl
  · rcases List.mem_append.mp member with now | earlier
    · obtain ⟨f, listed, same⟩ := List.mem_map.mp now
      have stored : f ∈ before.files.files := store.files ▸ (List.mem_filter.mp listed).1
      exact ⟨f, stored, ((found f stored).mp listed).1, same⟩
    · exact store.restored id earlier
  · refine List.mem_append.mpr ?_
    by_cases listed : f ∈ w.find (archivedMember casing before.scope before.lake.filesArchivedAt)
    · exact Or.inl (List.mem_map_of_mem listed)
    · refine Or.inr (store.brought f stored held ?_)
      have unmatched : (w.marks f).any (archivedMember casing before.scope before.lake.filesArchivedAt f) = false := by
        rw [Bool.eq_false_iff]
        intro matched
        exact listed ((found f stored).mpr ((found_iff store stored).mp matched))
      rwa [← mark_untouched unmatched]

end Store

/-! ### The step -/

section Step
variable {casing : Casing} {before : Shelf} {i : Nat} {w w' : World} {ph : Nat → Phase} {q : Phase}

theorem inv_advance (inv : Inv casing before w ph) (store : Store casing before w') (own : Thread casing before w' i q)
    (later : ∀ j, j ≠ i → Later j w w') : Inv casing before w' (Function.update ph i q) := by
  refine ⟨store, fun j => ?_⟩
  by_cases same : j = i
  · subst same
    simpa using own
  · simpa [same] using thread_later (later j same) (inv.2 j)

theorem inv_stays (inv : Inv casing before w ph) (own : Thread casing before w i q) : Inv casing before w (Function.update ph i q) :=
  inv_advance inv inv.1 own fun _ _ => later_lake rfl rfl

theorem seen_thread (store : Store casing before w) {lake : LakeDocument} (found : w.lake = some lake) :
    Thread casing before w i (.seen lake) := by
  obtain ⟨lake', stored, scope, stamp⟩ := store.lake
  cases stored.symm.trans found
  exact ⟨scope, stamp⟩

theorem entered_inv (inv : Inv casing before w ph) {lake : LakeDocument} (at_seen : ph i = .seen lake)
    (restorable : lake.status ∈ RESTORABLE)
    (claim : w.claimLifecycleStatus [.archived, .unarchiving, .restoring] .unarchiving = (true, w')) :
    Inv casing before w' (Function.update ph i (.claimed lake)) := by
  obtain ⟨stored, found, admitted, rfl⟩ := World.updateLake_true claim
  have own := inv.2 i
  rw [at_seen] at own
  obtain ⟨stored', found', scope, stamp⟩ := inv.1.lake
  cases found.symm.trans found'
  refine inv_advance inv (store_lake inv.1 scope fun _ => stamp ?_) ⟨own.1, own.2 restorable⟩ fun _ _ => later_lake rfl rfl
  simpa [RESTORABLE] using admitted

theorem settled_inv (inv : Inv casing before w ph) (at_swept : ph i = .swept) {set : LakeSettleFields} (active : set.status = .active)
    {found : Option LakeDocument} (settle : w.findOneAndUpdate (·.status == .unarchiving) set.apply = (found, w')) :
    Inv casing before w' (Function.update ph i .swept) := by
  have own := inv.2 i
  rw [at_swept] at own
  rcases World.findOneAndUpdate_cases settle with ⟨_, rfl⟩ | ⟨lake, stored, _, _, rfl⟩
  · exact inv_stays inv own
  · obtain ⟨lake', stored', scope, _⟩ := inv.1.lake
    cases stored.symm.trans stored'
    refine inv_advance inv (store_lake inv.1 scope fun restorable => ?_) own fun _ _ => later_lake rfl rfl
    simp [LakeSettleFields.apply, active, RESTORABLE] at restorable

theorem listed_inv (inv : Inv casing before w ph) {lake : LakeDocument} (at_claimed : ph i = .claimed lake) :
    Inv casing before (w.record (.listedArchived i)) (Function.update ph i
      (.listed lake (w.find (archivedMember casing (lakeMembershipScope lake) lake.filesArchivedAt)))) := by
  have own := inv.2 i
  rw [at_claimed] at own
  refine inv_advance inv (store_listed inv.1) ⟨own, fun f listed => ?_, fun some_archived => ?_⟩ fun j other => later_listed other
  all_goals rw [own.1, own.2] at *
  · have stored : f ∈ before.files.files := inv.1.files ▸ (List.mem_filter.mp listed).1
    exact ⟨stored, ((found_iff inv.1 stored).mp (List.mem_filter.mp listed).2).1⟩
  · obtain ⟨f, listed⟩ := List.exists_mem_of_ne_nil _ some_archived
    have stored : f ∈ before.files.files := inv.1.files ▸ (List.mem_filter.mp listed).1
    obtain ⟨_, _, early⟩ := (found_iff inv.1 stored).mp (List.mem_filter.mp listed).2
    refine ⟨fun late => ?_, fun g stored held undeleted => ?_⟩
    · exact (Bool.false_ne_true (early.symm.trans late)).elim
    · rw [World.find, List.mem_filter, inv.1.files]
      exact ⟨stored, (found_iff inv.1 stored).mpr ⟨held, undeleted, early⟩⟩

/-- A live member was live before the calls or came back from the archive. -/
theorem live_origin (store : Store casing before w) {g : FabFile} (stored : g ∈ before.files.files)
    (isMember : isMember casing before.scope g = true) (live : (w.marks g).any Marks.live = true) :
    before.live casing g = true ∨ before.archived casing g = true := by
  cases held : before.archived casing g with
  | true => exact Or.inr rfl
  | false =>
    rw [store.others g stored held] at live
    exact Or.inl (Bool.and_eq_true_iff.mpr ⟨isMember, live⟩)

theorem early_live (store : Store casing before w) (early : swept w.log = false) {g : FabFile} (stored : g ∈ before.files.files)
    (isMember : isMember casing before.scope g = true) (live : (w.marks g).any Marks.live = true) : before.live casing g = true := by
  rcases live_origin store stored isMember live with live | held
  · exact live
  · obtain ⟨was, m, old, new, undeleted, _⟩ := store.archived g stored held
    rw [new] at live
    simp only [Option.any_some, Marks.live, Bool.and_eq_true, beq_iff_eq] at live
    have kept := undeleted live.1
    rw [early, if_neg Bool.false_ne_true] at kept
    exact (archived_marked held old (kept.symm.trans live.2)).elim

theorem mem_duplicatesOf {files live : List FabFile} {f : FabFile} : f ∈ duplicatesOf files live ↔
    f ∈ files ∧ (∃ hash, f.contentHash = some hash ∧ hash ≠ "") ∧ ∃ g ∈ live, g.contentHash = f.contentHash := by
  cases hash : f.contentHash <;> simp [duplicatesOf, blank, hash]

theorem mem_liveCopies {hashes : List String} {tag : String} {g : FabFile} (found : g ∈ w.find (liveCopy hashes tag)) :
    g ∈ w.files.files ∧ g.tags.contains tag = true ∧ g.pending = false ∧ (w.marks g).any Marks.live = true := by
  obtain ⟨stored, matched⟩ := List.mem_filter.mp found
  obtain ⟨m, new, copy⟩ := (Option.any_eq_true _ _).mp matched
  simp only [liveCopy, Bool.and_eq_true, beq_iff_eq, Bool.not_eq_true'] at copy
  obtain ⟨⟨⟨⟨_, undeleted⟩, unarchived⟩, tagged⟩, complete⟩ := copy
  exact ⟨stored, tagged, complete, by simp [new, Marks.live, undeleted, unarchived]⟩

theorem matched_inv (inv : Inv casing before w ph) {lake : LakeDocument} {archived : List FabFile}
    (at_listed : ph i = .listed lake archived) :
    Inv casing before (w.record (.matchedLive i)) (Function.update ph i
      (.matched lake (duplicatesOf archived (w.find (liveCopy (contentHashes archived) lake.datalakeTag))))) := by
  have own := inv.2 i
  rw [at_listed] at own
  obtain ⟨read, listed, complete⟩ := own
  refine inv_advance inv (store_matched inv.1) ⟨read, fun f member => ?_⟩ fun j other => later_matched other
  obtain ⟨here, ⟨hash, hashed, _⟩, g, found, same⟩ := mem_duplicatesOf.mp member
  obtain ⟨stored, held⟩ := listed f here
  obtain ⟨since, every⟩ := complete (List.ne_nil_of_mem here)
  obtain ⟨g_stored, tagged, g_complete, live⟩ := mem_liveCopies found
  rw [inv.1.files] at g_stored
  have g_member : isMember casing before.scope g = true := by
    rw [← read.1]
    exact Bool.or_eq_true_iff.mpr (Or.inl tagged)
  refine ⟨stored, held, ⟨hash, hashed, g, g_stored, live_origin inv.1 g_stored g_member live, g_complete, same.trans hashed⟩, ?_, ?_⟩
  · have now : overtaken i (w.record (.matchedLive i)).log = sweptSince i w.log := if_pos rfl
    cases late : swept w.log with
    | true => exact Or.inl (now.trans (since late))
    | false => exact Or.inr ⟨g, g_stored, early_live inv.1 late g_stored g_member live, same⟩
  · intro f' stored' held' undeleted same'
    refine mem_duplicatesOf.mpr ⟨every f' stored' held' undeleted, ?_, g, found, same.trans same'.symm⟩
    obtain ⟨_, hash, _⟩ := mem_duplicatesOf.mp member
    rw [same']
    exact hash

/-- The copy that a discarded file leaves was there before the calls. -/
theorem other_copy_twinned (store : Store casing before w) {f : FabFile} (copy : HasOtherCopy casing before w f) :
    Twinned casing before f := by
  obtain ⟨g, stored, isMember, live, same, untouched⟩ := copy
  rw [store.files] at stored
  rcases live_origin store stored isMember live with live | held
  · exact ⟨g, stored, live, same⟩
  · exact (untouched (store.brought g stored held live)).elim

theorem twinned_other_copy (store : Store casing before w) {f : FabFile} (twinned : Twinned casing before f) :
    HasOtherCopy casing before w f := by
  obtain ⟨g, stored, live, same⟩ := twinned
  refine ⟨g, store.files ▸ stored, (Bool.and_eq_true_iff.mp live).1, live_kept store stored live, same, fun restored => ?_⟩
  obtain ⟨g', stored', held, same_id⟩ := store.restored g.id restored
  cases FabFiles.id_inj stored' stored same_id
  exact Bool.false_ne_true ((live_not_archived live).symm.trans held)

theorem discarded_file {duplicates : List FabFile} (matched : Matched casing before w i duplicates)
    {f : FabFile} (stored : f ∈ before.files.files) (listed : f.id ∈ duplicates.map (·.id)) : f ∈ duplicates := by
  obtain ⟨g, member, same⟩ := List.mem_map.mp listed
  cases FabFiles.id_inj (matched g member).1 stored same
  exact member

theorem discarded_inv (inv : Inv casing before w ph) {lake : LakeDocument} {duplicates : List FabFile} {draw : Draw}
    (at_matched : ph i = .matched lake duplicates)
    (meets : DiscardsCopies casing before i w (.deleteManyInIds (duplicates.map (·.id))) draw) :
    Inv casing before (w.mark (fun f m => (duplicates.map (·.id)).contains f.id && m.deletedAt == none)
      fun m => { m with deletedAt := some w.now }) (Function.update ph i (.discarded lake)) := by
  have own := inv.2 i
  rw [at_matched] at own
  obtain ⟨read, matched⟩ := own
  refine inv_advance inv (store_discarded inv.1 fun f stored listed => ?_) read fun j _ => later_discarded
  obtain ⟨_, held, _, copied, _⟩ := matched f (discarded_file matched stored listed)
  refine ⟨held, ?_⟩
  rcases copied with late | twinned
  · exact other_copy_twinned inv.1 (meets late f (inv.1.files ▸ stored) listed)
  · exact twinned

theorem swept_inv (inv : Inv casing before w ph) {lake : LakeDocument} (reversing : (ph i).reversing = some lake) :
    Inv casing before
      ((w.mark (archivedMember casing (lakeMembershipScope lake) lake.filesArchivedAt) fun m => { m with archivedAt := none }).record
        (.unarchived ((w.find (archivedMember casing (lakeMembershipScope lake) lake.filesArchivedAt)).map (·.id))))
      (Function.update ph i .swept) := by
  have own := inv.2 i
  have read : Read before lake := by
    cases at_ : ph i with
    | listed lake' archived =>
      rw [at_] at own reversing
      cases reversing
      exact own.1
    | matched lake' duplicates =>
      rw [at_] at own reversing
      cases reversing
      exact own.1
    | discarded lake' =>
      rw [at_] at own reversing
      cases reversing
      exact own
    | idle => simp [at_, Phase.reversing] at reversing
    | seen lake' => simp [at_, Phase.reversing] at reversing
    | claimed lake' => simp [at_, Phase.reversing] at reversing
    | swept => simp [at_, Phase.reversing] at reversing
    | closed => simp [at_, Phase.reversing] at reversing
  rw [read.1, read.2]
  exact inv_advance inv (store_swept inv.1) rfl fun j _ => later_swept

theorem elapsed_inv {t : Time} (inv : Inv casing before w ph) (elapsed : w.elapse t = some w') : Inv casing before w' ph := by
  unfold World.elapse at elapsed
  split at elapsed
  · cases elapsed
    refine ⟨⟨inv.1.files, inv.1.lake, inv.1.others, inv.1.archived, inv.1.restored, inv.1.brought⟩, fun j => ?_⟩
    exact thread_later (later_lake rfl rfl) (inv.2 j)
  · cases elapsed

theorem unarchives_preserves : Preserves (reliable casing) Unarchives (DiscardsCopies casing before) (Inv casing before) where
  env inv moved := elapsed_inv inv moved
  step {i w op draw reply w' ph q} inv meets executed permitted := by
    obtain ⟨value, rfl, performed⟩ := reliable_some executed
    have own := inv.2 i
    generalize at_ : ph i = p at permitted own
    cases permitted with
    | aside =>
      cases performed
      exact inv_stays inv own
    | read =>
      obtain ⟨found, rfl⟩ := Prod.mk.inj (Option.some.inj performed)
      exact inv_stays inv (seen_thread inv.1 found)
    | absent =>
      obtain ⟨_, rfl⟩ := Prod.mk.inj (Option.some.inj performed)
      exact inv_stays inv trivial
    | granted =>
      cases performed
      exact inv_stays inv own
    | entered restorable => exact entered_inv inv at_ restorable (Option.some.inj performed)
    | lost =>
      cases World.updateLake_false (Option.some.inj performed)
      exact inv_stays inv trivial
    | listed =>
      cases performed
      exact listed_inv inv at_
    | matched =>
      cases performed
      exact matched_inv inv at_
    | discarded =>
      cases performed
      exact discarded_inv inv at_ meets
    | swept reversing =>
      cases performed
      exact swept_inv inv (at_ ▸ reversing)
    | settled => exact settled_inv inv at_ rfl (Option.some.inj performed)
    | reread _ =>
      obtain ⟨_, rfl⟩ := Prod.mk.inj (Option.some.inj performed)
      exact inv_stays inv own

end Step
/-! ### The runs -/

section Runs
variable {casing : Casing} {before : Shelf} {w : World} {callers : List ManageActor} {sched : List LakeAction} {c : LakeConfig}

theorem start_inv : Inv casing before before.world fun _ => .idle := by
  refine ⟨⟨rfl, ⟨before.lake, rfl, rfl, fun _ => rfl⟩, fun _ _ _ => rfl, fun f _ held => ?_, nofun, fun f _ held live => ?_⟩,
    fun _ => trivial⟩
  · obtain ⟨m, stored, _, undeleted, _⟩ := stored_archived held
    exact ⟨m, m, stored, stored, fun _ => rfl, fun deleted => (deleted undeleted).elim⟩
  · obtain ⟨m, stored, alive⟩ := (Option.any_eq_true _ _).mp live
    simp only [Marks.live, Bool.and_eq_true, beq_iff_eq] at alive
    exact (archived_marked held stored alive.2).elim

theorem start_tracked : Tracked Unarchives (Leaves (· = .swept)) (Inv casing before) (start before callers) := by
  refine ⟨fun _ => .idle, start_inv, fun i => ?_⟩
  show Follows Unarchives _ ((callers[i]?).elim noCall unarchiveDataLake) .idle
  cases callers[i]? with
  | none => exact leaves_error
  | some actor => exact unarchive_follows actor

/-- Each document is there still, or has a copy that was live before the calls. -/
theorem carried_kept (store : Store casing before w) {hash : String} (carried : before.Carries casing hash) :
    ∃ g ∈ before.files.files, (before.live casing g = true ∨ before.archived casing g = true ∧ (w.marks g).any Marks.undeleted? = true) ∧
      g.contentHash = some hash := by
  obtain ⟨f, stored, live | held, _, hashed⟩ := carried
  · exact ⟨f, stored, Or.inl live, hashed⟩
  · obtain ⟨was, m, old, new, _, deleted⟩ := store.archived f stored held
    by_cases alive : m.deletedAt = none
    · exact ⟨f, stored, Or.inr ⟨held, by simp [new, Marks.undeleted?, alive]⟩, hashed⟩
    · obtain ⟨g, g_stored, live, same⟩ := deleted alive
      exact ⟨g, g_stored, Or.inl live, same.trans hashed⟩

theorem live_undeleted {f : FabFile} (live : (w.marks f).any Marks.live = true) : (w.marks f).any Marks.undeleted? = true := by
  obtain ⟨m, stored, alive⟩ := (Option.any_eq_true _ _).mp live
  rw [stored]
  exact (Bool.and_eq_true_iff.mp alive).1

theorem archived_back (store : Store casing before w) (swept : swept w.log = true) {g : FabFile} (stored : g ∈ before.files.files)
    (held : before.archived casing g = true) (undeleted : (w.marks g).any Marks.undeleted? = true) :
    (w.marks g).any Marks.live = true := by
  obtain ⟨was, m, old, new, back, _⟩ := store.archived g stored held
  rw [new] at undeleted ⊢
  simp only [Option.any_some, Marks.undeleted?, Marks.live, beq_iff_eq, Bool.and_eq_true] at undeleted ⊢
  exact ⟨undeleted, (back undeleted).trans (if_pos swept)⟩

theorem sole_kept (store : Store casing before w) {f : FabFile} (sole : before.Sole casing f) :
    (w.marks f).any Marks.undeleted? = true := by
  obtain ⟨stored, isMember, hash, hashed, only⟩ := sole
  cases held : before.archived casing f with
  | false =>
    rw [store.others f stored held]
    exact (Bool.and_eq_true_iff.mp isMember).2
  | true =>
    obtain ⟨was, m, old, new, _, deleted⟩ := store.archived f stored held
    by_cases alive : m.deletedAt = none
    · simp [new, Marks.undeleted?, alive]
    · obtain ⟨g, g_stored, live, same⟩ := deleted alive
      obtain ⟨g_member, g_live⟩ := Bool.and_eq_true_iff.mp live
      have itself : g = f := only g g_stored (Bool.and_eq_true_iff.mpr ⟨g_member, live_undeleted (w := before.world) g_live⟩)
        (same.trans hashed)
      cases itself
      exact (Bool.false_ne_true ((live_not_archived live).symm.trans held)).elim

theorem tracked_spared (tracked : Tracked Unarchives (Leaves (· = .swept)) (Inv casing before) c) : Spared casing before c := by
  obtain ⟨ph, inv, follows⟩ := tracked
  refine ⟨fun hash carried => ?_, fun ended hash carried => ?_, fun f sole => sole_kept inv.1 sole⟩
  · obtain ⟨g, stored, live | ⟨held, undeleted⟩, hashed⟩ := carried_kept inv.1 carried
    · exact ⟨g, stored, Or.inl live, hashed, live_undeleted (live_kept inv.1 stored live)⟩
    · exact ⟨g, stored, Or.inr held, hashed, undeleted⟩
  · obtain ⟨_, i, returned⟩ := ended
    obtain ⟨result, returned⟩ := Option.isSome_iff_exists.mp returned
    have own := inv.2 i
    have end_ := follows i
    rw [Program.result_some returned] at end_
    rw [show ph i = .swept from end_ result rfl] at own
    obtain ⟨g, stored, live | ⟨held, undeleted⟩, hashed⟩ := carried_kept inv.1 carried
    · exact ⟨g, stored, (Bool.and_eq_true_iff.mp live).1, hashed, live_kept inv.1 stored live⟩
    · obtain ⟨_, _, isMember, _⟩ := stored_archived held
      exact ⟨g, stored, isMember, hashed, archived_back inv.1 own stored held undeleted⟩

theorem discarded_lost {i : Nat} {ph : Nat → Phase} {lake : LakeDocument} {duplicates : List FabFile}
    (inv : Inv casing before w ph) (at_matched : ph i = .matched lake duplicates) {f : FabFile} (member : f ∈ duplicates)
    (alone : ¬ HasOtherCopy casing before w f) {hash : String} (hashed : f.contentHash = some hash) {g : FabFile}
    (stored : g ∈ before.files.files) (before_calls : before.live casing g = true ∨ before.archived casing g = true)
    (same : g.contentHash = some hash) :
    ((w.mark (fun f m => (duplicates.map (·.id)).contains f.id && m.deletedAt == none)
      fun m => { m with deletedAt := some w.now }).marks g).any Marks.undeleted? = false := by
  have own := inv.2 i
  rw [at_matched] at own
  obtain ⟨_, _, _, _, complete⟩ := own.2 f member
  rw [Bool.eq_false_iff]
  intro undeleted
  have earlier : (w.marks g).any Marks.undeleted? = true := holds_mark (fun m gone => by simp [Marks.undeleted?] at gone) undeleted
  rcases before_calls with live | held
  · exact alone (twinned_other_copy inv.1 ⟨g, stored, live, same.trans hashed.symm⟩)
  · have listed : g ∈ duplicates := complete g stored held earlier (same.trans hashed.symm)
    obtain ⟨m, new, alive⟩ := (Option.any_eq_true _ _).mp earlier
    have gone : g.id ∈ duplicates.map (·.id) := List.mem_map_of_mem listed
    have dead : m.deletedAt = none := by simpa [Marks.undeleted?] using alive
    have marked : ((duplicates.map (·.id)).contains g.id && m.deletedAt == none) = true := by
      rw [List.contains_iff_mem.mpr gone, dead]
      rfl
    simp only [World.mark, new, Option.map_some, marked, if_true, Option.any_some] at undeleted
    cases undeleted

theorem breaks {i : Nat} {op : Op} {k : Except LakeError op.Value → Async UnarchiveResult} {draw : Draw}
    (tracked : Tracked Unarchives (Leaves (· = .swept)) (Inv casing before) c) (atAwait : c.threads i = .await op k)
    (broken : ¬ DiscardsCopies casing before i c.store op draw) :
    ∃ c', (reliable casing).resume c i draw = some c' ∧ ¬ Spared casing before c' := by
  obtain ⟨ph, inv, follows⟩ := tracked
  have here := follows i
  rw [atAwait] at here
  cases op with
  | deleteManyInIds ids =>
    obtain ⟨q, permitted, _⟩ := here (.ok ())
    simp only [DiscardsCopies, Classical.not_imp, not_forall] at broken
    obtain ⟨_, f, stored, listed, alone⟩ := broken
    rw [inv.1.files] at stored
    generalize at_ : ph i = p at permitted
    cases permitted with
    | discarded =>
      rename_i lake duplicates
      have own := inv.2 i
      rw [at_] at own
      have member := discarded_file own.2 stored listed
      obtain ⟨_, held, ⟨hash, hashed, carried⟩, _⟩ := own.2 f member
      refine ⟨_, by simp only [Semantics.resume, atAwait, reliable, World.perform, Option.map_some]; rfl, fun spared => ?_⟩
      obtain ⟨g, g_stored, g_before, same, undeleted⟩ := spared.kept hash carried
      exact Bool.false_ne_true ((discarded_lost inv at_ member alone hashed g_stored g_before same).symm.trans undeleted)
  | _ => exact (broken trivial).elim

end Runs

/-- Restoring calls keep a copy of every document exactly when none of them, its two reads a sweep apart,
discards a file whose only live copies that sweep brought back. -/
theorem unarchiving_spares_iff (casing : Casing) (before : Shelf) (callers : List ManageActor) (sched : List LakeAction) :
    (reliable casing).Always (Spared casing before) (start before callers) sched ↔
      (reliable casing).Meets (DiscardsCopies casing before) (start before callers) sched :=
  always_iff_meets_config unarchives_preserves tracked_spared breaks start_tracked

/-! ### A file and its only copy -/

namespace DoubleClick

def casing : Casing := ⟨id, id⟩

def handbook : FabFile where
  id := "handbook"
  userId := "owner"
  contentHash := some "hash"
  tags := ["datalake:docs"]

def docs : Shelf where
  lake :=
    { id := ⟨"65f0000000000000000000ad", rfl⟩
      createdByUserId := "owner"
      status := .archived
      datalakeTag := "datalake:docs"
      filesArchivedAt := some 5 }
  files := ⟨[handbook], by decide⟩
  marks f := if f = handbook then some { archivedAt := some 5 } else none

def owner : ManageActor := { userId := "owner" }

def steps (i n : Nat) : List LakeAction := List.replicate n (.resume i {})

/-- The first call lists the archived file, the second restores it, and the first finds it live and discards it. -/
def clicks : List LakeAction := steps 0 4 ++ steps 1 6 ++ steps 0 10 ++ steps 1 2

def handbookDeleted (c : LakeConfig) : Bool := (c.store.marks handbook).any fun m => !Marks.undeleted? m

theorem handbook_sole : docs.Sole casing handbook := by
  refine ⟨List.mem_singleton_self _, by decide, "hash", rfl, fun g stored _ _ => ?_⟩
  exact List.mem_singleton.mp stored

/-- Two restoring calls discard a lake's only file. -/
theorem only_copy_discarded : ∃ c, (reliable casing).run (start docs [owner, owner]) clicks = some c ∧
    (∀ i < 2, (c.threads i).settled = true) ∧ docs.Sole casing handbook ∧ handbookDeleted c = true ∧ ¬ Spared casing docs c := by
  have ran : ((reliable casing).run (start docs [owner, owner]) clicks).any (fun c =>
      (List.range 2).all (fun i => (c.threads i).settled) && handbookDeleted c) = true := by decide
  obtain ⟨c, run, ended⟩ := (Option.any_eq_true _ _).mp ran
  obtain ⟨settled, deleted⟩ := Bool.and_eq_true_iff.mp ended
  refine ⟨c, run, fun i small => List.all_eq_true.mp settled i (List.mem_range.mpr small), handbook_sole, deleted, fun spared => ?_⟩
  have kept := spared.sole handbook handbook_sole
  obtain ⟨m, stored, gone⟩ := (Option.any_eq_true _ _).mp deleted
  rw [stored, Option.any_some] at kept
  rw [kept] at gone
  cases gone

end DoubleClick
end Bike4Mind.DataLakes.Unarchive
