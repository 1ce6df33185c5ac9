import Bike4Mind.DataLakes.MembershipMoves
import Mathlib.Data.List.Chain

/-! The log of joins and departures of one lake: which runs of the calls that move files keep it in step with the files. -/

namespace Bike4Mind.DataLakes.Books
open Collections Concurrency

/-! ### What a log says -/

/-- The event that a write calls for. -/
def Write.expected (casing : Casing) (scope : MembershipScope) (write : Write) : List MembershipAction :=
  if liveMember casing scope write.file write.before = liveMember casing scope write.file write.after then []
  else if liveMember casing scope write.file write.after then [.added] else [.removed]

/-- The events of a file in the order of the writes behind them, newest first. -/
def World.eventsOf (w : World) (fabFileId : String) : List MembershipAction :=
  (w.writes.filter (·.file.id = fabFileId)).flatMap (·.recorded)

structure Balanced (casing : Casing) (scope : MembershipScope) (w₀ w : World) (file : StoredFile) : Prop where
  alternates : (w.eventsOf file.id).IsChain (· ≠ ·)
  balance : ((w.eventsOf file.id).count .added : Int) - (w.eventsOf file.id).count .removed =
    count (liveMember casing scope file (w.states file.id)) - count (liveMember casing scope file (w₀.states file.id))
  /-- A write that does not move the file in or out has no event, any other has one. -/
  caused : ∀ write ∈ w.writes, write.file.id = file.id → write.recorded = write.expected casing scope
  explained : ∀ action, (file.id, action) ∉ w.orphans

section Events
variable {casing : Casing} {scope : MembershipScope} {id : String} {first last : Bool} {writes : List Write} {write : Write}

theorem expected_same (same : liveMember casing scope write.file write.before = liveMember casing scope write.file write.after) :
    write.expected casing scope = [] := if_pos same

theorem expected_added (before : liveMember casing scope write.file write.before = false)
    (after : liveMember casing scope write.file write.after = true) : write.expected casing scope = [.added] := by
  unfold Write.expected
  rw [before, after]
  rfl

theorem expected_removed (before : liveMember casing scope write.file write.before = true)
    (after : liveMember casing scope write.file write.after = false) : write.expected casing scope = [.removed] := by
  unfold Write.expected
  rw [before, after]
  rfl

/-- The events that the writes of a file call for. -/
def expectedOf (casing : Casing) (scope : MembershipScope) (id : String) (writes : List Write) : List MembershipAction :=
  (writes.filter (·.file.id = id)).flatMap (·.expected casing scope)

theorem expectedOf_cons (own : write.file.id = id) :
    expectedOf casing scope id (write :: writes) = write.expected casing scope ++ expectedOf casing scope id writes := by
  unfold expectedOf
  rw [List.filter_cons_of_pos (by simpa using own), List.flatMap_cons]

theorem expectedOf_other (other : write.file.id ≠ id) :
    expectedOf casing scope id (write :: writes) = expectedOf casing scope id writes := by
  unfold expectedOf
  rw [List.filter_cons_of_neg (by simpa using other)]

/-- The newest event says whether the file is a live member. -/
structure Replays (first last : Bool) (events : List MembershipAction) : Prop where
  alternates : events.IsChain (· ≠ ·)
  newest : ∀ action ∈ events.head?, action = .added ↔ last = true
  balance : (events.count .added : Int) - events.count .removed = count last - count first

theorem Replays.added {events : List MembershipAction} (replays : Replays first false events) :
    Replays first true (.added :: events) where
  alternates := by
    refine List.isChain_cons.mpr ⟨fun action newest same => ?_, replays.alternates⟩
    exact absurd ((replays.newest action newest).mp same.symm) (by decide)
  newest action member := by
    cases member
    exact ⟨fun _ => rfl, fun _ => rfl⟩
  balance := by
    have balance := replays.balance
    rw [List.count_cons_self, List.count_cons_of_ne (by decide)]
    simp only [count, Bool.false_eq_true, ↓reduceIte] at balance ⊢
    omega

theorem Replays.removed {events : List MembershipAction} (replays : Replays first true events) :
    Replays first false (.removed :: events) where
  alternates := by
    refine List.isChain_cons.mpr ⟨fun action newest same => ?_, replays.alternates⟩
    exact absurd ((replays.newest action newest).mpr rfl) (same ▸ by decide)
  newest action member := by
    cases member
    exact ⟨nofun, nofun⟩
  balance := by
    have balance := replays.balance
    rw [List.count_cons_self, List.count_cons_of_ne (by decide)]
    simp only [count, Bool.false_eq_true, ↓reduceIte] at balance ⊢
    omega

theorem chained_replays (chained : Chained (liveMember casing scope) id first writes last) :
    Replays first last (expectedOf casing scope id writes) := by
  induction writes generalizing last with
  | nil =>
    have same : first = last := chained
    subst same
    exact ⟨List.isChain_nil, nofun, by simp [expectedOf]⟩
  | cons write rest ih =>
    by_cases own : write.file.id = id
    · obtain ⟨reached, before⟩ := (chained_cons own).mp chained
      have earlier := ih before
      rw [expectedOf_cons own]
      subst reached
      cases left : liveMember casing scope write.file write.before with
      | false =>
        rw [left] at earlier
        cases right : liveMember casing scope write.file write.after with
        | false => rwa [expected_same (left.trans right.symm)]
        | true =>
          rw [expected_added left right]
          exact earlier.added
      | true =>
        rw [left] at earlier
        cases right : liveMember casing scope write.file write.after with
        | false =>
          rw [expected_removed left right]
          exact earlier.removed
        | true => rwa [expected_same (left.trans right.symm)]
    · rw [expectedOf_other own]
      exact ih ((chained_other own).mp chained)

/-- A log with the expected events, and no other, balances. -/
theorem balanced_of_caused {w₀ w : World} {file : StoredFile}
    (chained : Chained (liveMember casing scope) file.id (liveMember casing scope file (w₀.states file.id)) w.writes
      (liveMember casing scope file (w.states file.id)))
    (caused : ∀ write ∈ w.writes, write.file.id = file.id → write.recorded = write.expected casing scope)
    (explained : w.orphans = []) : Balanced casing scope w₀ w file := by
  have events : w.eventsOf file.id = expectedOf casing scope file.id w.writes := by
    apply List.flatMap_congr
    intro write member
    obtain ⟨stored, own⟩ := List.mem_filter.mp member
    exact caused write stored (by simpa using own)
  have replays := chained_replays chained
  rw [← events] at replays
  exact ⟨replays.alternates, replays.balance, caused, fun action => by simp [explained]⟩

end Events

namespace Membership

/-! ### Runs -/

/-- What the outside world picks for an operation. -/
structure Draw where
  uuid : String := ""
  rejects : Bool := false
  deriving DecidableEq

def isRecord : Op → Bool
  | .recordLakeMembershipChange .. => true
  | _ => false

/-- Any repository call may reject, but for the one that records an event. -/
def membershipSemantics (casing : Casing) : Semantics Nat World Op Op.Value LakeError Draw Time where
  exec i w op draw :=
    if draw.rejects && !isRecord op then some (.error (.error "rejected"), w)
    else some (.ok (w.perform casing i draw.uuid op).1, (w.perform casing i draw.uuid op).2)
  env := World.elapse

/-- A removal finds its tags on a live row, a sweep still finds a member, and no call gives up between a write and its event. -/
def landsOnMember (casing : Casing) (scope : MembershipScope) (i : Nat) (w : World) (op : Op) (draw : Draw) : Bool :=
  (!draw.rejects || w.writes.all fun write => write.thread ≠ i || write.recorded = write.expected casing scope) &&
    match op with
    | .pullTagsByFabFileId id tagNames =>
      (w.get? id).all fun f => (w.states id).live || !(f.signals (w.states id)).tagNames.any tagNames.contains
    | .softDeleteRow id _ => (w.get? id).all fun f => !(w.states id).live || isMember casing scope (f.row (w.states id))
    | _ => true

/-- `landsOnMember`, as a condition on the steps of a run. -/
def LandsOnMember (casing : Casing) (scope : MembershipScope) (i : Nat) (w : World) (op : Op) (draw : Draw) : Prop :=
  landsOnMember casing scope i w op draw = true

instance {casing : Casing} {scope : MembershipScope} {i : Nat} {w : World} {op : Op} {draw : Draw} :
    Decidable (LandsOnMember casing scope i w op draw) := inferInstanceAs (Decidable (_ = true))

/-! ### The invariant -/

section Invariant
variable {casing : Casing} {scope : MembershipScope} {w₀ w w' : World} {ph : Nat → Phase} {i : Nat}

theorem isMember_row (f : StoredFile) (s : FileState) : isMember casing scope (f.row s) = member casing scope.owned (f.signals s) := rfl

/-- The rows still to write, then those whose event is still to come. -/
def Phase.rows : Phase → List String
  | .moving _ _ left owed => left ++ owed
  | _ => []

/-- The event of the write is still to come. -/
structure Owes (casing : Casing) (scope : MembershipScope) (write : Write) (p : Phase) : Prop where
  unrecorded : write.recorded = []
  listed : write.file.id ∈ p.owed
  expected : write.expected casing scope = [p.action]

/-- The names clear every signal of the lake off the file, and each of them is one. -/
structure Clears (casing : Casing) (scope : MembershipScope) (f : StoredFile) (s : FileState) (tagNames : List String) : Prop where
  metaTag : scope.datalakeTag ∈ tagNames
  clears : member casing scope.owned ((f.signals s).pull tagNames) = false
  signals : ∀ s', (f.signals s').tagNames.any tagNames.contains = true → member casing scope.owned (f.signals s') = true

def Phase.InScope (scope : MembershipScope) (p : Phase) : Prop := ∀ lake, p.lake? = some lake → lakeMembershipScope lake = scope

/-- Each event still to come has a write behind it. -/
def Phase.Backed (casing : Casing) (scope : MembershipScope) (writes : List Write) (i : Nat) (p : Phase) : Prop :=
  ∀ id ∈ p.owed, ∃ write ∈ writes, write.thread = i ∧ write.file.id = id ∧ Owes casing scope write p

/-- The names a removal is about to pull. -/
def Phase.Ready (casing : Casing) (scope : MembershipScope) (w : World) (p : Phase) : Prop :=
  ∀ lake id tagNames, p = .pulling lake id tagNames → ∀ f ∈ w.files.files, f.id = id →
    Clears casing scope f (w.states id) tagNames

structure Kept (casing : Casing) (scope : MembershipScope) (w₀ w : World) (ph : Nat → Phase) : Prop where
  lake : ∀ lake, w.lake = some lake → lakeMembershipScope lake = scope
  phases : ∀ i, (ph i).InScope scope
  files : w.files = w₀.files
  chained : ∀ f ∈ w.files.files, Chained (liveMember casing scope) f.id (liveMember casing scope f (w₀.states f.id)) w.writes
    (liveMember casing scope f (w.states f.id))
  written : ∀ write ∈ w.writes, ¬ (ph write.thread).mayWrite write.file.id
  once : (w.writes.map fun write => (write.thread, write.file.id)).Nodup
  recorded : ∀ write ∈ w.writes, write.recorded = write.expected casing scope ∨ Owes casing scope write (ph write.thread)
  owed : ∀ i, (ph i).Backed casing scope w.writes i
  rows : ∀ i, (ph i).rows.Nodup
  orphans : w.orphans = []
  clears : ∀ i, (ph i).Ready casing scope w

/-- What a member carries besides, it may lose. -/
theorem member_mono {scope : DataLakeMembershipScope} {file file' : SignalSourceFile} (owner : file'.userId = file.userId)
    (fewer : ∀ name ∈ file'.tagNames, name ∈ file.tagNames) (still : member casing scope file' = true) :
    member casing scope file = true := by
  unfold member carriesMetaTag underPrefix at still ⊢
  rw [Bool.or_eq_true] at still ⊢
  rcases still with tagged | under
  · exact Or.inl (List.contains_iff_mem.mpr (fewer _ (List.contains_iff_mem.mp tagged)))
  · refine Or.inr ?_
    cases arm : scope.effectiveTagPrefixArm casing with
    | none =>
      rw [arm] at under
      cases under
    | some tagPrefix =>
      rw [arm, Option.any_some, Bool.and_eq_true, List.any_eq_true] at under
      obtain ⟨⟨name, carried, start⟩, own⟩ := under
      rw [Option.any_some, Bool.and_eq_true, List.any_eq_true]
      exact ⟨⟨name, fewer name carried, start⟩, owner ▸ own⟩

/-- A file that only loses names, or gains the meta-tag, is cleared by the same pull. -/
theorem Clears.later {f : StoredFile} {s s' : FileState} {tagNames : List String} (clears : Clears casing scope f s tagNames)
    (fewer : ∀ name ∈ (f.signals s').tagNames, name ∈ (f.signals s).tagNames ∨ name = scope.datalakeTag) :
    Clears casing scope f s' tagNames where
  metaTag := clears.metaTag
  clears := by
    rw [Bool.eq_false_iff]
    intro still
    have before : member casing scope.owned ((f.signals s).pull tagNames) = true := by
      have owner : ((f.signals s').pull tagNames).userId = ((f.signals s).pull tagNames).userId := rfl
      refine member_mono owner (fun name kept => ?_) still
      obtain ⟨carried, unlisted⟩ := mem_tagNames_pull.mp kept
      refine mem_tagNames_pull.mpr ⟨?_, unlisted⟩
      rcases fewer name carried with stored | same
      · exact stored
      · exact absurd (same ▸ clears.metaTag) unlisted
    rw [clears.clears] at before
    cases before
  signals := clears.signals

/-- Other writes left the names of the file as they were. -/
structure SameRows (w w' : World) : Prop where
  lake : ∀ lake', w'.lake = some lake' → ∃ lake, w.lake = some lake ∧ lakeMembershipScope lake' = lakeMembershipScope lake
  files : w'.files = w.files
  tags : ∀ id, (w'.states id).tags = (w.states id).tags
  deletedAt : ∀ id, (w'.states id).deletedAt = (w.states id).deletedAt
  writes : w'.writes = w.writes
  orphans : w'.orphans = w.orphans

theorem SameRows.signals (same : SameRows w w') (f : StoredFile) (id : String) :
    f.signals (w'.states id) = f.signals (w.states id) := by
  unfold StoredFile.signals
  rw [same.tags]

theorem SameRows.liveMember (same : SameRows w w') (f : StoredFile) (id : String) :
    liveMember casing scope f (w'.states id) = liveMember casing scope f (w.states id) := by
  unfold Books.liveMember FileState.live
  rw [isMember_row, isMember_row, same.signals, same.deletedAt]

theorem Kept.same (kept : Kept casing scope w₀ w ph) (same : SameRows w w') : Kept casing scope w₀ w' ph where
  lake lake stored := by
    obtain ⟨before, held, unchanged⟩ := same.lake lake stored
    exact unchanged.trans (kept.lake before held)
  phases := kept.phases
  files := same.files.trans kept.files
  chained f stored := by
    rw [same.files] at stored
    rw [same.writes, same.liveMember]
    exact kept.chained f stored
  written := same.writes ▸ kept.written
  once := same.writes ▸ kept.once
  recorded := same.writes ▸ kept.recorded
  owed := same.writes ▸ kept.owed
  rows := kept.rows
  orphans := same.orphans.trans kept.orphans
  clears i lake id tagNames phase f stored own := by
    rw [same.files] at stored
    refine (kept.clears i lake id tagNames phase f stored own).later fun name carried => ?_
    rw [same.signals] at carried
    exact Or.inl carried

/-- A phase owes what the one before it owed. -/
structure Carries (p q : Phase) : Prop where
  inScope : ∀ lake, q.lake? = some lake → p.lake? = some lake
  writes : ∀ id, q.mayWrite id → p.mayWrite id
  owed : ∀ id ∈ p.owed, id ∈ q.owed ∧ q.action = p.action

theorem Owes.carried {p q : Phase} {write : Write} (owes : Owes casing scope write p) (carries : Carries p q) :
    Owes casing scope write q where
  unrecorded := owes.unrecorded
  listed := (carries.owed _ owes.listed).1
  expected := by rw [(carries.owed _ owes.listed).2, owes.expected]

section Steps
variable {q : Phase}

theorem phase_other {j : Nat} (other : j ≠ i) : Function.update ph i q j = ph j := Function.update_of_ne other ..

theorem Kept.rows_update (kept : Kept casing scope w₀ w ph) (rows : q.rows.Nodup) :
    ∀ j, (Function.update ph i q j).rows.Nodup :=
  (Function.forall_update_iff ph fun _ p => p.rows.Nodup).mpr ⟨rows, fun j _ => kept.rows j⟩

theorem Kept.moved (kept : Kept casing scope w₀ w ph) (carries : Carries (ph i) q ∨ ph i = .start ∧ q.owed = [])
    (inScope : q.InScope scope) (still : ∀ id ∈ q.owed, id ∈ (ph i).owed) (rows : q.rows.Nodup)
    (clears : q.Ready casing scope w) :
    Kept casing scope w₀ w (Function.update ph i q) where
  lake := kept.lake
  phases := (Function.forall_update_iff ph fun _ p => p.InScope scope).mpr ⟨inScope, fun j _ => kept.phases j⟩
  files := kept.files
  chained := kept.chained
  written write stored := by
    by_cases own : write.thread = i
    · have before := kept.written write stored
      rw [own] at before ⊢
      rw [Function.update_self]
      rcases carries with carries | ⟨start, _⟩
      · exact fun may => before (carries.writes _ may)
      · rw [start] at before
        exact absurd trivial before
    · rw [phase_other own]
      exact kept.written write stored
  once := kept.once
  recorded write stored := by
    by_cases own : write.thread = i
    · rcases kept.recorded write stored with done | owes
      · exact Or.inl done
      · rw [own] at owes ⊢
        rw [Function.update_self]
        rcases carries with carries | ⟨start, _⟩
        · exact Or.inr (owes.carried carries)
        · rw [start] at owes
          exact absurd owes.listed List.not_mem_nil
    · rw [phase_other own]
      exact kept.recorded write stored
  owed := by
    refine (Function.forall_update_iff ph fun j p => p.Backed casing scope w.writes j).mpr
      ⟨fun id listed => ?_, fun j _ => kept.owed j⟩
    obtain ⟨write, member, thread, file, owes⟩ := kept.owed i id (still id listed)
    rcases carries with carries | ⟨_, nothing⟩
    · exact ⟨write, member, thread, file, owes.carried carries⟩
    · rw [nothing] at listed
      cases listed
  rows := kept.rows_update rows
  orphans := kept.orphans
  clears := (Function.forall_update_iff ph fun _ p => p.Ready casing scope w).mpr ⟨clears, fun j _ => kept.clears j⟩

theorem Kept.wrote {f : StoredFile} {set : FileState → FileState} (kept : Kept casing scope w₀ w ph) (stored : f ∈ w.files.files)
    (carries : Carries (ph i) q) (allowed : (ph i).mayWrite f.id) (closes : ¬ q.mayWrite f.id)
    (names : ∀ name ∈ (f.signals (set (w.states f.id))).tagNames,
      name ∈ (f.signals (w.states f.id)).tagNames ∨ name = scope.datalakeTag)
    (event : Write.expected casing scope { thread := i, file := f, before := w.states f.id, after := set (w.states f.id) } =
      if f.id ∈ q.owed then [q.action] else [])
    (newly : ∀ id ∈ q.owed, id ∈ (ph i).owed ∨ id = f.id) (rows : q.rows.Nodup)
    (noPull : ∀ lake id tagNames, q ≠ .pulling lake id tagNames) :
    Kept casing scope w₀ (w.write i f set) (Function.update ph i q) where
  lake := kept.lake
  phases := (Function.forall_update_iff ph fun _ p => p.InScope scope).mpr
    ⟨fun lake held => kept.phases i lake (carries.inScope lake held), fun j _ => kept.phases j⟩
  files := kept.files
  chained g member := by
    by_cases own : g.id = f.id
    · have same : g = f := List.inj_on_of_nodup_map w.files.distinct member stored own
      subst same
      refine (chained_cons rfl).mpr ⟨?_, kept.chained g member⟩
      show _ = liveMember casing scope g (Function.update w.states g.id _ g.id)
      rw [Function.update_self]
    · refine (chained_other (Ne.symm own)).mpr ?_
      have unchanged : (w.write i f set).states g.id = w.states g.id := Function.update_of_ne own ..
      rw [unchanged]
      exact kept.chained g member
  written := by
    refine List.forall_mem_cons.mpr ⟨?_, fun write member => ?_⟩
    · show ¬ (Function.update ph i q i).mayWrite f.id
      rw [Function.update_self]
      exact closes
    · by_cases own : write.thread = i
      · have before := kept.written write member
        rw [own] at before ⊢
        rw [Function.update_self]
        exact fun may => before (carries.writes _ may)
      · rw [phase_other own]
        exact kept.written write member
  once := by
    refine List.nodup_cons.mpr ⟨fun repeated => ?_, kept.once⟩
    obtain ⟨write, member, same⟩ := List.mem_map.mp repeated
    obtain ⟨thread, file⟩ := Prod.mk.inj same
    have before := kept.written write member
    rw [thread, file] at before
    exact before allowed
  recorded := by
    refine List.forall_mem_cons.mpr ⟨?_, fun write member => ?_⟩
    · show _ ∨ Owes casing scope _ (Function.update ph i q i)
      rw [Function.update_self]
      by_cases listed : f.id ∈ q.owed
      · rw [if_pos listed] at event
        exact Or.inr ⟨rfl, listed, event⟩
      · rw [if_neg listed] at event
        exact Or.inl event.symm
    · rcases kept.recorded write member with done | owes
      · exact Or.inl done
      · refine Or.inr ?_
        by_cases own : write.thread = i
        · rw [own] at owes ⊢
          rw [Function.update_self]
          exact owes.carried carries
        · rwa [phase_other own]
  owed := by
    refine (Function.forall_update_iff ph fun j p => p.Backed casing scope (w.write i f set).writes j).mpr
      ⟨fun id listed => ?_, fun j _ id listed => ?_⟩
    · rcases newly id listed with before | same
      · obtain ⟨write, member, thread, file, owes⟩ := kept.owed i id before
        exact ⟨write, List.mem_cons_of_mem _ member, thread, file, owes.carried carries⟩
      · subst same
        rw [if_pos listed] at event
        exact ⟨_, List.mem_cons_self, rfl, rfl, rfl, listed, event⟩
    · obtain ⟨write, member, found⟩ := kept.owed j id listed
      exact ⟨write, List.mem_cons_of_mem _ member, found⟩
  rows := kept.rows_update rows
  orphans := kept.orphans
  clears := by
    refine (Function.forall_update_iff ph fun _ p => p.Ready casing scope (w.write i f set)).mpr
      ⟨fun lake id tagNames same => absurd same (noPull lake id tagNames), ?_⟩
    intro j _ lake id tagNames phase g member own
    subst own
    have before := kept.clears j lake g.id tagNames phase g member rfl
    by_cases same : g.id = f.id
    · have same : g = f := List.inj_on_of_nodup_map w.files.distinct member stored same
      subst same
      show Clears casing scope g (Function.update w.states g.id _ g.id) tagNames
      rw [Function.update_self]
      exact before.later names
    · have unchanged : (w.write i f set).states g.id = w.states g.id := Function.update_of_ne same ..
      rwa [unchanged]

/-- A write with the event, when it is the one of this call on this file. -/
def stamped (i : Nat) (fabFileId : String) (action : MembershipAction) (write : Write) : Write :=
  if write.thread = i ∧ write.file.id = fabFileId then { write with recorded := action :: write.recorded } else write

section Stamped
variable {fabFileId : String} {action : MembershipAction} {writes : List Write} {write : Write}

theorem stamped_other (other : ¬ (write.thread = i ∧ write.file.id = fabFileId)) : stamped i fabFileId action write = write :=
  if_neg other

theorem stamped_thread : (stamped i fabFileId action write).thread = write.thread := by
  unfold stamped
  split <;> rfl

theorem stamped_file : (stamped i fabFileId action write).file = write.file := by
  unfold stamped
  split <;> rfl

theorem stamped_before : (stamped i fabFileId action write).before = write.before := by
  unfold stamped
  split <;> rfl

theorem stamped_after : (stamped i fabFileId action write).after = write.after := by
  unfold stamped
  split <;> rfl

theorem stamped_expected : (stamped i fabFileId action write).expected casing scope = write.expected casing scope := by
  unfold Write.expected
  rw [stamped_file, stamped_before, stamped_after]

theorem keys_stamped : ((writes.map (stamped i fabFileId action)).map fun write => (write.thread, write.file.id)) =
    writes.map fun write => (write.thread, write.file.id) := by
  rw [List.map_map]
  apply List.map_congr_left
  intro write _
  exact Prod.ext stamped_thread (congrArg (·.id) stamped_file)

theorem attach_eq (once : (writes.map fun write => (write.thread, write.file.id)).Nodup) (member : write ∈ writes)
    (thread : write.thread = i) (file : write.file.id = fabFileId) :
    attach i fabFileId action writes = some (writes.map (stamped i fabFileId action)) := by
  induction writes with
  | nil => cases member
  | cons newest rest ih =>
    obtain ⟨fresh, once⟩ := List.nodup_cons.mp once
    unfold attach
    by_cases here : newest.thread = i ∧ newest.file.id = fabFileId
    · have unchanged : rest.map (stamped i fabFileId action) = rest := by
        refine (List.map_congr_left fun other earlier => ?_).trans (List.map_id rest)
        refine stamped_other fun same => fresh (List.mem_map.mpr ⟨other, earlier, ?_⟩)
        show (other.thread, other.file.id) = (newest.thread, newest.file.id)
        rw [same.1, same.2, here.1, here.2]
      rw [if_pos here, List.map_cons, stamped, if_pos here, unchanged]
    · rw [if_neg here, List.map_cons, stamped, if_neg here]
      rcases List.mem_cons.mp member with same | earlier
      · exact absurd (same ▸ ⟨thread, file⟩) here
      · rw [ih once earlier]
        rfl

theorem chained_stamped {view : StoredFile → FileState → Bool} {id : String} {first last : Bool}
    (chained : Chained view id first writes last) : Chained view id first (writes.map (stamped i fabFileId action)) last := by
  induction writes generalizing last with
  | nil => exact chained
  | cons write rest ih =>
    rw [List.map_cons]
    by_cases own : write.file.id = id
    · obtain ⟨reached, before⟩ := (chained_cons own).mp chained
      refine (chained_cons ((congrArg (·.id) stamped_file).trans own)).mpr ?_
      rw [stamped_file, stamped_before, stamped_after]
      exact ⟨reached, ih before⟩
    · exact (chained_other fun same => own ((congrArg (·.id) stamped_file).symm.trans same)).mpr (ih ((chained_other own).mp chained))

end Stamped

theorem Kept.record {lake : LakeDocument} {action : MembershipAction} {id : String} {owed : List String}
    (kept : Kept casing scope w₀ w ph) (here : ph i = .moving lake action [] (id :: owed)) :
    Kept casing scope w₀ (w.recordEvent i id action) (Function.update ph i (.moving lake action [] owed)) := by
  obtain ⟨write, member, thread, file, owes⟩ := kept.owed i id (by rw [here]; exact List.mem_cons_self)
  have distinct : (id :: owed).Nodup := by
    have rows := kept.rows i
    rw [here] at rows
    exact rows
  obtain ⟨fresh, rest⟩ := List.nodup_cons.mp distinct
  have shape : w.recordEvent i id action = { w with writes := w.writes.map (stamped i id action) } := by
    unfold World.recordEvent
    rw [attach_eq kept.once member thread file]
  -- The call still owes its other writes their events.
  have left : ∀ write ∈ w.writes, write.thread = i → write.file.id ≠ id → Owes casing scope write (ph i) →
      Owes casing scope write (.moving lake action [] owed) := by
    intro write member thread other owes
    rw [here] at owes
    exact ⟨owes.unrecorded, (List.mem_cons.mp owes.listed).resolve_left other, owes.expected⟩
  rw [shape]
  refine ⟨kept.lake, ?_, kept.files, ?_, ?_, ?_, ?_, ?_, kept.rows_update rest, kept.orphans, ?_⟩
  · refine (Function.forall_update_iff ph fun _ p => p.InScope scope).mpr ⟨fun lake' held => ?_, fun j _ => kept.phases j⟩
    exact kept.phases i lake' (by rw [here]; exact held)
  · exact fun f stored => chained_stamped (kept.chained f stored)
  · refine List.forall_mem_map.mpr fun write member => ?_
    rw [stamped_thread, stamped_file]
    by_cases own : write.thread = i
    · rw [own, Function.update_self]
      exact List.not_mem_nil
    · rw [phase_other own]
      exact kept.written write member
  · rw [keys_stamped]
    exact kept.once
  · refine List.forall_mem_map.mpr fun other stored => ?_
    rw [stamped_thread, stamped_expected]
    by_cases target : other.thread = i ∧ other.file.id = id
    · have same : other = write := by
        refine List.inj_on_of_nodup_map kept.once stored member ?_
        rw [target.1, target.2, thread, file]
      refine Or.inl ?_
      rw [stamped, if_pos target, same]
      show action :: write.recorded = _
      rw [owes.unrecorded, owes.expected, here]
      rfl
    · rw [stamped_other target]
      refine (kept.recorded other stored).imp_right fun owes => ?_
      by_cases own : other.thread = i
      · rw [own] at owes ⊢
        rw [Function.update_self]
        exact left other stored own (fun same => target ⟨own, same⟩) owes
      · rwa [phase_other own]
  · refine (Function.forall_update_iff ph fun j p => p.Backed casing scope (w.writes.map (stamped i id action)) j).mpr
      ⟨fun id' listed => ?_, fun j other id' listed => ?_⟩
    · obtain ⟨write, member, thread, file, owes⟩ := kept.owed i id' (by rw [here]; exact List.mem_cons_of_mem _ listed)
      have apart : write.file.id ≠ id := fun same => fresh (same ▸ file ▸ listed)
      refine ⟨write, List.mem_map.mpr ⟨write, member, stamped_other fun same => apart same.2⟩, thread, file, ?_⟩
      exact left write member thread apart owes
    · obtain ⟨write, member, thread, file, owes⟩ := kept.owed j id' listed
      have elsewhere : stamped i id action write = write := stamped_other fun same => other (thread.symm.trans same.1)
      exact ⟨write, List.mem_map.mpr ⟨write, member, elsewhere⟩, thread, file, owes⟩
  · exact (Function.forall_update_iff ph fun _ p => p.Ready casing scope w).mpr
      ⟨fun _ _ _ same => Phase.noConfusion same, fun j _ => kept.clears j⟩

/-! ### Steps -/

theorem same_refl : SameRows w w where
  lake lake stored := ⟨lake, stored, rfl⟩
  files := rfl
  tags _ := rfl
  deletedAt _ := rfl
  writes := rfl
  orphans := rfl

theorem updateLake_same {matching : LakeDocument → Bool} {set : LakeDocument → LakeDocument}
    (unchanged : ∀ lake, lakeMembershipScope (set lake) = lakeMembershipScope lake) : SameRows w (w.updateLake matching set).2 := by
  unfold World.updateLake
  split
  · exact same_refl
  · rename_i lake stored
    split
    · exact { same_refl with lake := fun lake' held => ⟨lake, stored, Option.some.inj held ▸ unchanged lake⟩ }
    · exact same_refl

theorem markArchived_same {matching : StoredFile → FileState → Bool} {archivedAt : Option Time} :
    SameRows w (w.markArchived matching archivedAt) where
  lake lake stored := ⟨lake, stored, rfl⟩
  files := rfl
  tags id := by
    unfold World.markArchived
    dsimp only
    split
    · split <;> rfl
    · rfl
  deletedAt id := by
    unfold World.markArchived
    dsimp only
    split
    · split <;> rfl
    · rfl
  writes := rfl
  orphans := rfl

theorem quiet_same {op : Op} {uuid : String} (isQuiet : quiet op = true) : SameRows w (w.perform casing i uuid op).2 := by
  cases op with
  | claimArchiving | claimDeleting | claimUnarchiving | claimRestoring => exact updateLake_same fun _ => rfl
  | settleLifecycleStatus held set => exact updateLake_same fun _ => rfl
  | setFilesArchivedAtIfUnset | setFilesDeletedAtIfUnset => exact updateLake_same fun _ => rfl
  | unarchiveByDataLakeTag scope stampedAt =>
    exact @markArchived_same w (fun f s => archivedMember casing scope stampedAt (f.row s) s.toMarks) none
  | archiveByDataLakeTag scope stamp =>
    exact @markArchived_same w (fun f s => isMember casing scope (f.row s) && s.live && s.archivedAt == none)
      (some (stamp.getD w.now))
  | incrementCurrentStorage owner bytes => exact { same_refl with }
  | findById | listByLake _ | findFile _ | findArchivedByDataLakeTag _ _ | findByContentHashesInDataLake _ _
  | hasArchivedMemberExclusiveToDataLakeTag _ | findUndeleted _ | findDeletedByDataLakeTag _ _ | newDate | aside _ =>
    exact same_refl
  | pushTagReturningPriorState _ _ | pullTagsByFabFileId _ _ | deleteManyInIds _ | softDeleteRow _ _ | undeleteRow _ _ _ _
  | recordLakeMembershipChange _ _ => cases isQuiet

theorem Kept.stays (kept : Kept casing scope w₀ w ph) : Kept casing scope w₀ w (Function.update ph i (ph i)) := by
  rwa [Function.update_eq_self]

theorem Kept.gaveUp (kept : Kept casing scope w₀ w ph)
    (settled : ∀ write ∈ w.writes, write.thread = i → write.recorded = write.expected casing scope) :
    Kept casing scope w₀ w (Function.update ph i .closed) := by
  have nothing : (ph i).owed = [] := by
    cases owing : (ph i).owed with
    | nil => rfl
    | cons id rest =>
      obtain ⟨write, member, thread, _, owes⟩ := kept.owed i id (by rw [owing]; exact List.mem_cons_self)
      have recorded := settled write member thread
      rw [owes.unrecorded, owes.expected] at recorded
      cases recorded
  have carries : Carries (ph i) .closed := by
    refine ⟨(fun _ held => by cases held), fun _ may => may.elim, fun id listed => ?_⟩
    rw [nothing] at listed
    cases listed
  exact kept.moved (Or.inl carries) (fun _ held => by cases held) (fun _ listed => (List.not_mem_nil listed).elim)
    List.nodup_nil fun _ _ _ same => Phase.noConfusion same

theorem satisfies_live {f : StoredFile} {s : FileState} (live : s.live = true) (lake : LakeDocument)
    (same : lakeMembershipScope lake = scope) :
    satisfiesMembershipScope casing lake.membership.scope (some (f.signals s)) = liveMember casing scope f s := by
  rw [satisfies_eq, liveMember, live, Bool.and_true, isMember_row, ← same]
  rfl

theorem prefixArmTagNames_carried {names names' : List String} {raw : Option String} {name : String}
    (under : name ∈ prefixArmTagNames casing names raw) (carried : name ∈ names') : name ∈ prefixArmTagNames casing names' raw := by
  unfold prefixArmTagNames at under ⊢
  split at under
  · cases under
  split at under
  · cases under
  · rename_i kept
    rw [if_neg kept]
    exact List.mem_filter.mpr ⟨carried, (List.mem_filter.mp under).2⟩

theorem pulled_signal {lake : MembershipLake} {file file' : SignalSourceFile} (owner : file'.userId = file.userId) {name : String}
    (listed : name ∈ (lakeMembershipSignals casing lake (some file)).tagsToPull) (carried : name ∈ file'.tagNames) :
    member casing lake.scope file' = true := by
  rcases List.mem_cons.mp listed with tagged | content
  · subst tagged
    exact Bool.or_eq_true_iff.mpr (Or.inl (List.contains_iff_mem.mpr carried))
  refine Bool.or_eq_true_iff.mpr (Or.inr ?_)
  have prefixed := (List.mem_filter.mp content).1
  split at prefixed
  · rename_i owns
    have anchored : (!lake.scope.unanchored && lake.scope.admits file.userId) = true := owner_anchored ▸ owns
    rw [underPrefix_eq, owner, anchored, Bool.true_and]
    have under := prefixArmTagNames_carried prefixed carried
    show (!(prefixArmTagNames casing file'.tagNames lake.fileTagPrefix).isEmpty) = true
    simp [List.ne_nil_of_mem under]
  · cases prefixed

theorem signals_clear {toLowerCase : String → String} {lake : LakeDocument} (same : lakeMembershipScope lake = scope)
    {f : StoredFile} {s : FileState} : Clears (runtimeCasing toLowerCase) scope f s
      (lakeMembershipSignals (runtimeCasing toLowerCase) lake.membership (some (f.signals s))).tagsToPull where
  metaTag := by
    rw [← same]
    exact List.mem_cons_self
  clears := by
    rw [← same]
    exact pulled_leaves
  signals s' carried := by
    rw [← same]
    obtain ⟨name, stored, listed⟩ := List.any_eq_true.mp carried
    have owner : (f.signals s').userId = (f.signals s).userId := rfl
    exact pulled_signal owner (List.contains_iff_mem.mp listed) stored

theorem pushed_names {f : StoredFile} {s : FileState} {tagName name : String} :
    name ∈ (f.signals (s.pushed tagName)).tagNames ↔ name ∈ (f.signals s).tagNames ∨ name = tagName := by
  unfold FileState.pushed StoredFile.signals SignalSourceFile.tagNames
  simp

theorem pushed_member {f : StoredFile} {s : FileState} : member casing scope.owned (f.signals (s.pushed scope.datalakeTag)) = true :=
  Bool.or_eq_true_iff.mpr (Or.inl (List.contains_iff_mem.mpr (pushed_names.mpr (Or.inr rfl))))

theorem executed_cases {op : Op} {draw : Draw} {reply : Except LakeError op.Value}
    (executed : (membershipSemantics casing).exec i w op draw = some (reply, w')) :
    (∃ e, reply = .error e ∧ w' = w ∧ draw.rejects = true) ∨
      ∃ value, reply = .ok value ∧ w.perform casing i draw.uuid op = (value, w') := by
  simp only [membershipSemantics] at executed
  split at executed
  · rename_i rejected
    cases executed
    exact Or.inl ⟨_, rfl, rfl, (Bool.and_eq_true_iff.mp rejected).1⟩
  · cases executed
    exact Or.inr ⟨_, rfl, rfl⟩

theorem carries_opened {p : Phase} {lake : LakeDocument} {action : MembershipAction} {left : List String}
    (holds : p.lake? = some lake) (writes : ∀ id ∈ left, p.mayWrite id) (settled : p.owed = []) :
    Carries p (.moving lake action left []) where
  inScope lake' held := holds.trans held
  writes := writes
  owed id listed := by
    rw [settled] at listed
    cases listed

theorem Kept.opened {lake : LakeDocument} {action : MembershipAction} {left : List String} (kept : Kept casing scope w₀ w ph)
    (carries : Carries (ph i) (.moving lake action left [])) (rows : left.Nodup) :
    Kept casing scope w₀ w (Function.update ph i (.moving lake action left [])) := by
  refine kept.moved (Or.inl carries) (fun lake' held => kept.phases i lake' (carries.inScope lake' held))
    (fun _ listed => (List.not_mem_nil listed).elim) ?_ fun _ _ _ same => Phase.noConfusion same
  show (left ++ []).Nodup
  rwa [List.append_nil]

theorem Kept.wroteOnce {f : StoredFile} {set : FileState → FileState} {lake : LakeDocument} {action : MembershipAction} {moved : Bool}
    (kept : Kept casing scope w₀ w ph) (stored : f ∈ w.files.files) (holds : (ph i).lake? = some lake)
    (allowed : (ph i).mayWrite f.id) (settled : (ph i).owed = [])
    (names : ∀ name ∈ (f.signals (set (w.states f.id))).tagNames,
      name ∈ (f.signals (w.states f.id)).tagNames ∨ name = scope.datalakeTag)
    (event : Write.expected casing scope { thread := i, file := f, before := w.states f.id, after := set (w.states f.id) } =
      if moved then [action] else []) :
    Kept casing scope w₀ (w.write i f set) (Function.update ph i (.moving lake action [] (if moved then [f.id] else []))) := by
  have carries : Carries (ph i) (.moving lake action [] (if moved then [f.id] else [])) := by
    refine ⟨fun lake' held => holds.trans held, (fun _ may => nomatch may), fun id listed => ?_⟩
    rw [settled] at listed
    cases listed
  refine kept.wrote stored carries allowed List.not_mem_nil names ?_ ?_ ?_ fun _ _ _ same => Phase.noConfusion same
  · rw [event]
    cases moved <;> simp [Phase.owed, Phase.action]
  · intro id listed
    cases moved with
    | false => cases listed
    | true => exact Or.inr (List.mem_singleton.mp listed)
  · cases moved <;> simp [Phase.rows]

section Operations
variable {uuid : String}

/-- A join that goes through: the row was live, and carries the meta-tag from then on. -/
theorem Kept.joined {lake : LakeDocument} {id : String} {prior : Option SignalSourceFile} (kept : Kept casing scope w₀ w ph)
    (here : ph i = .held lake)
    (performed : w.perform casing i uuid (.pushTagReturningPriorState id lake.datalakeTag) = (prior, w')) :
    Kept casing scope w₀ w' (Function.update ph i (Membership.joined casing lake id prior)) := by
  have same : lakeMembershipScope lake = scope := kept.phases i lake (by rw [here]; rfl)
  have holds : (ph i).lake? = some lake := by rw [here]; rfl
  have settled : (ph i).owed = [] := by rw [here]; rfl
  have nothing : Kept casing scope w₀ w (Function.update ph i (Membership.joined casing lake id none)) :=
    kept.opened (carries_opened holds (fun _ listed => nomatch listed) settled) List.nodup_nil
  unfold World.perform at performed
  dsimp only at performed
  split at performed
  · cases performed
    exact nothing
  rcases @World.updateRow_cases w i id (fun f s => s.live && !(f.signals s).tagNames.contains lake.datalakeTag)
    (·.pushed lake.datalakeTag) with missed | ⟨f, found, matched, moved⟩
  · rw [missed] at performed
    cases performed
    exact nothing
  rw [moved] at performed
  cases performed
  obtain ⟨stored, own⟩ := World.get?_some found
  subst own
  have live : (w.states f.id).live = true := (Bool.and_eq_true_iff.mp matched).1
  have tag : lake.datalakeTag = scope.datalakeTag := by rw [← same]; rfl
  rw [found]
  refine kept.wroteOnce stored holds (by rw [here]; trivial) settled (fun name carried => ?_) ?_
  · exact (pushed_names.mp carried).imp_right fun tagged => tagged.trans tag
  have after : liveMember casing scope f ((w.states f.id).pushed lake.datalakeTag) = true := by
    rw [tag]
    exact Bool.and_eq_true_iff.mpr ⟨pushed_member, live⟩
  show _ = if (!satisfiesMembershipScope casing lake.membership.scope (some (f.signals (w.states f.id)))) = true then _ else _
  rw [satisfies_live live lake same]
  cases before : liveMember casing scope f (w.states f.id) with
  | false => exact expected_added before after
  | true => exact expected_same (before.trans after.symm)

/-- A removal that goes through: the row was a live member, and carries no signal from then on. -/
theorem Kept.pulled {lake : LakeDocument} {id : String} {tagNames : List String} {count : Nat} {draw : Draw}
    (kept : Kept casing scope w₀ w ph) (here : ph i = .pulling lake id tagNames)
    (lands : LandsOnMember casing scope i w (.pullTagsByFabFileId id tagNames) draw)
    (performed : w.perform casing i uuid (.pullTagsByFabFileId id tagNames) = (count, w')) :
    Kept casing scope w₀ w' (Function.update ph i (.moving lake .removed [] (if decide (0 < count) then [id] else []))) := by
  have holds : (ph i).lake? = some lake := by rw [here]; rfl
  have settled : (ph i).owed = [] := by rw [here]; rfl
  have nothing : Kept casing scope w₀ w (Function.update ph i (.moving lake .removed [] [])) :=
    kept.opened (carries_opened holds (fun _ listed => nomatch listed) settled) List.nodup_nil
  unfold World.perform at performed
  dsimp only at performed
  split at performed
  · cases performed
    exact nothing
  rename_i file found'
  rcases @World.updateRow_cases w i id (fun f s => (f.signals s).tagNames.any tagNames.contains) (·.pulled file tagNames) with
    missed | ⟨f, found, matched, moved⟩
  · rw [missed] at performed
    cases performed
    exact nothing
  rw [moved] at performed
  cases performed
  have same : f = file := Option.some.inj (found.symm.trans found')
  subst same
  obtain ⟨stored, own⟩ := World.get?_some found
  subst own
  have clears := kept.clears i lake f.id tagNames here f stored rfl
  have live : (w.states f.id).live = true := by
    have landed := (Bool.and_eq_true_iff.mp lands).2
    dsimp only at landed
    rw [found, Option.all_some, matched, Bool.not_true, Bool.or_false] at landed
    exact landed
  refine kept.wroteOnce stored holds (by rw [here]; rfl) settled (fun name carried => ?_) ?_
  · exact Or.inl (mem_tagNames_pull.mp (show name ∈ ((f.signals (w.states f.id)).pull tagNames).tagNames from carried)).1
  have before : liveMember casing scope f (w.states f.id) = true :=
    Bool.and_eq_true_iff.mpr ⟨clears.signals _ matched, live⟩
  have after : liveMember casing scope f ((w.states f.id).pulled f tagNames) = false :=
    Bool.and_eq_false_iff.mpr (Or.inl clears.clears)
  exact expected_removed before after

theorem carries_next {lake : LakeDocument} {action : MembershipAction} {id : String} {left owed extra : List String} :
    Carries (.moving lake action (id :: left) owed) (.moving lake action left (owed ++ extra)) where
  inScope _ held := held
  writes _ may := List.mem_cons_of_mem _ may
  owed _ listed := ⟨List.mem_append_left _ listed, rfl⟩

theorem Kept.skipped {lake : LakeDocument} {action : MembershipAction} {id : String} {left owed : List String}
    (kept : Kept casing scope w₀ w ph) (here : ph i = .moving lake action (id :: left) owed) :
    Kept casing scope w₀ w (Function.update ph i (.moving lake action left (owed ++ []))) := by
  have rows : (id :: (left ++ owed)).Nodup := by
    have rows := kept.rows i
    rwa [here] at rows
  rw [List.append_nil]
  refine kept.moved (Or.inl ?_) (fun lake' held => kept.phases i lake' (by rw [here]; exact held)) ?_ rows.of_cons
    fun _ _ _ same => Phase.noConfusion same
  · rw [here]
    exact ⟨fun _ held => held, fun _ may => List.mem_cons_of_mem _ may, fun _ listed => ⟨listed, rfl⟩⟩
  · rw [here]
    exact fun _ listed => listed

theorem Kept.swept {f : StoredFile} {set : FileState → FileState} {lake : LakeDocument} {action : MembershipAction}
    {left owed : List String} (kept : Kept casing scope w₀ w ph) (here : ph i = .moving lake action (f.id :: left) owed)
    (stored : f ∈ w.files.files) (names : (set (w.states f.id)).tags = (w.states f.id).tags)
    (event : Write.expected casing scope { thread := i, file := f, before := w.states f.id, after := set (w.states f.id) } =
      [action]) :
    Kept casing scope w₀ (w.write i f set) (Function.update ph i (.moving lake action left (owed ++ [f.id]))) := by
  have rows : (f.id :: (left ++ owed)).Nodup := by
    have rows := kept.rows i
    rwa [here] at rows
  obtain ⟨fresh, rest⟩ := List.nodup_cons.mp rows
  refine kept.wrote stored (by rw [here]; exact carries_next) (by rw [here]; exact List.mem_cons_self)
    (fun may => fresh (List.mem_append_left _ may)) (fun name carried => Or.inl ?_) ?_ ?_ ?_ fun _ _ _ same => Phase.noConfusion same
  · unfold StoredFile.signals at carried ⊢
    rwa [names] at carried
  · have listed : f.id ∈ (Phase.moving lake action left (owed ++ [f.id])).owed := List.mem_append_right _ List.mem_cons_self
    rw [event, if_pos listed]
    rfl
  · rw [here]
    intro id listed
    exact (List.mem_append.mp listed).imp_right List.mem_singleton.mp
  · show (left ++ (owed ++ [f.id])).Nodup
    rw [← List.append_assoc]
    exact List.Nodup.append rest (List.nodup_singleton _) (List.disjoint_singleton.mpr fresh)

theorem Kept.softDeleted {lake : LakeDocument} {id : String} {stamp : Time} {left owed : List String} {flipped : Bool} {draw : Draw}
    (kept : Kept casing scope w₀ w ph) (here : ph i = .moving lake .removed (id :: left) owed)
    (lands : LandsOnMember casing scope i w (.softDeleteRow id stamp) draw)
    (performed : w.perform casing i uuid (.softDeleteRow id stamp) = (flipped, w')) :
    Kept casing scope w₀ w' (Function.update ph i (.moving lake .removed left (owed ++ if flipped then [id] else []))) := by
  unfold World.perform at performed
  dsimp only at performed
  rcases @World.softDelete_cases w i id stamp with missed | ⟨f, found, live, moved⟩
  · rw [missed] at performed
    cases performed
    exact kept.skipped here
  rw [moved] at performed
  cases performed
  obtain ⟨stored, own⟩ := World.get?_some found
  subst own
  have held : isMember casing scope (f.row (w.states f.id)) = true := by
    have landed := (Bool.and_eq_true_iff.mp lands).2
    dsimp only at landed
    rw [found, Option.all_some, live, Bool.not_true, Bool.false_or] at landed
    exact landed
  have before : liveMember casing scope f (w.states f.id) = true := Bool.and_eq_true_iff.mpr ⟨held, live⟩
  have after : liveMember casing scope f { w.states f.id with deletedAt := some stamp } = false :=
    Bool.and_eq_false_iff.mpr (Or.inr rfl)
  exact kept.swept here stored rfl (expected_removed before after)

theorem Kept.undeleted {lake : LakeDocument} {id : String} {stampedAt archiveStampToClear : Option Time} {left owed : List String}
    {moved : Bool} (kept : Kept casing scope w₀ w ph) (here : ph i = .moving lake .added (id :: left) owed)
    (performed : w.perform casing i uuid (.undeleteRow (lakeMembershipScope lake) stampedAt archiveStampToClear id) = (moved, w')) :
    Kept casing scope w₀ w' (Function.update ph i (.moving lake .added left (owed ++ if moved then [id] else []))) := by
  have same : lakeMembershipScope lake = scope := kept.phases i lake (by rw [here]; rfl)
  unfold World.perform at performed
  dsimp only at performed
  rcases @World.updateRow_cases w i id (fun f s => deletedMember casing (lakeMembershipScope lake) stampedAt (f.row s) s.toMarks)
    (·.undeleted archiveStampToClear) with missed | ⟨f, found, matched, written⟩
  · rw [missed] at performed
    cases performed
    exact kept.skipped here
  rw [written] at performed
  cases performed
  obtain ⟨stored, own⟩ := World.get?_some found
  subst own
  obtain ⟨held, stamped⟩ := Bool.and_eq_true_iff.mp matched
  rw [same] at held
  have before : liveMember casing scope f (w.states f.id) = false := by
    refine Bool.and_eq_false_iff.mpr (Or.inr ?_)
    cases mark : (w.states f.id).deletedAt with
    | none =>
      rw [mark, stampedWith_none] at stamped
      cases stamped
    | some at_ =>
      unfold FileState.live
      rw [mark]
      rfl
  have after : liveMember casing scope f ((w.states f.id).undeleted archiveStampToClear) = true :=
    Bool.and_eq_true_iff.mpr ⟨held, rfl⟩
  exact kept.swept here stored rfl (expected_added before after)

theorem Kept.loads {toLowerCase : String → String} {lake : LakeDocument} {id : String} {file : Option SignalSourceFile}
    (kept : Kept (runtimeCasing toLowerCase) scope w₀ w ph) (here : ph i = .held lake)
    (inLake : (lakeMembershipSignals (runtimeCasing toLowerCase) lake.membership file).inLake = true)
    (performed : w.perform (runtimeCasing toLowerCase) i uuid (.findFile id) = (file, w')) :
    Kept (runtimeCasing toLowerCase) scope w₀ w' (Function.update ph i
      (.pulling lake id (lakeMembershipSignals (runtimeCasing toLowerCase) lake.membership file).tagsToPull)) := by
  have same : lakeMembershipScope lake = scope := kept.phases i lake (by rw [here]; rfl)
  obtain ⟨found, rfl⟩ := Prod.mk.inj performed
  refine kept.moved (Or.inl ?_) (fun lake' held => kept.phases i lake' (by rw [here]; exact held))
    (fun _ listed => (List.not_mem_nil listed).elim) List.nodup_nil ?_
  · rw [here]
    exact ⟨fun _ held => held, fun _ _ => trivial, fun _ listed => (List.not_mem_nil listed).elim⟩
  intro lake' id' tagNames phase f stored own
  obtain ⟨rfl, rfl, rfl⟩ := Phase.pulling.inj phase
  rw [← own, World.get?_of_mem stored] at found
  subst own
  cases live : (w.states f.id).live with
  | false =>
    rw [Option.filter_some, live] at found
    rw [← found] at inLake
    cases inLake
  | true =>
    rw [Option.filter_some, live] at found
    rw [← found]
    exact signals_clear same

theorem find_ids {matching : StoredFile → FileState → Bool} : ((w.find matching).map (·.id)).Nodup :=
  w.files.distinct.sublist (List.filter_sublist.map _)

theorem lands_settled {op : Op} {draw : Draw} (lands : LandsOnMember casing scope i w op draw) (rejects : draw.rejects = true) :
    ∀ write ∈ w.writes, write.thread = i → write.recorded = write.expected casing scope := by
  intro write member thread
  have landed := (Bool.and_eq_true_iff.mp lands).1
  rw [rejects, Bool.not_true, Bool.false_or, List.all_eq_true] at landed
  have settled := landed write member
  rw [thread] at settled
  simpa using settled

end Operations

/-- Each operation that meets the condition keeps every event in step with its write. -/
theorem kept_preserved {toLowerCase : String → String} : Preserves (membershipSemantics (runtimeCasing toLowerCase))
    (Moves (runtimeCasing toLowerCase)) (LandsOnMember (runtimeCasing toLowerCase) scope)
    (Kept (runtimeCasing toLowerCase) scope w₀) where
  env kept moved := by
    obtain ⟨_, same⟩ := Option.ite_none_right_eq_some.mp moved
    rw [← Option.some.inj same]
    exact kept.same { same_refl with }
  step {i w op draw reply w' ph q} kept lands executed permitted := by
    generalize here : ph i = p at permitted
    rcases executed_cases executed with ⟨e, rfl, rfl, rejects⟩ | ⟨value, rfl, performed⟩
    · cases permitted with
      | failed => exact kept.gaveUp (lands_settled lands rejects)
      | rejected _ =>
        subst here
        exact kept.stays
    have after : (w.perform (runtimeCasing toLowerCase) i draw.uuid op).2 = w' := by rw [performed]
    cases permitted with
    | quiet isQuiet =>
      subst here
      rw [← after]
      exact (kept.same (quiet_same isQuiet)).stays
    | read =>
      obtain ⟨stored, rfl⟩ := Prod.mk.inj performed
      exact kept.moved (Or.inr ⟨here, rfl⟩) (fun lake held => kept.lake lake (stored.trans held)) (fun _ listed => (List.not_mem_nil listed).elim)
        List.nodup_nil fun _ _ _ same => Phase.noConfusion same
    | joined => exact kept.joined here performed
    | loaded inLake => exact kept.loads here inLake performed
    | pulled => exact kept.pulled here lands performed
    | listed =>
      cases performed
      exact kept.opened (by rw [here]; exact carries_opened rfl (fun _ _ => trivial) rfl) find_ids
    | swept => exact kept.softDeleted here lands performed
    | candidates chosen =>
      cases performed
      exact kept.opened (by rw [here]; exact carries_opened rfl (fun _ _ => trivial) rfl) (find_ids.sublist (chosen.map _))
    | undeleted => exact kept.undeleted here performed
    | recorded =>
      rw [← after]
      exact kept.record here

end Steps

/-! ### Whole runs -/

abbrev MembershipConfig := Config Nat World Op Op.Value LakeError Unit

def start (casing : Casing) (w₀ : World) (calls : List MembershipCall) : MembershipConfig where
  store := w₀
  threads i := (calls[i]?).elim (.pure ()) (·.program casing)

structure Started (scope : MembershipScope) (w₀ : World) (calls : List MembershipCall) : Prop where
  lake : ∀ lake, w₀.lake = some lake → lakeMembershipScope lake = scope
  handed : ∀ call ∈ calls, ∀ lake, call.lake? = some lake → lakeMembershipScope lake = scope
  writes : w₀.writes = []
  orphans : w₀.orphans = []

/-- No call that wrote the file has an event of it left to record. -/
def Told (c : MembershipConfig) (fabFileId : String) : Prop :=
  ∀ write ∈ c.store.writes, write.file.id = fabFileId →
    Only (fun op => ∀ action, op ≠ .recordLakeMembershipChange fabFileId action) (c.threads write.thread)

theorem owed_told {program : Async Unit} {p : Phase} {fabFileId : String}
    (follows : Follows (Moves casing) (Leaves fun _ q => q.owed = []) program p)
    (only : Only (fun op => ∀ action, op ≠ .recordLakeMembershipChange fabFileId action) program) : fabFileId ∉ p.owed := by
  intro listed
  induction program generalizing p with
  | pure value =>
    have settled : p.owed = [] := follows
    rw [settled] at listed
    cases listed
  | throw e =>
    have settled : p.owed = [] := follows
    rw [settled] at listed
    cases listed
  | await op next ih =>
    obtain ⟨value⟩ := op.answered
    obtain ⟨q, permitted, rest⟩ := follows (.ok value)
    refine ih _ rest (only.2 _) ?_
    cases permitted with
    | quiet _ => exact listed
    | read | joined | loaded _ | pulled | listed | candidates _ => exact (List.not_mem_nil listed).elim
    | swept => exact List.mem_append_left _ listed
    | undeleted => exact List.mem_append_left _ listed
    | recorded =>
      rcases List.mem_cons.mp listed with same | rest
      · exact (only.1 _ (by rw [same])).elim
      · exact rest

section Runs
variable {toLowerCase : String → String} {calls : List MembershipCall}

def firstPhase : MembershipCall → Phase
  | .addFileToLake _ lake _ _ => .held lake
  | .removeFileFromLake _ lake _ => .held lake
  | .deleteDataLake _ => .start
  | .restoreDeletedDataLake _ => .start

theorem call_follows (call : MembershipCall) :
    Follows (Moves casing) (Leaves fun _ q => q.owed = []) (call.program casing) (firstPhase call) := by
  cases call with
  | addFileToLake actor lake fabFileId cleared => exact add_follows
  | removeFileFromLake actor lake fabFileId => exact leaves_seq remove_follows fun _ _ settled => settled
  | deleteDataLake actor => exact delete_follows
  | restoreDeletedDataLake actor => exact leaves_seq restore_follows fun _ _ settled => settled

def firstPhases (calls : List MembershipCall) (i : Nat) : Phase := (calls[i]?).elim .closed firstPhase

/-- A phase in which nothing was written yet. -/
structure Untouched (p : Phase) : Prop where
  owed : p.owed = []
  rows : p.rows = []
  noPull : ∀ lake id tagNames, p ≠ .pulling lake id tagNames

theorem firstPhases_untouched (i : Nat) : Untouched (firstPhases calls i) := by
  unfold firstPhases
  cases calls[i]? with
  | none => exact ⟨rfl, rfl, fun _ _ _ same => Phase.noConfusion same⟩
  | some call => cases call <;> exact ⟨rfl, rfl, fun _ _ _ same => Phase.noConfusion same⟩

theorem firstPhases_inScope (started : Started scope w₀ calls) (i : Nat) : (firstPhases calls i).InScope scope := by
  intro lake held
  unfold firstPhases at held
  cases called : calls[i]? with
  | none =>
    rw [called] at held
    cases held
  | some call =>
    rw [called] at held
    refine started.handed call (List.mem_of_getElem? called) lake ?_
    cases call with
    | addFileToLake actor lake' fabFileId cleared => exact held
    | removeFileFromLake actor lake' fabFileId => exact held
    | deleteDataLake actor => cases held
    | restoreDeletedDataLake actor => cases held

theorem started_kept (started : Started scope w₀ calls) : Kept casing scope w₀ w₀ (firstPhases calls) where
  lake := started.lake
  phases := firstPhases_inScope started
  files := rfl
  chained f _ := by
    rw [started.writes]
    rfl
  written write member := by
    rw [started.writes] at member
    cases member
  once := by
    rw [started.writes]
    exact List.nodup_nil
  recorded write member := by
    rw [started.writes] at member
    cases member
  owed i id listed := by
    rw [(firstPhases_untouched i).owed] at listed
    cases listed
  rows i := by
    rw [(firstPhases_untouched i).rows]
    exact List.nodup_nil
  orphans := started.orphans
  clears i lake id tagNames phase := absurd phase ((firstPhases_untouched i).noPull lake id tagNames)

theorem started_tracked (started : Started scope w₀ calls) :
    Tracked (Moves casing) (Leaves fun _ q => q.owed = []) (Kept casing scope w₀) (start casing w₀ calls) := by
  refine ⟨firstPhases calls, started_kept started, fun i => ?_⟩
  unfold start firstPhases
  dsimp only
  cases calls[i]? with
  | none => exact rfl
  | some call => exact call_follows call

/-- In a run that meets the condition, the log of every file is in step with its writes as soon as the calls have told them. -/
theorem membership_log_balances {sched : List (Action Nat Draw Time)} (started : Started scope w₀ calls)
    (meets : (membershipSemantics (runtimeCasing toLowerCase)).Meets (LandsOnMember (runtimeCasing toLowerCase) scope)
      (start (runtimeCasing toLowerCase) w₀ calls) sched) :
    (membershipSemantics (runtimeCasing toLowerCase)).Always
      (fun c => ∀ file ∈ w₀.files.files, Told c file.id → Balanced (runtimeCasing toLowerCase) scope w₀ c.store file)
      (start (runtimeCasing toLowerCase) w₀ calls) sched := by
  refine Semantics.always_iff.mpr fun before after mid split ran file stored told => ?_
  subst split
  obtain ⟨ph, kept, follows⟩ := run_invariant kept_preserved (started_tracked started) ((Semantics.meets_append ran).mp meets).1 ran
  refine balanced_of_caused (kept.chained file (kept.files ▸ stored)) (fun write member own => ?_) kept.orphans
  refine (kept.recorded write member).resolve_right fun owes => ?_
  exact owed_told (follows write.thread) (told write member own) (own ▸ owes.listed)

end Runs
end Invariant

/-! ### A removal inside a delete -/

namespace Crossing

def casing : Casing := runtimeCasing id

def report : StoredFile where
  id := "report"
  userId := "owner"

def docs : LakeDocument where
  id := ⟨"65f0000000000000000000aa", rfl⟩
  createdByUserId := "owner"
  status := .active
  datalakeTag := "datalake:docs"

def stored : World where
  lake := some docs
  files := ⟨[report], by decide⟩
  states _ := { tags := some [{ name := some "datalake:docs", strength := some 1 }] }

def owner : ManageActor := { userId := "owner" }

def calls : List MembershipCall := [.deleteDataLake owner, .removeFileFromLake owner docs "report"]

def steps (i n : Nat) : List (Action Nat Draw Time) := List.replicate n (.resume i {})

/-- The delete lists the file, the removal takes it out, and the delete soft-deletes it all the same. -/
def crossed : List (Action Nat Draw Time) := steps 0 7 ++ steps 1 6 ++ steps 0 7

/-- One call after the other. -/
def apart : List (Action Nat Draw Time) := steps 1 6 ++ steps 0 12

theorem stored_started : Started (lakeMembershipScope docs) stored calls where
  lake lake held := by
    cases held
    rfl
  handed call member lake held := by
    rcases List.mem_cons.mp member with rfl | rest
    · cases held
    · cases List.mem_singleton.mp rest
      cases held
      rfl
  writes := rfl
  orphans := rfl

/-- The file leaves once and the log says twice. -/
theorem departure_told_twice : Started (lakeMembershipScope docs) stored calls ∧
    ∃ c, (membershipSemantics casing).run (start casing stored calls) crossed = some c ∧ (∀ i < 2, (c.threads i).settled = true) ∧
      c.store.eventsOf "report" = [.removed, .removed] ∧
      ¬ Balanced casing (lakeMembershipScope docs) stored c.store report := by
  have ran : ((membershipSemantics casing).run (start casing stored calls) crossed).any (fun c =>
      (List.range 2).all (fun i => (c.threads i).settled) && c.store.eventsOf "report" == [.removed, .removed]) = true := by
    decide
  obtain ⟨c, run, ended⟩ := (Option.any_eq_true _ _).mp ran
  obtain ⟨settled, events⟩ := Bool.and_eq_true_iff.mp ended
  have events : c.store.eventsOf "report" = [.removed, .removed] := beq_iff_eq.mp events
  refine ⟨stored_started, c, run, fun i small => List.all_eq_true.mp settled i (List.mem_range.mpr small), events, fun balanced => ?_⟩
  have alternates := balanced.alternates
  rw [show c.store.eventsOf report.id = [.removed, .removed] from events] at alternates
  exact absurd alternates (by decide)

theorem apart_balances : ((membershipSemantics casing).run (start casing stored calls) apart).isSome = true ∧
    (membershipSemantics casing).Always
      (fun c => ∀ file ∈ stored.files.files, Told c file.id → Balanced casing (lakeMembershipScope docs) stored c.store file)
      (start casing stored calls) apart :=
  ⟨by decide, membership_log_balances stored_started (by decide)⟩

end Crossing

end Membership
end Bike4Mind.DataLakes.Books
