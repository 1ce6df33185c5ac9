import Bike4Mind.MembershipDiff.Diff

/-! True histories of a lake: who was a member when, and what the log holds of it. -/

namespace Bike4Mind.MembershipDiff

/-- Events that turn membership on and off in turn, from a state of membership on. -/
def Alternates : Bool → List LakeMembershipChangeEvent → Prop
  | _, [] => True
  | member, e :: later => e.action = (if member then .removed else .added) ∧ Alternates (!member) later

/-- Membership once the events have happened. -/
def memberAfter (member : Bool) (events : List LakeMembershipChangeEvent) : Bool :=
  events.foldl (fun _ e => decide (e.action = .added)) member

structure FileLife where
  id : String
  birth : Instant
  /-- The upload put the file into the lake, without an event. -/
  joinedAtBirth : Bool

/-- All that happened in one lake up to `now`. -/
structure LakeHistory (now : Instant) where
  files : List FileLife
  /-- The log in its order, by time and then by id. -/
  log : List LakeMembershipChangeEvent
  distinct : (files.map (·.id)).Nodup
  inOrder : log.Pairwise fun a b => a.createdAt < b.createdAt ∨ a.createdAt = b.createdAt ∧ a.id < b.id
  owned : ∀ e ∈ log, e.fabFileId ∈ files.map (·.id)
  born : ∀ f ∈ files, f.birth ≤ now
  past_ : ∀ e ∈ log, e.createdAt ≤ now
  afterBirth : ∀ f ∈ files, ∀ e ∈ log, e.fabFileId = f.id → f.birth ≤ e.createdAt
  alternates : ∀ f ∈ files, Alternates f.joinedAtBirth (log.filter (·.fabFileId = f.id))

namespace LakeHistory
variable {now : Instant} (h : LakeHistory now)

def eventsOf (f : FileLife) : List LakeMembershipChangeEvent := h.log.filter (·.fabFileId = f.id)

/-- The file had been born and was in the lake. -/
def memberAt (f : FileLife) (at_ : Instant) : Bool :=
  decide (f.birth ≤ at_) && memberAfter f.joinedAtBirth ((h.eventsOf f).filter (·.createdAt ≤ at_))

/-- An event of the file within the window. -/
def movedWithin (f : FileLife) (from_ to_ : Instant) : Bool := (h.eventsOf f).any fun e => decide (from_ < e.createdAt) && decide (e.createdAt ≤ to_)

/-- The first event of the file after an instant. -/
def firstAfter (f : FileLife) (from_ : Instant) : Option LakeMembershipChangeEvent := (h.eventsOf f).find? (from_ < ·.createdAt)

/-- What the repositories return now. -/
def reads : Reads where
  listByLakeSince := fun since limit => ((h.log.filter (since < ·.createdAt)).reverse).take limit
  oldestEventAt := h.log.head?.map (·.createdAt)
  liveMembers := (h.files.filter (h.memberAt · now)).map fun f => ⟨f.id, f.birth⟩

end LakeHistory

/-! ### Alternation -/

section Alternation
variable {member : Bool} {before later : List LakeMembershipChangeEvent}

theorem memberAfter_append : memberAfter member (before ++ later) = memberAfter (memberAfter member before) later := List.foldl_append

theorem alternates_append : Alternates member (before ++ later) ↔ Alternates member before ∧ Alternates (memberAfter member before) later := by
  induction before generalizing member with
  | nil => simp [Alternates, memberAfter]
  | cons e rest ih =>
    rw [List.cons_append, Alternates, Alternates, ih, and_assoc]
    refine and_congr_right fun action => ?_
    have turned : memberAfter member (e :: rest) = memberAfter (!member) rest := by
      unfold memberAfter
      rw [List.foldl_cons, action]
      cases member <;> rfl
    rw [turned]

theorem alternates_head {e : LakeMembershipChangeEvent} (alternates : Alternates member later) (first : later.head? = some e) :
    member = decide (e.action = .removed) := by
  cases later with
  | nil => cases first
  | cons _ _ =>
    cases first
    rw [alternates.1]
    cases member <;> rfl

end Alternation

/-! ### The events of a file, cut by time -/

namespace LakeHistory
variable {now : Instant} {h : LakeHistory now} {f : FileLife} {from_ to_ : Instant}

theorem eventsOf_inOrder : (h.eventsOf f).Pairwise fun a b => a.createdAt ≤ b.createdAt := by
  refine (h.inOrder.filter _).imp fun order => ?_
  rcases order with earlier | ⟨same, _⟩
  · exact earlier.le
  · exact same.le

theorem cut (events : List LakeMembershipChangeEvent) (order : events.Pairwise fun a b => a.createdAt ≤ b.createdAt) (at_ : Instant) :
    events = events.filter (·.createdAt ≤ at_) ++ events.filter (at_ < ·.createdAt) := by
  induction events with
  | nil => rfl
  | cons e rest ih =>
    obtain ⟨first, order⟩ := List.pairwise_cons.mp order
    have tail := ih order
    by_cases early : e.createdAt ≤ at_
    · rw [List.filter_cons_of_pos (by simpa using early), List.filter_cons_of_neg (by simpa using early), List.cons_append, ← tail]
    · have late : at_ < e.createdAt := lt_of_not_ge early
      have none : rest.filter (·.createdAt ≤ at_) = [] := by
        rw [List.filter_eq_nil_iff]
        intro other listed
        have after := first other listed
        simpa using late.trans_le after
      rw [none] at tail
      rw [List.filter_cons_of_neg (by simpa using late), List.filter_cons_of_pos (by simpa using late), none, List.nil_append, ← List.nil_append (rest.filter _), ← tail]

end LakeHistory

end Bike4Mind.MembershipDiff
