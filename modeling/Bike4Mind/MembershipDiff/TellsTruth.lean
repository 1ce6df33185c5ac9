import Bike4Mind.MembershipDiff.Windows

/-! Against a true history, the diff is right about every file whose birth it can know or does not need. -/

namespace Bike4Mind.MembershipDiff
open Collections

namespace LakeHistory
variable {now : Instant} {h : LakeHistory now} {f : FileLife} {from_ to_ : Instant}

/-! ### A file's life around the window -/

/-- Whether the log has the file as a member when the window begins. -/
def past (h : LakeHistory now) (f : FileLife) (from_ : Instant) : Bool :=
  memberAfter f.joinedAtBirth ((h.eventsOf f).filter (·.createdAt ≤ from_))

def inside (h : LakeHistory now) (f : FileLife) (from_ to_ : Instant) : List LakeMembershipChangeEvent :=
  (h.eventsOf f).filter fun e => from_ < e.createdAt ∧ e.createdAt ≤ to_

def afterwards (h : LakeHistory now) (f : FileLife) (to_ : Instant) : List LakeMembershipChangeEvent :=
  (h.eventsOf f).filter (to_ < ·.createdAt)

theorem eventsOf_mem {e : LakeMembershipChangeEvent} (listed : e ∈ h.eventsOf f) : e ∈ h.log ∧ e.fabFileId = f.id :=
  ⟨(List.mem_filter.mp listed).1, of_decide_eq_true (List.mem_filter.mp listed).2⟩

theorem until_to (ordered : from_ ≤ to_) : (h.eventsOf f).filter (·.createdAt ≤ to_) =
    (h.eventsOf f).filter (·.createdAt ≤ from_) ++ h.inside f from_ to_ := by
  rw [cut ((h.eventsOf f).filter (·.createdAt ≤ to_)) (eventsOf_inOrder.filter _) from_, List.filter_filter, List.filter_filter]
  congr 1
  · apply List.filter_congr
    intro e _
    have bound : e.createdAt ≤ from_ → e.createdAt ≤ to_ := fun early => early.trans ordered
    by_cases early : e.createdAt ≤ from_
    · simp [early, bound early]
    · simp [early]
  · apply List.filter_congr
    intro e _
    exact (Bool.decide_and _ _).symm

theorem memberAt_from : h.memberAt f from_ = (decide (f.birth ≤ from_) && h.past f from_) := rfl

theorem memberAt_to (ordered : from_ ≤ to_) :
    h.memberAt f to_ = (decide (f.birth ≤ to_) && memberAfter (h.past f from_) (h.inside f from_ to_)) := by
  unfold memberAt past
  rw [until_to ordered, memberAfter_append]

theorem life (ordered : from_ ≤ to_) : h.eventsOf f =
    (h.eventsOf f).filter (·.createdAt ≤ from_) ++ (h.inside f from_ to_ ++ h.afterwards f to_) := by
  rw [← List.append_assoc, ← until_to ordered]
  exact cut _ eventsOf_inOrder to_

theorem memberAt_now (ordered : from_ ≤ to_) (listed : f ∈ h.files) :
    h.memberAt f now = memberAfter (memberAfter (h.past f from_) (h.inside f from_ to_)) (h.afterwards f to_) := by
  have all : (h.eventsOf f).filter (·.createdAt ≤ now) = h.eventsOf f :=
    List.filter_eq_self.mpr fun e there => decide_eq_true (h.past_ e (eventsOf_mem there).1)
  unfold memberAt
  rw [all, decide_eq_true (h.born f listed), Bool.true_and]
  conv_lhs => rw [life ordered, memberAfter_append, memberAfter_append]
  rfl

theorem inside_alternates (ordered : from_ ≤ to_) (listed : f ∈ h.files) : Alternates (h.past f from_) (h.inside f from_ to_) ∧
    Alternates (memberAfter (h.past f from_) (h.inside f from_ to_)) (h.afterwards f to_) := by
  have turns := h.alternates f listed
  change Alternates _ (h.eventsOf f) at turns
  rw [life ordered, alternates_append, alternates_append] at turns
  exact turns.2

theorem movedWithin_iff : h.movedWithin f from_ to_ = true ↔ h.inside f from_ to_ ≠ [] := by
  unfold movedWithin inside
  rw [List.any_eq_true, ne_eq, List.filter_eq_nil_iff]
  simp

theorem moved_born (listed : f ∈ h.files) (moved : h.inside f from_ to_ ≠ []) : f.birth ≤ to_ := by
  obtain ⟨e, there⟩ := List.exists_mem_of_ne_nil _ moved
  obtain ⟨own, within⟩ := List.mem_filter.mp there
  obtain ⟨logged, named⟩ := eventsOf_mem own
  exact (h.afterBirth f listed e logged named).trans (of_decide_eq_true within).2

/-! ### What the reads show of it -/

def shownEvents (h : LakeHistory now) (from_ : Instant) : List LakeMembershipChangeEvent := h.log.filter (from_ < ·.createdAt)

def shownBirths (h : LakeHistory now) : OrderedMap String Instant := bornAtOf h.reads.liveMembers

/-- The birth that the diff goes by. -/
def guess (h : LakeHistory now) (f : FileLife) : Instant := if h.memberAt f now then f.birth else 0

theorem shown_inside : (h.shownEvents from_).filter (fun e => e.fabFileId = f.id ∧ e.createdAt ≤ to_) = h.inside f from_ to_ := by
  unfold shownEvents inside eventsOf
  rw [List.filter_filter, List.filter_filter]
  apply List.filter_congr
  intro e _
  simp only [← Bool.decide_and, decide_eq_decide]
  tauto

theorem shown_afterwards (ordered : from_ ≤ to_) :
    (h.shownEvents from_).filter (fun e => e.fabFileId = f.id ∧ to_ < e.createdAt) = h.afterwards f to_ := by
  unfold shownEvents afterwards eventsOf
  rw [List.filter_filter, List.filter_filter]
  apply List.filter_congr
  intro e _
  simp only [← Bool.decide_and, decide_eq_decide]
  have late : to_ < e.createdAt → from_ < e.createdAt := ordered.trans_lt
  tauto

theorem shownBirths_get? {id : String} {birth : Instant} : h.shownBirths.get? id = some birth ↔
    ∃ f ∈ h.files, h.memberAt f now = true ∧ f.id = id ∧ f.birth = birth := by
  unfold shownBirths bornAtOf
  have distinct : (h.reads.liveMembers.map (·.id)).Nodup := by
    unfold reads
    rw [List.map_map]
    exact h.distinct.sublist (List.filter_sublist.map _)
  rw [OrderedMap.get?_foldl_set distinct]
  unfold reads
  constructor
  · rintro ⟨_, listed, same, held⟩
    obtain ⟨f, there, rfl⟩ := List.mem_map.mp listed
    obtain ⟨there, live⟩ := List.mem_filter.mp there
    exact ⟨f, there, live, same, held⟩
  · rintro ⟨f, there, live, same, held⟩
    exact ⟨_, List.mem_map.mpr ⟨f, List.mem_filter.mpr ⟨there, live⟩, rfl⟩, same, held⟩

theorem file_inj {g : FileLife} (here : f ∈ h.files) (there : g ∈ h.files) (same : f.id = g.id) : f = g :=
  List.inj_on_of_nodup_map h.distinct here there same

theorem shownBirths_file (listed : f ∈ h.files) : h.shownBirths.get? f.id = if h.memberAt f now then some f.birth else none := by
  apply Option.ext
  intro birth
  rw [shownBirths_get?]
  constructor
  · rintro ⟨g, there, live, same, rfl⟩
    cases file_inj there listed same
    rw [if_pos live]
  · intro held
    split at held
    · rename_i live
      exact ⟨f, listed, live, rfl, Option.some.inj held⟩
    · cases held

theorem bornOr_file (listed : f ∈ h.files) : bornOr h.shownBirths f.id = h.guess f := by
  unfold bornOr guess
  rw [shownBirths_file listed]
  split <;> rfl

/-! ### What the diff finds -/

def shownWindows (h : LakeHistory now) (from_ to_ : Instant) : OrderedMap String FileWindow :=
  windowsOf h.shownBirths from_ to_ (h.shownEvents from_)

def shownMembers (h : LakeHistory now) (from_ to_ : Instant) : List String := membersAtToOf h.shownBirths to_ (h.shownEvents from_)

theorem window_still (still : h.inside f from_ to_ = []) : (h.shownWindows from_ to_).get? f.id = none :=
  windowsOf_none (shown_inside.trans still)

theorem window_moved (ordered : from_ ≤ to_) (listed : f ∈ h.files) (moved : h.inside f from_ to_ ≠ []) :
    ∃ w, (h.shownWindows from_ to_).get? f.id = some w ∧ w.memberAtFrom = (h.past f from_ && decide (h.guess f ≤ from_)) ∧
      w.memberAtTo = memberAfter (h.past f from_) (h.inside f from_ to_) := by
  obtain ⟨first, rest, own⟩ := List.exists_cons_of_ne_nil moved
  obtain ⟨w, found, start, finish, _⟩ := windowsOf_some (shown_inside.trans own) (h.past f from_)
  have head : (h.inside f from_ to_).head? = some first := by rw [own]; rfl
  refine ⟨w, found, ?_, ?_⟩
  · rw [start, bornOr_file listed, ← alternates_head (inside_alternates ordered listed).1 head]
  · rw [finish, own]

theorem window_named {id : String} {w : FileWindow} (found : (h.shownWindows from_ to_).get? id = some w) : w.last.fabFileId = id := by
  cases own : (h.shownEvents from_).filter (fun e => e.fabFileId = id ∧ e.createdAt ≤ to_) with
  | nil => cases found.symm.trans (windowsOf_none own)
  | cons first rest =>
    obtain ⟨_, held, _, _, named⟩ := windowsOf_some own true
    cases found.symm.trans held
    exact named

theorem mem_entries {p : FileWindow → Bool} {id : String} :
    id ∈ (newestFirst (((h.shownWindows from_ to_).values.filter p).map toEntry)).map (·.fabFileId) ↔
      ∃ w, (h.shownWindows from_ to_).get? id = some w ∧ p w = true := by
  unfold newestFirst
  simp only [List.mem_map, List.mem_insertionSort, List.mem_filter, OrderedMap.values]
  constructor
  · rintro ⟨_, ⟨w, ⟨⟨⟨key, _⟩, entry, rfl⟩, passes⟩, rfl⟩, rfl⟩
    have found := OrderedMap.get?_of_mem entry
    exact ⟨_, (window_named found).symm ▸ found, passes⟩
  · rintro ⟨w, found, passes⟩
    exact ⟨_, ⟨w, ⟨⟨_, OrderedMap.mem_of_get? found, rfl⟩, passes⟩, rfl⟩, window_named found⟩

theorem mem_shownMembers (ordered : from_ ≤ to_) (listed : f ∈ h.files) : f.id ∈ h.shownMembers from_ to_ ↔
    memberAfter (h.past f from_) (h.inside f from_ to_) = true ∧ (h.memberAt f now = true → f.birth ≤ to_) := by
  unfold shownMembers
  rw [mem_membersAtToOf, shown_afterwards ordered, shownBirths_file listed]
  have live := memberAt_now ordered listed
  refine and_congr ?_ ?_
  · cases own : h.afterwards f to_ with
    | nil =>
      rw [own] at live
      change h.memberAt f now = memberAfter (h.past f from_) (h.inside f from_ to_) at live
      rw [List.head?_nil, Option.elim_none, OrderedMap.mem_keys_iff, shownBirths_file listed, ← live]
      cases h.memberAt f now <;> simp
    | cons e rest =>
      have head : (h.afterwards f to_).head? = some e := by rw [own]; rfl
      rw [List.head?_cons, Option.elim_some, alternates_head (inside_alternates ordered listed).2 head, decide_eq_true_eq]
  · cases h.memberAt f now <;> simp

theorem shownMembers_files {id : String} (member : id ∈ h.shownMembers from_ to_) : id ∈ h.files.map (·.id) := by
  unfold shownMembers at member
  rw [mem_membersAtToOf] at member
  obtain ⟨member, _⟩ := member
  cases own : ((h.shownEvents from_).filter fun e => e.fabFileId = id ∧ to_ < e.createdAt) with
  | nil =>
    rw [own] at member
    obtain ⟨birth, found⟩ := OrderedMap.mem_keys_iff.mp member
    obtain ⟨f, listed, _, same, _⟩ := shownBirths_get?.mp found
    exact List.mem_map.mpr ⟨f, listed, same⟩
  | cons e rest =>
    have there : e ∈ (h.shownEvents from_).filter fun e => e.fabFileId = id ∧ to_ < e.createdAt := own ▸ List.mem_cons_self
    obtain ⟨logged, mine⟩ := List.mem_filter.mp there
    rw [← (of_decide_eq_true mine).1]
    exact h.owned e (List.mem_filter.mp logged).1

theorem countP_members (p : String → Bool) : (h.shownMembers from_ to_).countP p =
    h.files.countP fun f => decide (f.id ∈ h.shownMembers from_ to_) && p f.id := by
  have same : (h.shownMembers from_ to_).Perm ((h.files.filter fun f => f.id ∈ h.shownMembers from_ to_).map (·.id)) := by
    refine (List.perm_ext_iff_of_nodup membersAtToOf_nodup (h.distinct.sublist (List.filter_sublist.map _))).mpr fun id => ?_
    constructor
    · intro member
      obtain ⟨f, listed, rfl⟩ := List.mem_map.mp (shownMembers_files member)
      exact List.mem_map.mpr ⟨f, List.mem_filter.mpr ⟨listed, decide_eq_true member⟩, rfl⟩
    · intro member
      obtain ⟨f, listed, rfl⟩ := List.mem_map.mp member
      exact of_decide_eq_true (List.mem_filter.mp listed).2
  rw [same.countP_eq, List.countP_map, List.countP_filter]
  exact List.countP_congr fun f _ => by simp [and_comm]

/-! ### File by file -/

theorem shown_added (ordered : from_ ≤ to_) (listed : f ∈ h.files) :
    f.id ∈ (newestFirst (((h.shownWindows from_ to_).values.filter fun w => !w.memberAtFrom && w.memberAtTo).map toEntry)).map (·.fabFileId) ↔
      h.inside f from_ to_ ≠ [] ∧ ¬(h.past f from_ = true ∧ h.guess f ≤ from_) ∧
        memberAfter (h.past f from_) (h.inside f from_ to_) = true := by
  rw [mem_entries]
  by_cases still : h.inside f from_ to_ = []
  · simp [still, window_still still]
  · obtain ⟨w, found, start, finish⟩ := window_moved ordered listed still
    simp [found, start, finish, still]

theorem shown_removed (ordered : from_ ≤ to_) (listed : f ∈ h.files) :
    f.id ∈ (newestFirst (((h.shownWindows from_ to_).values.filter fun w => w.memberAtFrom && !w.memberAtTo).map toEntry)).map (·.fabFileId) ↔
      h.inside f from_ to_ ≠ [] ∧ (h.past f from_ = true ∧ h.guess f ≤ from_) ∧
        memberAfter (h.past f from_) (h.inside f from_ to_) = false := by
  rw [mem_entries]
  by_cases still : h.inside f from_ to_ = []
  · simp [still, window_still still]
  · obtain ⟨w, found, start, finish⟩ := window_moved ordered listed still
    simp [found, start, finish, still]

theorem shown_unlogged (ordered : from_ ≤ to_) (listed : f ∈ h.files) :
    addedWithoutEvent h.shownBirths (h.shownWindows from_ to_) from_ f.id = true ↔ h.inside f from_ to_ = [] ∧ from_ < h.guess f := by
  unfold addedWithoutEvent
  by_cases still : h.inside f from_ to_ = []
  · simp [still, window_still still, bornOr_file listed]
  · obtain ⟨w, found, _⟩ := window_moved ordered listed still
    simp [found, still]

theorem shown_satThrough (ordered : from_ ≤ to_) (listed : f ∈ h.files)
    (member : memberAfter (h.past f from_) (h.inside f from_ to_) = true) :
    satThroughWindow h.shownBirths (h.shownWindows from_ to_) from_ f.id = true ↔ h.past f from_ = true ∧ h.guess f ≤ from_ := by
  unfold satThroughWindow
  by_cases still : h.inside f from_ to_ = []
  · rw [still] at member
    simp [window_still still, bornOr_file listed, show h.past f from_ = true from member]
  · obtain ⟨w, found, start, finish⟩ := window_moved ordered listed still
    simp [found, start, finish, member]

end LakeHistory

/-! ### The whole diff -/

section Diff
variable {now : Instant} {h : LakeHistory now} {from_ : Instant} {to_ : Option Instant} {limit : Option ℚ}

theorem windowEnd_le_now : windowEndOf to_ now ≤ now := by
  unfold windowEndOf
  cases to_ with
  | none => exact le_rfl
  | some end_ =>
    dsimp only
    split
    · rename_i earlier
      exact earlier.le
    · exact le_rfl

/-- The view over the whole page. -/
def shownView (h : LakeHistory now) (from_ windowEnd : Instant) : LakeMembershipDiffView :=
  let reason := unknownReason false h.reads.oldestEventAt from_
  { from_
    to_ := windowEnd
    added := newestFirst (((h.shownWindows from_ windowEnd).values.filter fun w => !w.memberAtFrom && w.memberAtTo).map toEntry)
    removed := newestFirst (((h.shownWindows from_ windowEnd).values.filter fun w => w.memberAtFrom && !w.memberAtTo).map toEntry)
    unchangedCount :=
      if reason = none then
        some ((h.shownMembers from_ windowEnd).countP (satThroughWindow h.shownBirths (h.shownWindows from_ windowEnd) from_))
      else none
    unchangedUnknownReason := reason
    addedWithoutEventCount :=
      (h.shownMembers from_ windowEnd).countP (addedWithoutEvent h.shownBirths (h.shownWindows from_ windowEnd) from_)
    logStartsAt := h.reads.oldestEventAt
    truncated := false
    generatedAt := now }

theorem diff_eq (ordered : from_ ≤ windowEndOf to_ now)
    (whole : (h.reads.listByLakeSince from_ (clampLakeMembershipDiffLimit limit + 1)).length ≤ clampLakeMembershipDiffLimit limit) :
    diffLakeMembership h.reads from_ to_ limit now = .ok (shownView h from_ (windowEndOf to_ now)) := by
  have all : h.reads.listByLakeSince from_ (clampLakeMembershipDiffLimit limit + 1) = (h.shownEvents from_).reverse := by
    unfold LakeHistory.reads at whole ⊢
    dsimp only at whole ⊢
    rw [List.length_take] at whole
    exact List.take_of_length_le (by omega)
  unfold diffLakeMembership
  dsimp only
  rw [if_neg (not_lt.mpr (ordered.trans windowEnd_le_now)), if_neg (not_lt.mpr ordered)]
  have full : decide ((h.reads.listByLakeSince from_ (clampLakeMembershipDiffLimit limit + 1)).length >
      clampLakeMembershipDiffLimit limit) = false := decide_eq_false (not_lt.mpr whole)
  rw [full, if_neg Bool.false_ne_true, all, List.reverse_reverse]
  rfl

/-- The count of unchanged files is reported once the log reaches back to the beginning of the window. -/
theorem reported_iff : unknownReason false h.reads.oldestEventAt from_ = none ↔ ∃ e ∈ h.log, e.createdAt ≤ from_ := by
  have first : h.reads.oldestEventAt = h.log.head?.map (·.createdAt) := rfl
  rw [first]
  have order := h.inOrder
  cases log : h.log with
  | nil => simp [unknownReason]
  | cons e rest =>
    rw [log] at order
    have earliest := (List.pairwise_cons.mp order).1
    simp only [unknownReason, Bool.false_eq_true, if_false, List.head?_cons, Option.map_some]
    constructor
    · intro covered
      refine ⟨e, List.mem_cons_self, ?_⟩
      by_contra late
      rw [if_pos (lt_of_not_ge late)] at covered
      cases covered
    · rintro ⟨other, listed, early⟩
      have start : e.createdAt ≤ from_ := by
        rcases List.mem_cons.mp listed with rfl | later
        · exact early
        · rcases earliest other later with before | ⟨same, _⟩
          · exact before.le.trans early
          · exact same.le.trans early
      rw [if_neg (not_lt.mpr start)]

/-- What the view says is what happened. -/
structure TellsTruth (h : LakeHistory now) (from_ windowEnd : Instant) (view : LakeMembershipDiffView) : Prop where
  added : ∀ f ∈ h.files, f.id ∈ view.added.map (·.fabFileId) ↔
    h.movedWithin f from_ windowEnd = true ∧ h.memberAt f from_ = false ∧ h.memberAt f windowEnd = true
  removed : ∀ f ∈ h.files, f.id ∈ view.removed.map (·.fabFileId) ↔ h.memberAt f from_ = true ∧ h.memberAt f windowEnd = false
  unlogged : view.addedWithoutEventCount =
    h.files.countP fun f => h.memberAt f windowEnd && !h.movedWithin f from_ windowEnd && decide (from_ < f.birth)
  unchanged : ∀ count, view.unchangedCount = some count →
    count = h.files.countP fun f => h.memberAt f from_ && h.memberAt f windowEnd

/-- Of a file that has left for good, and whose first event after the beginning of the window is a removal, the diff takes the birth to be
the epoch; that is right only in these cases. -/
def BirthsKnown (h : LakeHistory now) (from_ windowEnd : Instant) : Prop :=
  ∀ f ∈ h.files, h.memberAt f now = false → ∀ e, h.firstAfter f from_ = some e → e.action = .removed →
    if 0 ≤ from_ then h.memberAt f from_ = true ∨ windowEnd < f.birth ∧ ∀ e ∈ h.log, from_ < e.createdAt
    else h.memberAt f from_ = false ∧ f.birth ≤ windowEnd

theorem countP_forces {α : Type} {l : List α} {p q : α → Bool} (weaker : ∀ x ∈ l, p x = true → q x = true) (same : l.countP p = l.countP q) :
    ∀ x ∈ l, q x = true → p x = true := by
  induction l with
  | nil => exact fun _ none => by cases none
  | cons x rest ih =>
    have most := List.countP_mono_left fun y listed => weaker y (.tail _ listed)
    rw [List.countP_cons, List.countP_cons] at same
    have here := weaker x (.head _)
    intro y listed held
    rcases List.mem_cons.mp listed with rfl | later
    · by_contra missing
      rw [if_pos held, if_neg missing] at same
      omega
    · refine ih (fun y listed => weaker y (.tail _ listed)) ?_ y later held
      by_cases first : p x = true
      · rw [if_pos first, if_pos (here first)] at same
        omega
      · rw [if_neg first] at same
        split at same <;> omega

variable {windowEnd : Instant} {f : FileLife}

/-- What of `BirthsKnown` concerns one file, told by the log before the window. -/
def BirthKnown (h : LakeHistory now) (f : FileLife) (from_ windowEnd : Instant) : Prop :=
  h.memberAt f now = false → h.past f from_ = true →
    if 0 ≤ from_ then f.birth ≤ from_ ∨ windowEnd < f.birth ∧ ∀ e ∈ h.log, from_ < e.createdAt
    else from_ < f.birth ∧ f.birth ≤ windowEnd

theorem birthsKnown_iff (ordered : from_ ≤ windowEnd) : BirthsKnown h from_ windowEnd ↔ ∀ f ∈ h.files, BirthKnown h f from_ windowEnd := by
  unfold BirthsKnown BirthKnown
  refine forall₂_congr fun f listed => forall_congr' fun gone => ?_
  have later : (h.eventsOf f).filter (from_ < ·.createdAt) = h.inside f from_ windowEnd ++ h.afterwards f windowEnd :=
    List.append_cancel_left ((LakeHistory.cut _ LakeHistory.eventsOf_inOrder from_).symm.trans (LakeHistory.life ordered))
  have first : h.firstAfter f from_ = (h.inside f from_ windowEnd ++ h.afterwards f windowEnd).head? := by
    rw [← later, List.head?_filter]
    rfl
  have turns : Alternates (h.past f from_) (h.inside f from_ windowEnd ++ h.afterwards f windowEnd) :=
    alternates_append.mpr (LakeHistory.inside_alternates ordered listed)
  rw [LakeHistory.memberAt_from]
  constructor
  · intro known member
    cases rest : h.inside f from_ windowEnd ++ h.afterwards f windowEnd with
    | nil =>
      rw [LakeHistory.memberAt_now ordered listed, ← memberAfter_append, rest] at gone
      exact absurd (member.symm.trans gone) (by decide)
    | cons e later =>
      rw [rest] at first turns
      have removed : e.action = .removed := of_decide_eq_true ((alternates_head turns rfl).symm.trans member)
      have answer := known e first removed
      split
      · rename_i epoch
        rw [if_pos epoch] at answer
        exact answer.imp (fun both => of_decide_eq_true (Bool.and_eq_true_iff.mp both).1) id
      · rename_i epoch
        rw [if_neg epoch, member, Bool.and_true] at answer
        exact ⟨lt_of_not_ge (of_decide_eq_false answer.1), answer.2⟩
  · intro known e found removed
    have member : h.past f from_ = true := by
      rw [alternates_head turns (first ▸ found)]
      exact decide_eq_true removed
    have answer := known member
    rw [member, Bool.and_true]
    split
    · rename_i epoch
      rw [if_pos epoch] at answer
      exact answer.imp decide_eq_true id
    · rename_i epoch
      rw [if_neg epoch] at answer
      exact ⟨decide_eq_false (not_le.mpr answer.1), answer.2⟩

/-- The diff's count of joins without an event, file by file. -/
theorem shown_unloggedCount (ordered : from_ ≤ windowEnd) : (shownView h from_ windowEnd).addedWithoutEventCount = h.files.countP fun f =>
    decide ((memberAfter (h.past f from_) (h.inside f from_ windowEnd) = true ∧ (h.memberAt f now = true → f.birth ≤ windowEnd)) ∧
      h.inside f from_ windowEnd = [] ∧ from_ < h.guess f) := by
  show (h.shownMembers from_ windowEnd).countP _ = _
  rw [LakeHistory.countP_members]
  apply List.countP_congr
  intro f listed
  rw [Bool.and_eq_true_iff, decide_eq_true_eq, decide_eq_true_eq, LakeHistory.mem_shownMembers ordered listed,
    LakeHistory.shown_unlogged ordered listed]

theorem shown_unchangedCount (ordered : from_ ≤ windowEnd) {count : Nat} (reported : (shownView h from_ windowEnd).unchangedCount = some count) :
    count = h.files.countP fun f =>
      decide ((memberAfter (h.past f from_) (h.inside f from_ windowEnd) = true ∧ (h.memberAt f now = true → f.birth ≤ windowEnd)) ∧
        h.past f from_ = true ∧ h.guess f ≤ from_) := by
  obtain ⟨_, same⟩ := Option.ite_none_right_eq_some.mp reported
  rw [← Option.some.inj same, LakeHistory.countP_members]
  apply List.countP_congr
  intro f listed
  rw [Bool.and_eq_true_iff, decide_eq_true_eq, decide_eq_true_eq, LakeHistory.mem_shownMembers ordered listed]
  exact and_congr_right fun member => LakeHistory.shown_satThrough ordered listed member.1

theorem shown_reported : (∃ count, (shownView h from_ windowEnd).unchangedCount = some count) ↔ ∃ e ∈ h.log, e.createdAt ≤ from_ := by
  rw [← reported_iff]
  constructor
  · rintro ⟨_, reported⟩
    exact (Option.ite_none_right_eq_some.mp reported).1
  · intro covered
    exact ⟨_, if_pos covered⟩

/-- What happened to one file, in the terms of its log. -/
theorem truth (ordered : from_ ≤ windowEnd) (listed : f ∈ h.files) :
    (h.memberAt f from_ = true ↔ f.birth ≤ from_ ∧ h.past f from_ = true) ∧
      (h.memberAt f windowEnd = true ↔ f.birth ≤ windowEnd ∧ memberAfter (h.past f from_) (h.inside f from_ windowEnd) = true) ∧
      (h.movedWithin f from_ windowEnd = true ↔ h.inside f from_ windowEnd ≠ []) ∧
      (h.inside f from_ windowEnd ≠ [] → f.birth ≤ windowEnd) ∧
      (h.inside f from_ windowEnd = [] → memberAfter (h.past f from_) (h.inside f from_ windowEnd) = h.past f from_) := by
  refine ⟨?_, ?_, LakeHistory.movedWithin_iff, LakeHistory.moved_born listed, fun still => by rw [still]; rfl⟩
  · rw [LakeHistory.memberAt_from, Bool.and_eq_true_iff, decide_eq_true_eq]
  · rw [LakeHistory.memberAt_to ordered, Bool.and_eq_true_iff, decide_eq_true_eq]

theorem guess_live (live : h.memberAt f now = true) : h.guess f = f.birth := if_pos live

theorem guess_gone (gone : ¬h.memberAt f now = true) : h.guess f = 0 := if_neg gone

/-- With a known birth the diff goes by the true one, wherever it matters. -/
theorem guess_known (listed : f ∈ h.files) (known : BirthKnown h f from_ windowEnd) (member : h.past f from_ = true)
    (matters : h.inside f from_ windowEnd ≠ [] ∨ ∃ e ∈ h.log, e.createdAt ≤ from_) : h.guess f ≤ from_ ↔ f.birth ≤ from_ := by
  by_cases live : h.memberAt f now = true
  · rw [guess_live live]
  · have answer := known (by simpa using live) member
    rw [guess_gone live]
    by_cases epoch : 0 ≤ from_
    · rw [if_pos epoch] at answer
      rcases answer with early | ⟨late, unlogged⟩
      · exact ⟨fun _ => early, fun _ => epoch⟩
      · rcases matters with moved | ⟨e, logged, early⟩
        · exact absurd (LakeHistory.moved_born listed moved) (not_le.mpr late)
        · exact absurd early (not_le.mpr (unlogged e logged))
    · rw [if_neg epoch] at answer
      exact ⟨fun early => absurd early epoch, fun early => absurd early (not_le.mpr answer.1)⟩

theorem tells_of_known (ordered : from_ ≤ windowEnd) (known : ∀ f ∈ h.files, BirthKnown h f from_ windowEnd) :
    TellsTruth h from_ windowEnd (shownView h from_ windowEnd) where
  added := by
    intro f listed
    obtain ⟨start, finish, moved, born, _⟩ := truth ordered listed
    have absent : h.memberAt f from_ = false ↔ _ := Bool.eq_false_iff.trans (not_congr start)
    refine (LakeHistory.shown_added ordered listed).trans ?_
    rw [moved, finish, absent]
    constructor
    · rintro ⟨moves, apart, member⟩
      refine ⟨moves, fun both => apart ⟨both.2, ?_⟩, born moves, member⟩
      exact (guess_known listed (known f listed) both.2 (Or.inl moves)).mpr both.1
    · rintro ⟨moves, apart, _, member⟩
      refine ⟨moves, fun both => apart ⟨?_, both.1⟩, member⟩
      exact (guess_known listed (known f listed) both.1 (Or.inl moves)).mp both.2
  removed := by
    intro f listed
    obtain ⟨start, finish, _, born, still⟩ := truth ordered listed
    have absent : h.memberAt f windowEnd = false ↔ _ := Bool.eq_false_iff.trans (not_congr finish)
    refine (LakeHistory.shown_removed ordered listed).trans ?_
    rw [start, absent]
    constructor
    · rintro ⟨moves, ⟨member, early⟩, left⟩
      refine ⟨⟨(guess_known listed (known f listed) member (Or.inl moves)).mp early, member⟩, fun both => ?_⟩
      exact Bool.false_ne_true (left.symm.trans both.2)
    · rintro ⟨⟨early, member⟩, left⟩
      have gone : memberAfter (h.past f from_) (h.inside f from_ windowEnd) = false := by
        rw [Bool.eq_false_iff]
        exact fun there => left ⟨early.trans ordered, there⟩
      have moves : h.inside f from_ windowEnd ≠ [] := by
        intro none
        rw [still none, member] at gone
        cases gone
      exact ⟨moves, ⟨member, (guess_known listed (known f listed) member (Or.inl moves)).mpr early⟩, gone⟩
  unlogged := by
    rw [shown_unloggedCount ordered]
    apply List.countP_congr
    intro f listed
    obtain ⟨_, finish, moved, _, still⟩ := truth ordered listed
    simp only [decide_eq_true_eq, Bool.and_eq_true_iff, Bool.not_eq_true', Bool.eq_false_iff, ne_eq, finish, moved, not_not]
    constructor
    · rintro ⟨⟨member, born⟩, none, late⟩
      by_cases live : h.memberAt f now = true
      · rw [guess_live live] at late
        exact ⟨⟨⟨born live, member⟩, none⟩, late⟩
      · rw [guess_gone live] at late
        have answer := known f listed (by simpa using live) ((still none).symm.trans member)
        rw [if_neg (not_le.mpr late)] at answer
        exact ⟨⟨⟨answer.2, member⟩, none⟩, answer.1⟩
    · rintro ⟨⟨⟨born, member⟩, none⟩, late⟩
      refine ⟨⟨member, fun _ => born⟩, none, ?_⟩
      by_cases live : h.memberAt f now = true
      · rwa [guess_live live]
      · have answer := known f listed (by simpa using live) ((still none).symm.trans member)
        rw [guess_gone live]
        by_contra epoch
        rw [if_pos (not_lt.mp epoch)] at answer
        rcases answer with early | ⟨after, _⟩
        · exact absurd early (not_le.mpr late)
        · exact absurd born (not_le.mpr after)
  unchanged := by
    intro count reported
    have covered := shown_reported.mp ⟨count, reported⟩
    rw [shown_unchangedCount ordered reported]
    apply List.countP_congr
    intro f listed
    obtain ⟨start, finish, _, _, _⟩ := truth ordered listed
    rw [decide_eq_true_eq, Bool.and_eq_true_iff, start, finish]
    constructor
    · rintro ⟨⟨member, _⟩, before, early⟩
      have early := (guess_known listed (known f listed) before (Or.inr covered)).mp early
      exact ⟨⟨early, before⟩, early.trans ordered, member⟩
    · rintro ⟨⟨early, before⟩, born, member⟩
      exact ⟨⟨member, fun _ => born⟩, before, (guess_known listed (known f listed) before (Or.inr covered)).mpr early⟩

theorem known_of_tells (ordered : from_ ≤ windowEnd) (tells : TellsTruth h from_ windowEnd (shownView h from_ windowEnd)) (listed : f ∈ h.files) :
    BirthKnown h f from_ windowEnd := by
  intro left member
  have gone : ¬h.memberAt f now = true := by simp [left]
  have guess := guess_gone gone
  obtain ⟨start, finish, moved, born, still⟩ := truth ordered listed
  have shownAdded := (LakeHistory.shown_added ordered listed).symm.trans (tells.added f listed)
  have shownRemoved := (LakeHistory.shown_removed ordered listed).symm.trans (tells.removed f listed)
  have absentBefore : h.memberAt f from_ = false ↔ _ := Bool.eq_false_iff.trans (not_congr start)
  have absentAfter : h.memberAt f windowEnd = false ↔ _ := Bool.eq_false_iff.trans (not_congr finish)
  rw [guess, moved, finish, absentBefore] at shownAdded
  rw [guess, start, absentAfter] at shownRemoved
  have unlogged := tells.unlogged
  rw [shown_unloggedCount ordered] at unlogged
  by_cases epoch : 0 ≤ from_
  · rw [if_pos epoch]
    by_contra unknown
    rw [not_or, not_le] at unknown
    obtain ⟨late, unknown⟩ := unknown
    by_cases moves : h.inside f from_ windowEnd = []
    · have there : memberAfter (h.past f from_) (h.inside f from_ windowEnd) = true := (still moves).trans member
      by_cases early : f.birth ≤ windowEnd
      · -- Such a file is missing from the count of joins without an event.
        have forced := countP_forces (l := h.files) (fun g listed counted => ?_) unlogged f listed ?_
        · simp only [decide_eq_true_eq] at forced
          rw [guess] at forced
          exact absurd epoch (not_le.mpr forced.2.2)
        · obtain ⟨_, finish, moved, _, _⟩ := truth ordered listed
          simp only [decide_eq_true_eq] at counted
          obtain ⟨⟨member, born⟩, none, late⟩ := counted
          have live : h.memberAt g now = true := by
            by_contra gone
            rw [guess_gone gone] at late
            exact absurd epoch (not_le.mpr late)
          rw [guess_live live] at late
          simp only [decide_eq_true_eq, Bool.and_eq_true_iff, Bool.not_eq_true', Bool.eq_false_iff, ne_eq, finish, moved, not_not]
          exact ⟨⟨⟨born live, member⟩, none⟩, late⟩
        · simp only [decide_eq_true_eq, Bool.and_eq_true_iff, Bool.not_eq_true', Bool.eq_false_iff, ne_eq, finish, moved, not_not]
          exact ⟨⟨⟨early, there⟩, moves⟩, late⟩
      · -- Such a file is among those counted as unchanged.
        have covered : ∃ e ∈ h.log, e.createdAt ≤ from_ := by
          by_contra none
          exact unknown ⟨lt_of_not_ge early, fun e logged => lt_of_not_ge fun before => none ⟨e, logged, before⟩⟩
        obtain ⟨count, reported⟩ := shown_reported.mpr covered
        have unchanged := (tells.unchanged count reported).symm.trans (shown_unchangedCount ordered reported)
        have forced := countP_forces (l := h.files) (fun g listed counted => ?_) unchanged f listed ?_
        · rw [Bool.and_eq_true_iff, start] at forced
          exact absurd forced.1.1 (not_le.mpr late)
        · obtain ⟨start, finish, _, _, _⟩ := truth ordered listed
          rw [Bool.and_eq_true_iff, start, finish] at counted
          obtain ⟨⟨early, before⟩, born, there⟩ := counted
          refine decide_eq_true ⟨⟨there, fun _ => born⟩, before, ?_⟩
          by_cases live : h.memberAt g now = true
          · rwa [guess_live live]
          · rwa [guess_gone live]
        · refine decide_eq_true ⟨⟨there, fun live => absurd live gone⟩, member, ?_⟩
          rwa [guess]
    · cases there : memberAfter (h.past f from_) (h.inside f from_ windowEnd) with
      | true =>
        have misses := shownAdded.mpr ⟨moves, fun both => absurd both.1 (not_le.mpr late), born moves, there⟩
        exact misses.2.1 ⟨member, epoch⟩
      | false =>
        have claims := shownRemoved.mp ⟨moves, ⟨member, epoch⟩, there⟩
        exact absurd claims.1.1 (not_le.mpr late)
  · rw [if_neg epoch]
    by_cases moves : h.inside f from_ windowEnd = []
    · have there : memberAfter (h.past f from_) (h.inside f from_ windowEnd) = true := (still moves).trans member
      have forced := countP_forces (l := h.files) (fun g listed counted => ?_) unlogged.symm f listed ?_
      · simp only [decide_eq_true_eq, Bool.and_eq_true_iff, finish] at forced
        exact ⟨forced.2, forced.1.1.1⟩
      · obtain ⟨_, finish, moved, _, _⟩ := truth ordered listed
        simp only [decide_eq_true_eq, Bool.and_eq_true_iff, Bool.not_eq_true', Bool.eq_false_iff, ne_eq, finish, moved, not_not] at counted
        obtain ⟨⟨⟨born, member⟩, none⟩, late⟩ := counted
        refine decide_eq_true ⟨⟨member, fun _ => born⟩, none, ?_⟩
        by_cases live : h.memberAt g now = true
        · rwa [guess_live live]
        · rw [guess_gone live]
          exact lt_of_not_ge epoch
      · refine decide_eq_true ⟨⟨there, fun live => absurd live gone⟩, moves, ?_⟩
        rw [guess]
        exact lt_of_not_ge epoch
    · refine ⟨lt_of_not_ge fun early => ?_, born moves⟩
      cases there : memberAfter (h.past f from_) (h.inside f from_ windowEnd) with
      | true =>
        have claims := shownAdded.mp ⟨moves, fun both => epoch both.2, there⟩
        exact claims.2.1 ⟨early, member⟩
      | false =>
        have misses := shownRemoved.mpr ⟨⟨early, member⟩, fun both => Bool.false_ne_true (there.symm.trans both.2)⟩
        exact epoch misses.2.1.2

/-- For every history and window, and a page that is not truncated, the diff is answered, and it tells the truth exactly when the births that
it takes for the epoch do not matter. -/
theorem diff_tells_truth_iff (h : LakeHistory now) (from_ : Instant) (to_ : Option Instant) (limit : Option ℚ)
    (ordered : from_ ≤ windowEndOf to_ now)
    (whole : (h.reads.listByLakeSince from_ (clampLakeMembershipDiffLimit limit + 1)).length ≤ clampLakeMembershipDiffLimit limit) :
    ∃ view, diffLakeMembership h.reads from_ to_ limit now = .ok view ∧ view.truncated = false ∧
      (TellsTruth h from_ (windowEndOf to_ now) view ↔ BirthsKnown h from_ (windowEndOf to_ now)) := by
  refine ⟨_, diff_eq ordered whole, rfl, ?_⟩
  rw [birthsKnown_iff ordered]
  exact ⟨fun tells f listed => known_of_tells ordered tells listed, tells_of_known ordered⟩

/-- A file uploaded before the window, removed and added again within it. -/
def addedAgain : LakeHistory 100 where
  files := [⟨"report", 10, true⟩]
  log := [{ id := "e1", createdAt := 30, fabFileId := "report", action := .removed },
    { id := "e2", createdAt := 50, fabFileId := "report", action := .added }]
  distinct := by decide
  inOrder := by decide
  owned := by decide
  born := by decide
  past_ := by decide
  afterBirth := by decide
  alternates := by
    intro f listed
    cases List.mem_singleton.mp listed
    exact ⟨rfl, rfl, trivial⟩

theorem added_again_told : ∃ view, diffLakeMembership addedAgain.reads 20 (some 60) none 100 = .ok view ∧ TellsTruth addedAgain 20 60 view := by
  obtain ⟨view, answered, _, exactly⟩ := diff_tells_truth_iff addedAgain 20 (some 60) none (by decide) (by decide +kernel)
  refine ⟨view, answered, exactly.mpr ?_⟩
  intro f listed gone
  cases List.mem_singleton.mp listed
  have live : addedAgain.memberAt ⟨"report", 10, true⟩ 100 = true := by decide
  cases live.symm.trans gone

/-- A file uploaded into the lake and removed from it, both within the window. -/
def cameAndWent : LakeHistory 100 where
  files := [⟨"draft", 30, true⟩]
  log := [{ id := "e1", createdAt := 50, fabFileId := "draft", action := .removed }]
  distinct := by decide
  inOrder := by decide
  owned := by decide
  born := by decide
  past_ := by decide
  afterBirth := by decide
  alternates := by
    intro f listed
    cases List.mem_singleton.mp listed
    exact ⟨rfl, trivial⟩

/-- It is reported as removed, which it was never there to be. -/
theorem came_and_went_reported : ¬∀ (now : Instant) (h : LakeHistory now) (from_ : Instant) (to_ : Option Instant) (limit : Option ℚ),
    from_ ≤ windowEndOf to_ now →
    (h.reads.listByLakeSince from_ (clampLakeMembershipDiffLimit limit + 1)).length ≤ clampLakeMembershipDiffLimit limit →
    ∀ view, diffLakeMembership h.reads from_ to_ limit now = .ok view → TellsTruth h from_ (windowEndOf to_ now) view := by
  intro all
  have tells := all 100 cameAndWent 20 none none (by decide) (by decide +kernel) _ rfl
  have claims := (tells.removed ⟨"draft", 30, true⟩ (by exact List.mem_singleton_self _)).mp (by decide +kernel)
  exact absurd claims.1 (by decide)

end Diff

end Bike4Mind.MembershipDiff
