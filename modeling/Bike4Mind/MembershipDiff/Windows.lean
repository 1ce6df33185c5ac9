import Bike4Mind.MembershipDiff.History

/-! What the rewind and the windows come to for one file. -/

namespace Bike4Mind.MembershipDiff
open Collections

variable {bornAt : OrderedMap String Instant} {from_ windowEnd : Instant} {events : List LakeMembershipChangeEvent} {fileId : String}

/-! ### The rewind -/

/-- The first event of a file after the window says whether it was there at the end. -/
theorem rewind_run (state : Rewind) : fileId ∈ (events.foldl (rewindEvent windowEnd) state).membersAtTo ↔
    if fileId ∈ state.rewound then fileId ∈ state.membersAtTo
    else (events.filter fun e => e.fabFileId = fileId ∧ windowEnd < e.createdAt).head?.elim (fileId ∈ state.membersAtTo)
      fun e => e.action = .removed := by
  induction events generalizing state with
  | nil => simp
  | cons e rest ih =>
    rw [List.foldl_cons, ih]
    unfold rewindEvent
    by_cases within : e.createdAt ≤ windowEnd
    · have skipped : ¬(e.fabFileId = fileId ∧ windowEnd < e.createdAt) := fun both => absurd within (not_le.mpr both.2)
      rw [if_pos within, List.filter_cons_of_neg (by simpa using skipped)]
    · have after : windowEnd < e.createdAt := lt_of_not_ge within
      rw [if_neg within]
      by_cases here : e.fabFileId = fileId
      · rw [List.filter_cons_of_pos (by simpa using ⟨here, after⟩), here]
        by_cases seen : fileId ∈ state.rewound
        · rw [if_pos seen, if_pos seen, if_pos seen]
        · rw [if_neg seen, if_neg seen]
          simp only [List.mem_cons, true_or, if_true, List.head?_cons, Option.elim_some]
          cases action : e.action with
          | added => simp
          | removed => simp [mem_insertNew]
      · rw [List.filter_cons_of_neg (by simp [here])]
        have other : fileId ≠ e.fabFileId := fun same => here same.symm
        by_cases seen : e.fabFileId ∈ state.rewound
        · rw [if_pos seen]
        · rw [if_neg seen]
          simp only [List.mem_cons, other, false_or]
          cases e.action with
          | added => simp [other]
          | removed => simp [mem_insertNew, other]

theorem rewind_nodup (state : Rewind) (distinct : state.membersAtTo.Nodup) :
    (events.foldl (rewindEvent windowEnd) state).membersAtTo.Nodup := by
  induction events generalizing state with
  | nil => exact distinct
  | cons e rest ih =>
    apply ih
    unfold rewindEvent
    split
    · exact distinct
    · split
      · exact distinct
      · dsimp only
        split
        · exact distinct.filter _
        · exact insertNew_nodup distinct

theorem mem_membersAtToOf : fileId ∈ membersAtToOf bornAt windowEnd events ↔
    ((events.filter fun e => e.fabFileId = fileId ∧ windowEnd < e.createdAt).head?.elim (fileId ∈ bornAt.keys)
      fun e => e.action = .removed) ∧ ∀ born, bornAt.get? fileId = some born → born ≤ windowEnd := by
  unfold membersAtToOf
  rw [List.mem_filter, rewind_run]
  refine and_congr (by simp) ?_
  cases bornAt.get? fileId <;> simp

theorem membersAtToOf_nodup : (membersAtToOf bornAt windowEnd events).Nodup :=
  (rewind_nodup _ OrderedMap.keys_nodup).filter _

/-! ### The windows -/

/-- One event of a file within the window. -/
def grow (bornAt : OrderedMap String Instant) (from_ : Instant) (held : Option FileWindow) (e : LakeMembershipChangeEvent) : Option FileWindow :=
  match held with
  | some existing => some { existing with memberAtTo := decide (e.action = .added), last := e, flips := existing.flips + 1 }
  | none => some
      { memberAtFrom := decide (e.action = .removed) && decide (bornOr bornAt e.fabFileId ≤ from_)
        memberAtTo := decide (e.action = .added)
        last := e
        flips := 1 }

theorem windows_run (windows : OrderedMap String FileWindow) : (events.foldl (windowEvent bornAt from_ windowEnd) windows).get? fileId =
    (events.filter fun e => e.fabFileId = fileId ∧ e.createdAt ≤ windowEnd).foldl (grow bornAt from_) (windows.get? fileId) := by
  induction events generalizing windows with
  | nil => rfl
  | cons e rest ih =>
    rw [List.foldl_cons, ih]
    unfold windowEvent
    by_cases after : e.createdAt > windowEnd
    · have skipped : ¬(e.fabFileId = fileId ∧ e.createdAt ≤ windowEnd) := fun both => absurd both.2 (not_le.mpr after)
      rw [if_pos after, List.filter_cons_of_neg (by simpa using skipped)]
    · have within : e.createdAt ≤ windowEnd := le_of_not_gt after
      rw [if_neg after]
      by_cases here : e.fabFileId = fileId
      · subst here
        rw [List.filter_cons_of_pos (by simpa using within), List.foldl_cons]
        cases windows.get? e.fabFileId <;> simp [grow]
      · have other : fileId ≠ e.fabFileId := fun same => here same.symm
        rw [List.filter_cons_of_neg (by simp [here])]
        cases windows.get? e.fabFileId <;> simp [OrderedMap.get?_set_other other]

theorem grow_run (w : FileWindow) : ∃ w', events.foldl (grow bornAt from_) (some w) = some w' ∧ w'.memberAtFrom = w.memberAtFrom ∧
    w'.memberAtTo = memberAfter w.memberAtTo events ∧ (w'.last = w.last ∨ w'.last ∈ events) := by
  induction events generalizing w with
  | nil => exact ⟨w, rfl, rfl, rfl, Or.inl rfl⟩
  | cons e rest ih =>
    obtain ⟨w', run, start, finish, last⟩ := ih { w with memberAtTo := decide (e.action = .added), last := e, flips := w.flips + 1 }
    refine ⟨w', run, start, finish, ?_⟩
    rcases last with same | later
    · exact Or.inr (same ▸ List.mem_cons_self)
    · exact Or.inr (.tail _ later)

theorem windowsOf_none (none : events.filter (fun e => e.fabFileId = fileId ∧ e.createdAt ≤ windowEnd) = []) :
    (windowsOf bornAt from_ windowEnd events).get? fileId = Option.none := by
  unfold windowsOf
  rw [windows_run, none]
  rfl

theorem windowsOf_some {first : LakeMembershipChangeEvent} {rest : List LakeMembershipChangeEvent}
    (own : events.filter (fun e => e.fabFileId = fileId ∧ e.createdAt ≤ windowEnd) = first :: rest) (member : Bool) :
    ∃ w, (windowsOf bornAt from_ windowEnd events).get? fileId = some w ∧
      w.memberAtFrom = (decide (first.action = .removed) && decide (bornOr bornAt fileId ≤ from_)) ∧
      w.memberAtTo = memberAfter member (first :: rest) ∧ w.last.fabFileId = fileId := by
  have mine : ∀ e ∈ first :: rest, e.fabFileId = fileId := by
    intro e listed
    rw [← own] at listed
    exact (of_decide_eq_true (List.mem_filter.mp listed).2).1
  have named := mine first List.mem_cons_self
  obtain ⟨w, run, start, finish, last⟩ := @grow_run bornAt from_ rest
    { memberAtFrom := decide (first.action = .removed) && decide (bornOr bornAt first.fabFileId ≤ from_)
      memberAtTo := decide (first.action = .added)
      last := first
      flips := 1 }
  refine ⟨w, ?_, by rw [start, named], finish, ?_⟩
  · unfold windowsOf
    rw [windows_run, own]
    exact run
  · rcases last with same | later
    · rw [same]
      exact named
    · exact mine _ (.tail _ later)

end Bike4Mind.MembershipDiff
