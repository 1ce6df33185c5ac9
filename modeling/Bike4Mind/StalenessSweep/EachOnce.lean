import Bike4Mind.StalenessSweep.Scan

/-! A sweep while it pages: every due lake is returned once, whenever the stamps are written. -/

namespace Bike4Mind.StalenessSweep

variable {Id : Type} [LinearOrder Id]

/-- The stored lakes and what a run over them has read so far. -/
structure Sweep (Id : Type) where
  lakes : List (Lake Id)
  cursor : Option (Cursor Id)
  pages : List (List (Lake Id))

inductive Event (Id : Type) where
  -- the run's own
  | read (limit : Nat)
  | mark (id : Id)
  -- other writers'
  | add (lake : Lake Id)
  | setActive (id : Id) (active : Bool)
  | restamp (id : Id) (stamp : Stamp)

namespace Event

def own : Event Id → Bool
  | read _ => true
  | mark _ => true
  | _ => false

/-- Another writer adds, archives, activates or stamps the lake. -/
def touches (id : Id) : Event Id → Prop
  | add lake => lake.id = id
  | setActive other _ => other = id
  | restamp other _ => other = id
  | _ => False

def restamps (id : Id) : Event Id → Prop
  | restamp other _ => other = id
  | _ => False

def isRead : Event Id → Bool
  | read _ => true
  | _ => false

end Event

namespace Sweep

def returned (s : Sweep Id) : List (Lake Id) := s.pages.flatten

def page (field : StampField) (runAt : Time) (s : Sweep Id) (limit : Nat) : List (Lake Id) :=
  findDue field s.lakes s.cursor limit runAt

def updateLake (s : Sweep Id) (id : Id) (f : Lake Id → Lake Id) : Sweep Id :=
  { s with lakes := s.lakes.map fun lake => if lake.id = id then f lake else lake }

def apply (field : StampField) (runAt : Time) (s : Sweep Id) : Event Id → Sweep Id
  | .read limit =>
    { s with
      cursor := ((s.page field runAt limit).getLast?.map (cursorAt field)).or s.cursor
      pages := s.pages ++ [s.page field runAt limit] }
  | .mark id => { s with lakes := mark field s.lakes id runAt }
  | .add lake => { s with lakes := s.lakes ++ [lake] }
  | .setActive id active => s.updateLake id fun lake => { lake with active }
  | .restamp id stamp => s.updateLake id fun lake => lake.setStamp field stamp

/-- Pages have room for a lake, the run stamps what it has read, and a new lake has a new id. -/
def Allows (s : Sweep Id) : Event Id → Prop
  | .read limit => 0 < limit
  | .mark id => id ∈ s.returned.map (·.id)
  | .add lake => lake.id ∉ s.lakes.map (·.id)
  | _ => True

end Sweep

/-- A run with the stamp `runAt` over the lakes stored at its start, with the events so far. -/
inductive Runs (field : StampField) (runAt : Time) (stored : List (Lake Id)) : List (Event Id) → Sweep Id → Prop
  | start : Runs field runAt stored [] ⟨stored, none, []⟩
  | next {events : List (Event Id)} {s : Sweep Id} {event : Event Id} (run : Runs field runAt stored events s) (allows : s.Allows event) :
      Runs field runAt stored (events ++ [event]) (s.apply field runAt event)

/-- What the stored lakes must be: ids of their own, and stamps older than the run's. -/
structure Stored (field : StampField) (runAt : Time) (stored : List (Lake Id)) : Prop where
  distinct : (stored.map (·.id)).Nodup
  older : ∀ lake ∈ stored, ∀ at_, lake.stamp field = .date at_ → at_ < runAt

variable {field : StampField} {runAt : Time} {stored : List (Lake Id)} {s : Sweep Id} {events : List (Event Id)} {lake : Lake Id}

/-! ### One read -/

theorem page_take {limit : Nat} : s.page field runAt limit = (due field s.lakes s.cursor runAt).take limit := rfl

/-- After a page with a last lake the cursor stands there, and no lake of the page is behind it. -/
theorem read_cursor {limit : Nat} (distinct : (s.lakes.map (·.id)).Nodup) :
    (s.page field runAt limit = [] ∧ (s.apply field runAt (.read limit)).cursor = s.cursor) ∨
      ∃ last ∈ s.page field runAt limit, (s.apply field runAt (.read limit)).cursor = some (cursorAt field last) ∧
        ∀ lake ∈ s.page field runAt limit, position field lake ≤ position field last := by
  rcases List.eq_nil_or_concat (s.page field runAt limit) with none | ⟨before, last, split⟩
  · refine .inl ⟨none, ?_⟩
    show ((s.page field runAt limit).getLast?.map (cursorAt field)).or s.cursor = _
    rw [none]
    rfl
  · rw [List.concat_eq_append] at split
    refine .inr ⟨last, by rw [split]; simp, ?_, fun lake member => ?_⟩
    · show ((s.page field runAt limit).getLast?.map (cursorAt field)).or s.cursor = _
      rw [split, List.getLast?_concat]
      rfl
    · have sorted : (s.page field runAt limit).Pairwise fun a b => position field a < position field b := (due_sorted distinct).take
      rw [split] at sorted member
      rcases List.mem_append.mp member with early | late
      · exact ((List.pairwise_append.mp sorted).2.2 lake early last List.mem_cons_self).le
      · rw [List.mem_singleton.mp late]

theorem page_behind {limit : Nat} (member : lake ∈ s.page field runAt limit) :
    lake ∈ s.lakes ∧ lake.active = true ∧ lake.stamp field ≠ .date runAt ∧ Behind field s.cursor lake :=
  mem_due.mp (List.mem_of_mem_take member)

theorem due_read {limit : Nat} (distinct : (s.lakes.map (·.id)).Nodup) :
    due field s.lakes (s.apply field runAt (.read limit)).cursor runAt = (due field s.lakes s.cursor runAt).drop limit := by
  have sorted := @due_sorted _ _ field s.cursor runAt s.lakes distinct
  have cut : s.page field runAt limit ++ (due field s.lakes s.cursor runAt).drop limit = due field s.lakes s.cursor runAt :=
    List.take_append_drop limit _
  refine due_unique distinct sorted.drop fun lake => ?_
  rcases @read_cursor _ _ field runAt s limit distinct with ⟨none, same⟩ | ⟨last, inside, moved, top⟩
  · have all : (due field s.lakes s.cursor runAt).drop limit = due field s.lakes s.cursor runAt := by
      rwa [none] at cut
    rw [same, all, mem_due]
  · rw [moved]
    rw [← cut, List.pairwise_append] at sorted
    constructor
    · intro member
      obtain ⟨stored, active, fresh, _⟩ := mem_due.mp (List.mem_of_mem_drop member)
      refine ⟨stored, active, fresh, fun c here => ?_⟩
      rw [← Option.some.inj here, cursorAt_position]
      exact sorted.2.2 last inside lake member
    · rintro ⟨stored, active, fresh, behind⟩
      have later : position field last < position field lake := cursorAt_position ▸ behind _ rfl
      have found : lake ∈ due field s.lakes s.cursor runAt :=
        mem_due.mpr ⟨stored, active, fresh, fun c here => ((page_behind inside).2.2.2 c here).trans later⟩
      rw [← cut] at found
      rcases List.mem_append.mp found with early | late
      · exact absurd later (not_lt.mpr (top lake early))
      · exact late

/-! ### What every run keeps -/

/-- The lakes are in the database, and a lake that the run has returned is not found again, as long as no other writer stamps it. -/
structure Kept (field : StampField) (runAt : Time) (stored : List (Lake Id)) (events : List (Event Id)) (s : Sweep Id) : Prop where
  distinct : (s.lakes.map (·.id)).Nodup
  known : ∀ lake ∈ s.returned, lake.id ∈ s.lakes.map (·.id)
  passed : ∀ lake ∈ s.returned, (∀ event ∈ events, ¬ event.restamps lake.id) → ∀ now ∈ s.lakes, now.id = lake.id →
    now.stamp field = .date runAt ∨ ¬ Behind field s.cursor now
  once : ∀ id, (∀ event ∈ events, ¬ event.restamps id) → (s.returned.map (·.id)).count id ≤ 1
  waiting : ∀ lake ∈ stored, lake.active = true → (∀ event ∈ events, ¬ event.touches lake.id) →
    lake ∈ s.returned ∨ lake ∈ s.lakes ∧ lake.id ∉ s.returned.map (·.id) ∧ Behind field s.cursor lake

theorem updated {id : Id} {f : Lake Id → Lake Id} (same : ∀ lake, (f lake).id = lake.id) :
    (s.updateLake id f).lakes.map (·.id) = s.lakes.map (·.id) ∧
      (∀ now ∈ (s.updateLake id f).lakes, (∃ lake ∈ s.lakes, lake.id = id ∧ now = f lake) ∨ now ∈ s.lakes ∧ now.id ≠ id) ∧
      ∀ lake ∈ s.lakes, lake.id ≠ id → lake ∈ (s.updateLake id f).lakes := by
  refine ⟨?_, fun now member => ?_, fun lake member other => ?_⟩
  · show (s.lakes.map _).map _ = _
    rw [List.map_map]
    refine List.map_congr_left fun lake _ => ?_
    show (if lake.id = id then f lake else lake).id = lake.id
    split
    · exact same lake
    · rfl
  · obtain ⟨lake, stored, rfl⟩ := List.mem_map.mp member
    by_cases here : lake.id = id
    · exact .inl ⟨lake, stored, here, if_pos here⟩
    · rw [if_neg here]
      exact .inr ⟨stored, here⟩
  · exact List.mem_map.mpr ⟨lake, member, if_neg other⟩

omit [LinearOrder Id] in
theorem setStamp_id {stamp : Stamp} : (lake.setStamp field stamp).id = lake.id := by cases field <;> rfl

omit [LinearOrder Id] in
theorem setStamp_stamp {stamp : Stamp} : (lake.setStamp field stamp).stamp field = stamp := by cases field <;> rfl

theorem mark_eq {id : Id} : s.apply field runAt (.mark id) = s.updateLake id fun lake => lake.setStamp field (.date runAt) := rfl

theorem kept_start (older : Stored field runAt stored) : Kept field runAt stored [] ⟨stored, none, []⟩ where
  distinct := older.distinct
  known := fun _ none => (by cases none)
  passed := fun _ none => (by cases none)
  once := fun _ _ => Nat.zero_le 1
  waiting := fun lake member _ _ => .inr ⟨member, List.not_mem_nil, fun c none => (by cases none)⟩

section Steps
variable {limit : Nat} {id : Id} {event : Event Id}

omit [LinearOrder Id] in
theorem before_event {p : Event Id → Prop} (quiet : ∀ e ∈ events ++ [event], ¬ p e) : (∀ e ∈ events, ¬ p e) ∧ ¬ p event :=
  ⟨fun e member => quiet e (List.mem_append_left _ member), quiet event (List.mem_append_right _ List.mem_cons_self)⟩

theorem behind_read (distinct : (s.lakes.map (·.id)).Nodup) (behind : Behind field (s.apply field runAt (.read limit)).cursor lake) :
    Behind field s.cursor lake := by
  rcases @read_cursor _ _ field runAt s limit distinct with ⟨_, same⟩ | ⟨last, inside, moved, _⟩
  · rwa [same] at behind
  · intro c here
    have later : position field last < position field lake := by
      rw [moved] at behind
      exact cursorAt_position ▸ behind _ rfl
    exact ((page_behind inside).2.2.2 c here).trans later

theorem page_passed (distinct : (s.lakes.map (·.id)).Nodup) (inside : lake ∈ s.page field runAt limit) :
    ¬ Behind field (s.apply field runAt (.read limit)).cursor lake := by
  intro behind
  rcases @read_cursor _ _ field runAt s limit distinct with ⟨none, _⟩ | ⟨last, _, moved, top⟩
  · rw [none] at inside
    cases inside
  · rw [moved] at behind
    have later := behind _ rfl
    rw [cursorAt_position] at later
    exact absurd later (not_lt.mpr (top lake inside))

theorem returned_read : (s.apply field runAt (.read limit)).returned = s.returned ++ s.page field runAt limit := by
  show (s.pages ++ [_]).flatten = _
  rw [List.flatten_append, List.flatten_singleton]
  rfl

theorem kept_read (older : Stored field runAt stored) (kept : Kept field runAt stored events s) :
    Kept field runAt stored (events ++ [.read limit]) (s.apply field runAt (.read limit)) where
  distinct := kept.distinct
  known := by
    intro lake member
    rw [returned_read] at member
    rcases List.mem_append.mp member with early | late
    · exact kept.known lake early
    · exact List.mem_map_of_mem (page_behind late).1
  passed := by
    intro lake member quiet now stored same
    obtain ⟨quiet, _⟩ := before_event quiet
    rw [returned_read] at member
    rcases List.mem_append.mp member with early | late
    · exact (kept.passed lake early quiet now stored same).imp_right fun passed behind => passed (behind_read kept.distinct behind)
    · have equal : now = lake := List.inj_on_of_nodup_map kept.distinct stored (page_behind late).1 same
      exact .inr (equal ▸ page_passed kept.distinct late)
  once := by
    intro id quiet
    obtain ⟨quiet, _⟩ := before_event quiet
    rw [returned_read, List.map_append, List.count_append]
    have page : ((s.page field runAt limit).map (·.id)).Nodup := (due_ids kept.distinct).sublist ((List.take_sublist _ _).map _)
    have few := List.nodup_iff_count_le_one.mp page id
    by_cases again : id ∈ s.returned.map (·.id)
    · have fresh : id ∉ (s.page field runAt limit).map (·.id) := by
        intro inside
        obtain ⟨now, found, rfl⟩ := List.mem_map.mp inside
        obtain ⟨lake, returned, same⟩ := List.mem_map.mp again
        obtain ⟨stored, _, unstamped, behind⟩ := page_behind found
        rcases kept.passed lake returned (same ▸ quiet) now stored same.symm with stamped | passed
        · exact unstamped stamped
        · exact passed behind
      rw [List.count_eq_zero_of_not_mem fresh]
      exact kept.once id quiet
    · rw [List.count_eq_zero_of_not_mem again, Nat.zero_add]
      exact few
  waiting := by
    intro lake member active quiet
    obtain ⟨quiet, _⟩ := before_event quiet
    rw [returned_read]
    rcases kept.waiting lake member active quiet with returned | ⟨here, unread, behind⟩
    · exact .inl (List.mem_append_left _ returned)
    · have fresh : lake.stamp field ≠ .date runAt := fun stamped => lt_irrefl _ (older.older lake member runAt stamped)
      by_cases inside : lake ∈ s.page field runAt limit
      · exact .inl (List.mem_append_right _ inside)
      · have found : lake ∈ due field s.lakes s.cursor runAt := mem_due.mpr ⟨here, active, fresh, behind⟩
        rw [← List.take_append_drop limit (due field s.lakes s.cursor runAt)] at found
        have later := (List.mem_append.mp found).resolve_left inside
        rw [← due_read kept.distinct] at later
        refine .inr ⟨here, fun again => ?_, (mem_due.mp later).2.2.2⟩
        rw [List.map_append] at again
        rcases List.mem_append.mp again with early | late
        · exact unread early
        · obtain ⟨other, read, same⟩ := List.mem_map.mp late
          exact inside (List.inj_on_of_nodup_map kept.distinct here (page_behind read).1 same.symm ▸ read)

/-- A change of one lake: by the run, of a lake that it has returned, or by another writer. -/
theorem kept_update {f : Lake Id → Lake Id} (kept : Kept field runAt stored events s) (same : ∀ lake, (f lake).id = lake.id)
    (mine : (∀ lake, (f lake).stamp field = .date runAt) ∨ (∀ lake, (f lake).stamp field = lake.stamp field) ∨ event.restamps id)
    (outside : id ∈ s.returned.map (·.id) ∨ event.touches id) :
    Kept field runAt stored (events ++ [event]) (s.updateLake id f) where
  distinct := by
    rw [(updated same).1]
    exact kept.distinct
  known := by
    rw [(updated same).1]
    exact kept.known
  passed := by
    intro lake member quiet now stored is
    obtain ⟨quiet, unstamped⟩ := before_event quiet
    rcases (updated same).2.1 now stored with ⟨old, here, rfl, rfl⟩ | ⟨here, _⟩
    · rw [same] at is
      rcases mine with stamps | keeps | restamps
      · exact .inl (stamps old)
      · rcases kept.passed lake member quiet old here is with stamped | passed
        · exact .inl ((keeps old).trans stamped)
        · have stays : position field (f old) = position field old := by
            unfold position
            rw [keeps, same]
          refine .inr fun behind => passed fun c cursor => ?_
          rw [← stays]
          exact behind c cursor
      · exact absurd (is ▸ restamps) unstamped
    · exact kept.passed lake member quiet now here is
  once := fun id quiet => kept.once id (before_event quiet).1
  waiting := by
    intro lake member active quiet
    obtain ⟨quiet, untouched⟩ := before_event quiet
    rcases kept.waiting lake member active quiet with returned | ⟨here, unread, behind⟩
    · exact .inl returned
    · refine .inr ⟨(updated same).2.2 lake here fun is => ?_, unread, behind⟩
      rcases outside with returned | touches
      · exact unread (is ▸ returned)
      · exact untouched (is ▸ touches)

theorem kept_add {new : Lake Id} (kept : Kept field runAt stored events s) (fresh : new.id ∉ s.lakes.map (·.id)) :
    Kept field runAt stored (events ++ [.add new]) (s.apply field runAt (.add new)) where
  distinct := by
    show ((s.lakes ++ [new]).map (·.id)).Nodup
    rw [List.map_append]
    exact kept.distinct.append (List.nodup_singleton _) (List.disjoint_singleton.mpr fresh)
  known := by
    intro lake member
    show lake.id ∈ (s.lakes ++ [new]).map (·.id)
    rw [List.map_append]
    exact List.mem_append_left _ (kept.known lake member)
  passed := by
    intro lake member quiet now stored same
    rcases List.mem_append.mp stored with old | added
    · exact kept.passed lake member (before_event quiet).1 now old same
    · rw [List.mem_singleton.mp added] at same
      exact absurd (same ▸ kept.known lake member) fresh
  once := fun id quiet => kept.once id (before_event quiet).1
  waiting := by
    intro lake member active quiet
    exact (kept.waiting lake member active (before_event quiet).1).imp_right fun ⟨here, rest⟩ => ⟨List.mem_append_left _ here, rest⟩

end Steps

theorem kept_of_run (older : Stored field runAt stored) (run : Runs field runAt stored events s) : Kept field runAt stored events s := by
  induction run with
  | start => exact kept_start older
  | @next events s event run allows kept =>
    cases event with
    | read limit => exact kept_read older kept
    | mark id =>
      rw [mark_eq]
      exact kept_update kept (fun _ => setStamp_id) (.inl fun _ => setStamp_stamp) (.inl allows)
    | add lake => exact kept_add kept allows
    | setActive id active =>
      exact kept_update kept (fun _ => rfl) (.inr (.inl fun _ => by cases field <;> rfl)) (.inr rfl)
    | restamp id stamp => exact kept_update kept (fun _ => setStamp_id) (.inr (.inr rfl)) (.inr rfl)

/-! ### A run without other writers -/

/-- The active lakes in the order of their staleness. -/
def stalenessOrder (field : StampField) (stored : List (Lake Id)) : List (Lake Id) :=
  (stored.filter (·.active)).insertionSort (stalenessScanSort field · ·)

theorem stalenessOrder_due (older : Stored field runAt stored) : due field stored none runAt = stalenessOrder field stored := by
  unfold due stalenessOrder
  congr 1
  refine List.filter_congr fun lake member => ?_
  rw [Bool.eq_iff_iff, filter_iff]
  exact ⟨fun qualifies => qualifies.1, fun active =>
    ⟨active, fun stamped => lt_irrefl _ (older.older lake member runAt stamped), fun c none => (by cases none)⟩⟩

theorem due_mark {id : Id} (kept : Kept field runAt stored events s) (quiet : ∀ event ∈ events, ¬ event.restamps id)
    (returned : id ∈ s.returned.map (·.id)) :
    due field (s.apply field runAt (.mark id)).lakes s.cursor runAt = due field s.lakes s.cursor runAt := by
  rw [mark_eq]
  have change := @updated _ _ s id (fun lake => lake.setStamp field (.date runAt)) fun _ => setStamp_id
  refine due_unique (by rw [change.1]; exact kept.distinct) (due_sorted kept.distinct) fun lake => ?_
  rw [mem_due]
  constructor
  · rintro ⟨stored, active, fresh, behind⟩
    refine ⟨change.2.2 lake stored fun same => ?_, active, fresh, behind⟩
    obtain ⟨earlier, read, is⟩ := List.mem_map.mp returned
    rcases kept.passed earlier read (is ▸ quiet) lake stored (same.trans is.symm) with stamped | passed
    · exact fresh stamped
    · exact passed behind
  · rintro ⟨stored, active, fresh, behind⟩
    rcases change.2.1 lake stored with ⟨old, _, _, rfl⟩ | ⟨old, _⟩
    · exact absurd setStamp_stamp fresh
    · exact ⟨old, active, fresh, behind⟩

/-- What a run on its own has returned and what is still to be found make up the whole order. -/
theorem lone_whole (older : Stored field runAt stored) (run : Runs field runAt stored events s) (alone : ∀ event ∈ events, event.own = true) :
    s.returned ++ due field s.lakes s.cursor runAt = stalenessOrder field stored := by
  induction run with
  | start => exact stalenessOrder_due older
  | @next events s event run allows ih =>
    have kept := kept_of_run older run
    have whole := ih fun event member => alone event (List.mem_append_left _ member)
    cases event with
    | read limit =>
      have rest := @due_read _ _ field runAt s limit kept.distinct
      show (s.apply field runAt (.read limit)).returned ++ due field s.lakes (s.apply field runAt (.read limit)).cursor runAt = _
      rw [returned_read, rest, List.append_assoc, page_take, List.take_append_drop]
      exact whole
    | mark id =>
      have quiet : ∀ event ∈ events, ¬ event.restamps id := by
        intro event member restamps
        have own := alone event (List.mem_append_left _ member)
        cases event with
        | restamp other stamp => cases own
        | _ => exact restamps
      have rest := due_mark kept quiet allows
      show s.returned ++ due field (s.apply field runAt (.mark id)).lakes s.cursor runAt = _
      rw [rest]
      exact whole
    | add lake => exact absurd (alone _ (List.mem_append_right _ List.mem_cons_self)) Bool.false_ne_true
    | setActive id active => exact absurd (alone _ (List.mem_append_right _ List.mem_cons_self)) Bool.false_ne_true
    | restamp id stamp => exact absurd (alone _ (List.mem_append_right _ List.mem_cons_self)) Bool.false_ne_true

theorem runs_fold (run : Runs field runAt stored events s) : s = events.foldl (Sweep.apply field runAt) ⟨stored, none, []⟩ := by
  induction run with
  | start => rfl
  | next run allows ih => rw [List.foldl_append, ← ih]; rfl

theorem pages_grow {later : List (Event Id)} : s.pages <+: (later.foldl (Sweep.apply field runAt) s).pages := by
  induction later generalizing s with
  | nil => exact List.prefix_rfl
  | cons event later ih =>
    have step : s.pages <+: (s.apply field runAt event).pages := by
      cases event with
      | read limit => exact List.prefix_append _ _
      | _ => exact List.prefix_rfl
    exact step.trans ih

theorem lone_progress (older : Stored field runAt stored) (run : Runs field runAt stored events s) (alone : ∀ event ∈ events, event.own = true) :
    due field s.lakes s.cursor runAt = [] ∨ (events.filter Event.isRead).length ≤ s.returned.length := by
  induction run with
  | start => exact .inr (Nat.zero_le _)
  | @next events s event run allows ih =>
    have kept := kept_of_run older run
    have early := lone_whole older run fun event member => alone event (List.mem_append_left _ member)
    have whole := lone_whole older (.next run allows) alone
    have progress := ih fun event member => alone event (List.mem_append_left _ member)
    rw [List.filter_append, List.length_append]
    cases event with
    | read limit =>
      have positive : 0 < limit := allows
      have rest := @due_read _ _ field runAt s limit kept.distinct
      show due field s.lakes (s.apply field runAt (.read limit)).cursor runAt = [] ∨ _ + 1 ≤ _
      rw [rest, returned_read, List.length_append, page_take, List.length_take]
      rcases progress with none | counted
      · rw [none]
        exact .inl List.drop_nil
      · by_cases last : (due field s.lakes s.cursor runAt).length ≤ limit
        · exact .inl (List.drop_eq_nil_of_le last)
        · right
          omega
    | mark id =>
      have same : s.returned ++ due field (s.apply field runAt (.mark id)).lakes s.cursor runAt =
          s.returned ++ due field s.lakes s.cursor runAt := whole.trans early.symm
      have same := List.append_cancel_left same
      show due field (s.apply field runAt (.mark id)).lakes s.cursor runAt = [] ∨ _
      rw [same]
      exact progress
    | add lake => exact absurd (alone _ (List.mem_append_right _ List.mem_cons_self)) Bool.false_ne_true
    | setActive id active => exact absurd (alone _ (List.mem_append_right _ List.mem_cons_self)) Bool.false_ne_true
    | restamp id stamp => exact absurd (alone _ (List.mem_append_right _ List.mem_cons_self)) Bool.false_ne_true

/-! ### Each lake once -/

/-- What a run without other writers returns. -/
structure LoneSweep (field : StampField) (runAt : Time) (stored : List (Lake Id)) (events : List (Event Id)) (s : Sweep Id) : Prop where
  ordered : s.returned.Pairwise fun a b => position field a < position field b
  sound : ∀ lake ∈ s.returned, lake ∈ stored ∧ lake.active = true
  once : hasMoreDue field s.lakes s.cursor runAt = false → ∀ lake ∈ stored, lake.active = true →
    ∃! i : Nat, ∃ page, s.pages[i]? = some page ∧ lake ∈ page
  ends : (stored.filter (·.active)).length ≤ (events.filter Event.isRead).length → hasMoreDue field s.lakes s.cursor runAt = false
  more : hasMoreDue field s.lakes s.cursor runAt = true ↔ ∃ later s', Runs field runAt stored (events ++ later) s' ∧
    (∀ event ∈ later, event.own = true) ∧ ∃ page ∈ s'.pages.drop s.pages.length, page ≠ []

/-- What a run returns while other writers add, archive and stamp lakes. A page with fewer lakes than it has room for is the last. -/
structure SharedSweep (field : StampField) (runAt : Time) (stored : List (Lake Id)) (events : List (Event Id)) (s : Sweep Id) : Prop where
  atMostOnce : ∀ id, (∀ event ∈ events, ¬ event.restamps id) → (s.returned.map (·.id)).count id ≤ 1
  complete : hasMoreDue field s.lakes s.cursor runAt = false → ∀ lake ∈ stored, lake.active = true →
    (∀ event ∈ events, ¬ event.touches lake.id) → lake ∈ s.returned ∧ (s.returned.map (·.id)).count lake.id = 1
  last : ∀ limit, (s.page field runAt limit).length < limit →
    hasMoreDue field (s.apply field runAt (.read limit)).lakes (s.apply field runAt (.read limit)).cursor runAt = false

theorem hasMoreDue_false {lakes : List (Lake Id)} {cursor : Option (Cursor Id)} :
    hasMoreDue field lakes cursor runAt = false ↔ due field lakes cursor runAt = [] := by
  rw [← Bool.not_eq_true, hasMoreDue_iff, not_not]

theorem shared_sweep (older : Stored field runAt stored) (run : Runs field runAt stored events s) :
    SharedSweep field runAt stored events s where
  atMostOnce := (kept_of_run older run).once
  complete := by
    intro finished lake member active quiet
    have kept := kept_of_run older run
    have unstamped : ∀ event ∈ events, ¬ event.restamps lake.id := by
      intro event inside restamps
      refine quiet event inside ?_
      cases event with
      | restamp other stamp => exact restamps
      | _ => cases restamps
    rcases kept.waiting lake member active quiet with returned | ⟨here, _, behind⟩
    · have some := List.count_pos_iff.mpr (List.mem_map_of_mem (f := (·.id)) returned)
      have few := kept.once lake.id unstamped
      exact ⟨returned, by omega⟩
    · have fresh : lake.stamp field ≠ .date runAt := fun stamped => lt_irrefl _ (older.older lake member runAt stamped)
      have found := (@mem_due _ _ field lake s.cursor runAt s.lakes).mpr ⟨here, active, fresh, behind⟩
      rw [hasMoreDue_false.mp finished] at found
      cases found
  last := by
    intro limit short
    rw [hasMoreDue_false]
    show due field s.lakes (s.apply field runAt (.read limit)).cursor runAt = []
    rw [due_read (kept_of_run older run).distinct]
    rw [page_take, List.length_take] at short
    exact List.drop_eq_nil_of_le (by omega)

theorem lone_sweep (older : Stored field runAt stored) (run : Runs field runAt stored events s) (alone : ∀ event ∈ events, event.own = true) :
    LoneSweep field runAt stored events s := by
  have whole := lone_whole older run alone
  have sorted : (stalenessOrder field stored).Pairwise fun a b => position field a < position field b := by
    rw [← stalenessOrder_due older]
    exact due_sorted older.distinct
  have ordered : s.returned.Pairwise fun a b => position field a < position field b := by
    rw [← whole] at sorted
    exact (List.pairwise_append.mp sorted).1
  refine ⟨ordered, fun lake member => ?_, fun finished lake member active => ?_, fun enough => ?_, ?_⟩
  · have inside : lake ∈ stalenessOrder field stored := whole ▸ List.mem_append_left _ member
    unfold stalenessOrder at inside
    rw [List.mem_insertionSort, List.mem_filter] at inside
    exact inside
  · rw [hasMoreDue_false.mp finished, List.append_nil] at whole
    have inside : lake ∈ s.returned := by
      rw [whole]
      unfold stalenessOrder
      rw [List.mem_insertionSort, List.mem_filter]
      exact ⟨member, active⟩
    obtain ⟨page, read, here⟩ := List.mem_flatten.mp inside
    obtain ⟨i, bound, at_⟩ := List.mem_iff_getElem.mp read
    have apart : s.pages.Pairwise List.Disjoint := by
      have distinct : s.returned.Nodup := ordered.imp fun {a b} earlier => by
        rintro rfl
        exact lt_irrefl _ earlier
      exact (List.nodup_flatten.mp distinct).2
    refine ⟨i, ⟨page, List.getElem?_eq_some_iff.mpr ⟨bound, at_⟩, here⟩, ?_⟩
    rintro j ⟨page', at', here'⟩
    obtain ⟨bound', at'⟩ := List.getElem?_eq_some_iff.mp at'
    rcases Nat.lt_trichotomy j i with less | same | more
    · have disjoint := List.pairwise_iff_getElem.mp apart j i bound' bound less
      rw [at_, at'] at disjoint
      exact (disjoint here' here).elim
    · exact same
    · have disjoint := List.pairwise_iff_getElem.mp apart i j bound bound' more
      rw [at_, at'] at disjoint
      exact (disjoint here here').elim
  · rw [hasMoreDue_false]
    rcases lone_progress older run alone with none | counted
    · exact none
    · have total := congrArg List.length whole
      rw [List.length_append, stalenessOrder, List.length_insertionSort] at total
      exact List.length_eq_zero_iff.mp (by omega)
  · rw [hasMoreDue_iff]
    constructor
    · intro some
      refine ⟨[.read 1], _, .next run (show 0 < 1 by decide), by simp [Event.own], s.page field runAt 1, ?_, ?_⟩
      · show s.page field runAt 1 ∈ (s.pages ++ [s.page field runAt 1]).drop s.pages.length
        rw [List.drop_left]
        exact List.mem_cons_self
      · obtain ⟨first, rest, split⟩ := List.exists_cons_of_ne_nil some
        rw [page_take, split]
        exact List.cons_ne_nil _ _
    · rintro ⟨later, s', run', own, page, new, some⟩ none
      have whole' := lone_whole older run' fun event member => (List.mem_append.mp member).elim (alone event) (own event)
      have same := runs_fold run'
      rw [List.foldl_append, ← runs_fold run] at same
      obtain ⟨fresh, grown⟩ := same ▸ @pages_grow _ _ field runAt s later
      have returned : s'.returned = s.returned ++ fresh.flatten := by
        unfold Sweep.returned
        rw [← grown, List.flatten_append]
      rw [returned, List.append_assoc, ← whole, none] at whole'
      have empty := (List.append_eq_nil_iff.mp (List.append_cancel_left whole')).1
      rw [← grown, List.drop_left] at new
      exact some (List.flatten_eq_nil_iff.mp empty page new)

theorem sweep_returns_each_once (older : Stored field runAt stored) (run : Runs field runAt stored events s) :
    SharedSweep field runAt stored events s ∧
      ((∀ event ∈ events, event.own = true) → LoneSweep field runAt stored events s) :=
  ⟨shared_sweep older run, lone_sweep older run⟩

namespace Sample

def dated (id : Nat) (stamp : Stamp) : Lake Nat := ⟨id, true, stamp, .missing⟩

def lakes : List (Lake Nat) := [dated 1 (.date 5), dated 2 .null, dated 3 .missing]

/-- Two pages, with the first lake stamped between them. -/
def happened : List (Event Nat) := [.read 1, .mark 2, .read 4]

end Sample

theorem three_lakes_swept : ∃ s, LoneSweep .lastHealthCheckedAt 10 Sample.lakes Sample.happened s ∧
    s.returned.map (·.id) = [2, 3, 1] := by
  have stored : Stored .lastHealthCheckedAt 10 Sample.lakes := by
    refine ⟨by decide, fun lake member at_ stamped => ?_⟩
    simp only [Sample.lakes, List.mem_cons, List.not_mem_nil, or_false] at member
    rcases member with rfl | rfl | rfl
    · cases stamped
      decide
    · cases stamped
    · cases stamped
  have first := @Runs.next _ _ .lastHealthCheckedAt 10 Sample.lakes _ _ (.read 1) .start (show 0 < 1 by decide)
  have stamped := @Runs.next _ _ _ _ _ _ _ (.mark 2) first (show 2 ∈ _ by decide +kernel)
  have run := @Runs.next _ _ _ _ _ _ _ (.read 4) stamped (show 0 < 4 by decide)
  exact ⟨_, (sweep_returns_each_once stored run).2 (by decide), by decide +kernel⟩

end Bike4Mind.StalenessSweep
