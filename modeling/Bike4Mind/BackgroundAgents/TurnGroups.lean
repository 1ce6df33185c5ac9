import Bike4Mind.BackgroundAgents.JobSlots

/-! What the turn groups and the notifications account for, seen apart from how the jobs are kept. -/

namespace Bike4Mind.BackgroundAgents

open Collections

inductive Stage where
  | active
  | done
  | cancelled
  deriving DecidableEq

def stageOf : BackgroundAgentStatus → Stage
  | .queued | .running => .active
  | .completed | .failed => .done
  | .cancelled => .cancelled

/-- What the accounts read of a job. -/
structure Shape where
  id : String
  turn : Option String
  stage : Stage

def shapeOf (internal : InternalJob) : Shape := ⟨internal.job.id, Manager.truthy internal.job.turnId, stageOf internal.job.status⟩

def TurnGroup.told (group : TurnGroup) : List String := group.notifications.map fun notification => notification.jobId

def reportedBy : Notification → List String
  | .immediate jobId _ => [jobId]
  | .consolidated group _ _ => group.told

def serial? : Notification → Option Nat
  | .immediate _ _ => none
  | .consolidated group _ _ => some group.serial

/-- The jobs, the delegations under way, the open groups and everything reported so far. -/
structure Book where
  shapes : Nat → Option Shape
  held : String → Option Nat
  flight : Nat → Prop
  turnGroups : OrderedMap String TurnGroup
  issued : List Notification
  opened : Nat

namespace Book

def reported (b : Book) : List String := b.issued.flatMap reportedBy

def serials (b : Book) : List Nat := b.issued.filterMap serial?

def Unsettled (b : Book) (id : String) : Prop := ∃ p shape, b.shapes p = some shape ∧ shape.id = id ∧ (shape.stage = .active ∨ b.flight p)

/-- A job that was cancelled while its delegation was under way, and whose delegation still is. -/
def Aborted (b : Book) (id : String) : Prop := ∃ p shape, b.shapes p = some shape ∧ shape.id = id ∧ shape.stage = .cancelled ∧ b.flight p

structure Sound (b : Book) : Prop where
  ids : ∀ p q one two, b.shapes p = some one → b.shapes q = some two → one.id = two.id → p = q
  members : ∀ t g, b.turnGroups.get? t = some g → ∀ id ∈ g.jobIds,
    ∃ p shape, b.held id = some p ∧ b.shapes p = some shape ∧ shape.id = id ∧ shape.turn = some t
  joined : ∀ p shape t, b.shapes p = some shape → shape.stage = .active → shape.turn = some t →
    ∃ g, b.turnGroups.get? t = some g ∧ shape.id ∈ g.jobIds
  told : ∀ t g, b.turnGroups.get? t = some g → ∀ p shape, b.shapes p = some shape → shape.id ∈ g.jobIds →
    (shape.id ∈ g.told ↔ shape.stage = .done)
  tellers : ∀ t g, b.turnGroups.get? t = some g → ∀ id ∈ g.told, id ∈ g.jobIds
  toldOnce : ∀ t g, b.turnGroups.get? t = some g → g.told.Nodup
  dropped : ∀ t g, b.turnGroups.get? t = some g → ∀ p shape, b.shapes p = some shape → shape.id ∈ g.jobIds → shape.stage = .cancelled → b.flight p
  active : ∀ t g, b.turnGroups.get? t = some g → ∃ id ∈ g.jobIds, b.Unsettled id
  fresh : ∀ t g, b.turnGroups.get? t = some g → ∀ id ∈ g.jobIds, id ∉ b.reported
  once : b.reported.Nodup
  known : ∀ id ∈ b.reported, ∃ p shape, b.shapes p = some shape ∧ shape.id = id ∧ shape.stage ≠ .active
  closed : ∀ g tokens credits, .consolidated g tokens credits ∈ b.issued → ∀ id ∈ g.jobIds, id ∈ g.told ∨ b.Aborted id
  openBelow : ∀ t g, b.turnGroups.get? t = some g → g.serial < b.opened ∧ g.serial ∉ b.serials
  apart : ∀ t t' g g', b.turnGroups.get? t = some g → b.turnGroups.get? t' = some g' → g.serial = g'.serial → t = t'
  closedOnce : b.serials.Nodup
  closedBelow : ∀ serial ∈ b.serials, serial < b.opened
  every : ∀ serial < b.opened, (∃ t g, b.turnGroups.get? t = some g ∧ g.serial = serial) ∨ serial ∈ b.serials

/-- What the book owes one open group. -/
structure Grouped (b : Book) (t : String) (g : TurnGroup) : Prop where
  members : ∀ id ∈ g.jobIds, ∃ p shape, b.held id = some p ∧ b.shapes p = some shape ∧ shape.id = id ∧ shape.turn = some t
  told : ∀ p shape, b.shapes p = some shape → shape.id ∈ g.jobIds → (shape.id ∈ g.told ↔ shape.stage = .done)
  tellers : ∀ id ∈ g.told, id ∈ g.jobIds
  toldOnce : g.told.Nodup
  dropped : ∀ p shape, b.shapes p = some shape → shape.id ∈ g.jobIds → shape.stage = .cancelled → b.flight p
  active : ∃ id ∈ g.jobIds, b.Unsettled id
  fresh : ∀ id ∈ g.jobIds, id ∉ b.reported
  openBelow : g.serial < b.opened ∧ g.serial ∉ b.serials

/-- The book with one job at another stage. -/
def moved (b : Book) (p : Nat) (shape : Shape) (stage : Stage) : Book :=
  { b with shapes := Function.update b.shapes p (some { shape with stage }) }

section Moves
variable {b : Book} {p : Nat} {shape : Shape} {stage : Stage}

theorem moved_at : (b.moved p shape stage).shapes p = some { shape with stage } := Function.update_self ..

theorem moved_other {q : Nat} (other : q ≠ p) : (b.moved p shape stage).shapes q = b.shapes q := Function.update_of_ne other ..

theorem moved_from (here : b.shapes p = some shape) {q : Nat} {one : Shape} (there : (b.moved p shape stage).shapes q = some one) :
    (q = p ∧ one = { shape with stage }) ∨ (q ≠ p ∧ b.shapes q = some one) := by
  by_cases same : q = p
  · subst same
    rw [moved_at] at there
    cases there
    exact .inl ⟨rfl, rfl⟩
  · rw [moved_other same] at there
    exact .inr ⟨same, there⟩

theorem moved_ids (sound : b.Sound) (here : b.shapes p = some shape) (q r : Nat) (one two : Shape)
    (there : (b.moved p shape stage).shapes q = some one) (there' : (b.moved p shape stage).shapes r = some two) (same : one.id = two.id) : q = r := by
  rcases moved_from here there with ⟨rfl, rfl⟩ | ⟨_, old⟩ <;> rcases moved_from here there' with ⟨rfl, rfl⟩ | ⟨_, old'⟩
  · rfl
  · exact sound.ids _ _ _ _ here old' same
  · exact sound.ids _ _ _ _ old here same
  · exact sound.ids _ _ _ _ old old' same

theorem moved_held (here : b.shapes p = some shape) {id t : String}
    (member : ∃ q one, b.held id = some q ∧ b.shapes q = some one ∧ one.id = id ∧ one.turn = some t) :
    ∃ q one, b.held id = some q ∧ (b.moved p shape stage).shapes q = some one ∧ one.id = id ∧ one.turn = some t := by
  obtain ⟨q, one, held, there, named, turn⟩ := member
  by_cases same : q = p
  · subst same
    cases here.symm.trans there
    exact ⟨q, _, held, moved_at, named, turn⟩
  · exact ⟨q, one, held, (moved_other same).trans there, named, turn⟩

theorem moved_known (here : b.shapes p = some shape) (finished : stage ≠ .active) {id : String}
    (known : ∃ q one, b.shapes q = some one ∧ one.id = id ∧ one.stage ≠ .active) :
    ∃ q one, (b.moved p shape stage).shapes q = some one ∧ one.id = id ∧ one.stage ≠ .active := by
  obtain ⟨q, one, there, named, ended⟩ := known
  by_cases same : q = p
  · subst same
    cases here.symm.trans there
    exact ⟨q, _, moved_at, named, finished⟩
  · exact ⟨q, one, (moved_other same).trans there, named, ended⟩

end Moves

theorem Sound.member_turn {b : Book} {p : Nat} {shape : Shape} {t : String} {g : TurnGroup} (sound : b.Sound) (open' : b.turnGroups.get? t = some g) (here : b.shapes p = some shape) (member : shape.id ∈ g.jobIds) :
    shape.turn = some t := by
  obtain ⟨q, other, _, there, named, turn⟩ := sound.members t g open' _ member
  cases sound.ids q p other shape there here named
  cases here.symm.trans there
  exact turn

/-! ### Steps -/

theorem Sound.advance {b : Book} (sound : b.Sound) (flight : Nat → Prop) (more : ∀ p, b.flight p → flight p) : Sound { b with flight := flight } :=
  { sound with
    dropped := fun t g held p shape here member stage => more p (sound.dropped t g held p shape here member stage)
    active := fun t g held =>
      let ⟨id, member, p, shape, here, named, open'⟩ := sound.active t g held
      ⟨id, member, p, shape, here, named, open'.imp_right (more p)⟩
    closed := fun g tokens credits issued id member => (sound.closed g tokens credits issued id member).imp_right
      fun ⟨p, shape, here, named, stage, under⟩ => ⟨p, shape, here, named, stage, more p under⟩ }

theorem Sound.forget {b : Book} (sound : b.Sound) (held : String → Option Nat) (less : ∀ id, held id = b.held id ∨ held id = none)
    (spared : ∀ t g, b.turnGroups.get? t = some g → ∀ id ∈ g.jobIds, held id ≠ none) : Sound { b with held := held } :=
  { sound with
    members := fun t g open' id member =>
      let ⟨p, shape, there, rest⟩ := sound.members t g open' id member
      ⟨p, shape, ((less id).resolve_right (spared t g open' id member)).trans there, rest⟩ }

theorem Sound.cancel {b : Book} (sound : b.Sound) {p : Nat} {shape : Shape} (here : b.shapes p = some shape) (live : shape.stage = .active)
    (apart : shape.turn = none ∨ b.flight p) : (b.moved p shape .cancelled).Sound := by
  have under : ∀ t g, b.turnGroups.get? t = some g → shape.id ∈ g.jobIds → b.flight p := by
    intro t g open' member
    refine apart.resolve_left fun none => ?_
    cases (sound.member_turn open' here member).symm.trans none
  exact
    { sound with
      ids := moved_ids sound here
      members := fun t g open' id member => moved_held here (sound.members t g open' id member)
      joined := by
        intro q one t there stage turn
        rcases moved_from here there with ⟨_, rfl⟩ | ⟨_, old⟩
        · cases stage
        · exact sound.joined q one t old stage turn
      told := by
        intro t g open' q one there member
        rcases moved_from here there with ⟨_, rfl⟩ | ⟨_, old⟩
        · have before := sound.told t g open' p shape here member
          rw [live] at before
          exact ⟨fun told => (by cases before.mp told), fun stage => by cases stage⟩
        · exact sound.told t g open' q one old member
      dropped := by
        intro t g open' q one there member stage
        rcases moved_from here there with ⟨rfl, rfl⟩ | ⟨_, old⟩
        · exact under t g open' member
        · exact sound.dropped t g open' q one old member stage
      active := by
        intro t g open'
        obtain ⟨id, member, q, one, there, rfl, unsettled⟩ := sound.active t g open'
        by_cases same : q = p
        · subst same
          cases here.symm.trans there
          exact ⟨_, member, q, _, moved_at, rfl, .inr (under t g open' member)⟩
        · exact ⟨_, member, q, one, (moved_other same).trans there, rfl, unsettled⟩
      known := fun id reported => moved_known here (by decide) (sound.known id reported)
      closed := by
        intro g tokens credits issued id member
        refine (sound.closed g tokens credits issued id member).imp_right fun ⟨q, one, there, named, stage, under⟩ => ?_
        by_cases same : q = p
        · subst same
          cases here.symm.trans there
          rw [live] at stage
          cases stage
        · exact ⟨q, one, (moved_other same).trans there, named, stage, under⟩ }

/-! ### A delegation settles -/

/-- The book with the delegation of a job ended. -/
def settled (b : Book) (p : Nat) (shape : Shape) : Book := { b.moved p shape .done with flight := fun q => b.flight q ∧ q ≠ p }

def tell (group : TurnGroup) (notification : TurnGroupNotification) : TurnGroup := { group with notifications := group.notifications ++ [notification] }

theorem told_tell (group : TurnGroup) (notification : TurnGroupNotification) : (tell group notification).told = group.told ++ [notification.jobId] :=
  List.map_append

section Settle
variable {b : Book} {p : Nat} {shape : Shape} {t : String} {g : TurnGroup} {groups : OrderedMap String TurnGroup}

theorem aborted_settled (here : b.shapes p = some shape) (live : shape.stage = .active) {id : String} (aborted : b.Aborted id) :
    (b.settled p shape).Aborted id := by
  obtain ⟨q, one, there, named, stage, under⟩ := aborted
  by_cases same : q = p
  · subst same
    cases here.symm.trans there
    rw [live] at stage
    cases stage
  · exact ⟨q, one, (moved_other same).trans there, named, stage, under, same⟩

theorem unsettled_settled (here : b.shapes p = some shape) {id : String} (unsettled : b.Unsettled id) (other : id ≠ shape.id) :
    (b.settled p shape).Unsettled id := by
  obtain ⟨q, one, there, named, open'⟩ := unsettled
  by_cases same : q = p
  · subst same
    cases here.symm.trans there
    exact (other named.symm).elim
  · exact ⟨q, one, (moved_other same).trans there, named, open'.imp_right fun under => ⟨under, same⟩⟩

theorem Sound.dropped_settled (sound : b.Sound) (here : b.shapes p = some shape) (open' : b.turnGroups.get? t = some g) (q : Nat) (one : Shape)
    (there : (b.settled p shape).shapes q = some one) (member : one.id ∈ g.jobIds) (stage : one.stage = .cancelled) :
    (b.settled p shape).flight q := by
  rcases moved_from here there with ⟨_, rfl⟩ | ⟨apart, old⟩
  · cases stage
  · exact ⟨sound.dropped t g open' q one old member stage, apart⟩

theorem unreported (sound : b.Sound) (here : b.shapes p = some shape) (live : shape.stage = .active) : shape.id ∉ b.reported := by
  intro reported
  obtain ⟨q, one, there, named, ended⟩ := sound.known _ reported
  cases sound.ids q p one shape there here named
  cases here.symm.trans there
  exact ended live

theorem Sound.grouped_elsewhere (sound : b.Sound) (here : b.shapes p = some shape) (open' : b.turnGroups.get? t = some g)
    (other : shape.turn ≠ some t) {issued : List Notification} (fresh : ∀ id ∈ g.jobIds, id ∉ issued.flatMap reportedBy)
    (unclosed : g.serial ∉ issued.filterMap serial?) : Grouped { b.settled p shape with turnGroups := groups, issued := issued } t g where
  members id member := moved_held here (sound.members t g open' id member)
  told q one there member := by
    rcases moved_from here there with ⟨_, rfl⟩ | ⟨_, old⟩
    · exact (other (sound.member_turn open' here member)).elim
    · exact sound.told t g open' q one old member
  tellers := sound.tellers t g open'
  toldOnce := sound.toldOnce t g open'
  dropped := sound.dropped_settled here open'
  active := by
    obtain ⟨id, member, unsettled⟩ := sound.active t g open'
    refine ⟨id, member, unsettled_settled here unsettled fun same => ?_⟩
    exact other (sound.member_turn open' here (same ▸ member))
  fresh := fresh
  openBelow := ⟨(sound.openBelow t g open').1, unclosed⟩

/-- The book after a delegation: an open group stays, or is closed with all its jobs ended and told in what is issued. -/
theorem Sound.settle (sound : b.Sound) (here : b.shapes p = some shape) (live : shape.stage = .active) {extra : List Notification}
    (grouped : ∀ u g, groups.get? u = some g → Grouped { b.settled p shape with turnGroups := groups, issued := b.issued ++ extra } u g)
    (origin : ∀ u g, groups.get? u = some g → ∃ old : TurnGroup, b.turnGroups.get? u = some old ∧ old.serial = g.serial)
    (kept : ∀ u old, b.turnGroups.get? u = some old →
      (∃ g, groups.get? u = some g ∧ g.serial = old.serial ∧ g.jobIds = old.jobIds) ∨ old.serial ∈ extra.filterMap serial? ∧
        ∀ q one, (b.settled p shape).shapes q = some one → one.id ∈ old.jobIds → one.stage ≠ .active)
    (once : (extra.flatMap reportedBy).Nodup) (fresh : ∀ id ∈ extra.flatMap reportedBy, id ∉ b.reported)
    (known : ∀ id ∈ extra.flatMap reportedBy, ∃ q one, (b.settled p shape).shapes q = some one ∧ one.id = id ∧ one.stage ≠ .active)
    (closed : ∀ g tokens credits, .consolidated g tokens credits ∈ extra → ∀ id ∈ g.jobIds, id ∈ g.told ∨ (b.settled p shape).Aborted id)
    (serials : (extra.filterMap serial?).Nodup) (closing : ∀ serial ∈ extra.filterMap serial?, serial < b.opened ∧ serial ∉ b.serials) :
    Sound { b.settled p shape with turnGroups := groups, issued := b.issued ++ extra } where
  ids := moved_ids sound here
  members u g found := (grouped u g found).members
  joined := by
    intro q one u there stage turn
    rcases moved_from here there with ⟨_, rfl⟩ | ⟨_, old⟩
    · cases stage
    · obtain ⟨g, found, member⟩ := sound.joined q one u old stage turn
      rcases kept u g found with ⟨g', found', _, jobs⟩ | ⟨_, ended⟩
      · exact ⟨g', found', jobs ▸ member⟩
      · exact (ended q one there member stage).elim
  told u g found := (grouped u g found).told
  tellers u g found := (grouped u g found).tellers
  toldOnce u g found := (grouped u g found).toldOnce
  dropped u g found := (grouped u g found).dropped
  active u g found := (grouped u g found).active
  fresh u g found := (grouped u g found).fresh
  once := by
    show ((b.issued ++ extra).flatMap reportedBy).Nodup
    rw [List.flatMap_append, List.nodup_append']
    exact ⟨sound.once, once, fun id before new => fresh id new before⟩
  known := by
    intro id reported
    change id ∈ (b.issued ++ extra).flatMap reportedBy at reported
    rw [List.flatMap_append, List.mem_append] at reported
    exact reported.elim (fun before => moved_known here (by decide) (sound.known id before)) (known id)
  closed := by
    intro g tokens credits issued id member
    rcases List.mem_append.mp issued with old | new
    · exact (sound.closed g tokens credits old id member).imp_right (aborted_settled here live)
    · exact closed g tokens credits new id member
  openBelow u g found := (grouped u g found).openBelow
  apart := by
    intro u u' g g' found found' same
    obtain ⟨old, there, serial⟩ := origin u g found
    obtain ⟨old', there', serial'⟩ := origin u' g' found'
    exact sound.apart u u' old old' there there' (serial.trans (same.trans serial'.symm))
  closedOnce := by
    show ((b.issued ++ extra).filterMap serial?).Nodup
    rw [List.filterMap_append, List.nodup_append']
    exact ⟨sound.closedOnce, serials, fun serial before new => (closing serial new).2 before⟩
  closedBelow := by
    intro serial member
    change serial ∈ (b.issued ++ extra).filterMap serial? at member
    rw [List.filterMap_append, List.mem_append] at member
    exact member.elim (sound.closedBelow serial) fun new => (closing serial new).1
  every := by
    intro serial below
    change _ ∨ serial ∈ (b.issued ++ extra).filterMap serial?
    rw [List.filterMap_append, List.mem_append]
    rcases sound.every serial below with ⟨u, old, found, rfl⟩ | before
    · rcases kept u old found with ⟨g, there, same, _⟩ | ⟨new, _⟩
      · exact .inl ⟨u, g, there, same⟩
      · exact .inr (.inr new)
    · exact .inr (.inl before)

theorem Sound.finish_alone (sound : b.Sound) (here : b.shapes p = some shape) (live : shape.stage = .active) (alone : shape.turn = none) (content : String) :
    Sound { b.settled p shape with issued := b.issued ++ [.immediate shape.id content] } := by
  have outside : ∀ t, shape.turn ≠ some t := fun t same => by rw [alone] at same; cases same
  have told : [Notification.immediate shape.id content].flatMap reportedBy = [shape.id] := rfl
  refine sound.settle here live (fun u g found => sound.grouped_elsewhere here found (outside u) (fun id member reported => ?_) ?_)
    (fun u g found => ⟨g, found, rfl⟩) (fun u old found => .inl ⟨old, found, rfl, rfl⟩) (List.nodup_singleton _) (fun id member => ?_)
    (fun id member => ?_) (fun g tokens credits member => by cases List.mem_singleton.mp member) List.nodup_nil
    fun serial member => by cases member
  · rw [List.flatMap_append, told, List.mem_append, List.mem_singleton] at reported
    rcases reported with old | rfl
    · exact sound.fresh u g found id member old
    · exact outside u (sound.member_turn found here member)
  · rw [List.filterMap_append]
    exact List.not_mem_append (sound.openBelow u g found).2 List.not_mem_nil
  · exact List.mem_singleton.mp member ▸ unreported sound here live
  · exact ⟨p, _, moved_at, (List.mem_singleton.mp member).symm, by simp⟩

variable {notification : TurnGroupNotification}

theorem Sound.own_group (sound : b.Sound) (here : b.shapes p = some shape) (live : shape.stage = .active) (turn : shape.turn = some t)
    (open' : b.turnGroups.get? t = some g) : shape.id ∈ g.jobIds ∧ shape.id ∉ g.told := by
  have mine : shape.id ∈ g.jobIds := by
    obtain ⟨g', open'', member⟩ := sound.joined p shape t here live turn
    cases open'.symm.trans open''
    exact member
  refine ⟨mine, fun told => ?_⟩
  have stage := (sound.told t g open' p shape here mine).mp told
  rw [live] at stage
  cases stage

theorem Sound.finish_open (sound : b.Sound) (here : b.shapes p = some shape) (live : shape.stage = .active) (turn : shape.turn = some t)
    (open' : b.turnGroups.get? t = some g) (named : notification.jobId = shape.id)
    (left : ∃ id ∈ g.jobIds, (b.settled p shape).Unsettled id) :
    Sound { b.settled p shape with turnGroups := b.turnGroups.set t (tell g notification) } := by
  obtain ⟨mine, untold⟩ := sound.own_group here live turn open'
  have own : Grouped { b.settled p shape with turnGroups := b.turnGroups.set t (tell g notification) } t (tell g notification) :=
    { members := fun id member => moved_held here (sound.members _ g open' id member)
      told := by
        intro q one there member
        rw [told_tell, List.mem_append, List.mem_singleton, named]
        rcases moved_from here there with ⟨_, rfl⟩ | ⟨apart, old⟩
        · exact iff_of_true (.inr rfl) rfl
        · have different : one.id ≠ shape.id := fun same => apart (sound.ids q p one shape old here same)
          rw [or_iff_left different]
          exact sound.told _ g open' q one old member
      tellers := by
        intro id told
        rw [told_tell, List.mem_append, List.mem_singleton, named] at told
        exact told.elim (sound.tellers _ g open' id) fun last => last ▸ mine
      toldOnce := by
        rw [told_tell, named, ← List.concat_eq_append]
        exact List.Nodup.concat untold (sound.toldOnce _ g open')
      dropped := fun q one there member => sound.dropped_settled here open' q one there member
      active := left
      fresh := sound.fresh _ g open'
      openBelow := sound.openBelow _ g open' }
  have same : b.issued ++ [] = b.issued := List.append_nil _
  have settled := @settle b p shape (b.turnGroups.set t (tell g notification)) sound here live []
  rw [same] at settled
  refine settled (fun u g' found => ?_) (fun u g' found => ?_) (fun u old found => ?_) List.nodup_nil (List.forall_mem_nil _)
    (List.forall_mem_nil _) (fun _ _ _ member => by cases member) List.nodup_nil (List.forall_mem_nil _)
  · rcases OrderedMap.get?_set_some found with ⟨rfl, rfl⟩ | ⟨other, old⟩
    · exact own
    · exact sound.grouped_elsewhere here old (fun same => other (Option.some.inj (same.symm.trans turn))) (sound.fresh u g' old)
        (sound.openBelow u g' old).2
  · rcases OrderedMap.get?_set_some found with ⟨rfl, rfl⟩ | ⟨_, old⟩
    · exact ⟨g, open', rfl⟩
    · exact ⟨g', old, rfl⟩
  · left
    by_cases own : u = t
    · subst own
      cases open'.symm.trans found
      exact ⟨_, OrderedMap.get?_set_self, rfl, rfl⟩
    · exact ⟨old, (OrderedMap.get?_set_other own).trans found, rfl, rfl⟩

/-- The last job of a group closes it, and the group is reported. -/
theorem Sound.finish_closed (sound : b.Sound) (here : b.shapes p = some shape) (live : shape.stage = .active) (turn : shape.turn = some t)
    (open' : b.turnGroups.get? t = some g) (named : notification.jobId = shape.id)
    (rest : ∀ u, groups.get? u = if u = t then none else b.turnGroups.get? u) (tokens credits : Nat)
    (ended : ∀ q one, (b.settled p shape).shapes q = some one → one.id ∈ g.jobIds → one.stage ≠ .active) :
    Sound { b.settled p shape with turnGroups := groups, issued := b.issued ++ [.consolidated (tell g notification) tokens credits] } := by
  obtain ⟨mine, untold⟩ := sound.own_group here live turn open'
  have told : ∀ id, id ∈ [Notification.consolidated (tell g notification) tokens credits].flatMap reportedBy ↔ id ∈ g.told ∨ id = shape.id := by
    intro id
    rw [List.flatMap_singleton, ← named, ← List.mem_singleton, ← List.mem_append, ← told_tell]
    rfl
  have serials : [Notification.consolidated (tell g notification) tokens credits].filterMap serial? = [g.serial] := rfl
  have lookup : ∀ u g', groups.get? u = some g' → u ≠ t ∧ b.turnGroups.get? u = some g' := by
    intro u g' found
    rw [rest] at found
    split at found
    · cases found
    · rename_i other
      exact ⟨other, found⟩
  refine sound.settle here live (fun u g' found => ?_) (fun u g' found => ⟨g', (lookup u g' found).2, rfl⟩) (fun u old found => ?_) ?_
    (fun id member => ?_) (fun id member => ?_) (fun g' tokens' credits' member id among => ?_) (List.nodup_singleton _) fun serial member => ?_
  · obtain ⟨other, old⟩ := lookup u g' found
    have elsewhere : shape.turn ≠ some u := fun same => other (Option.some.inj (same.symm.trans turn))
    refine sound.grouped_elsewhere here old elsewhere (fun id member => ?_) ?_
    · rw [List.flatMap_append, List.mem_append, told]
      rintro (before | among | rfl)
      · exact sound.fresh u g' old id member before
      · obtain ⟨q, one, _, there, rfl, _⟩ := sound.members u g' old id member
        have one' := sound.member_turn old there member
        have two := sound.member_turn open' there (sound.tellers t g open' _ among)
        exact other (Option.some.inj (one'.symm.trans two))
      · exact elsewhere (sound.member_turn old here member)
    · rw [List.filterMap_append, serials, List.mem_append, List.mem_singleton]
      rintro (before | same)
      · exact (sound.openBelow u g' old).2 before
      · exact other (sound.apart u t g' g old open' same)
  · by_cases own : u = t
    · subst own
      cases open'.symm.trans found
      exact .inr ⟨List.mem_singleton_self _, ended⟩
    · exact .inl ⟨old, (rest u).trans ((if_neg own).trans found), rfl, rfl⟩
  · rw [List.flatMap_singleton]
    show (tell g notification).told.Nodup
    rw [told_tell, named, ← List.concat_eq_append]
    exact List.Nodup.concat untold (sound.toldOnce t g open')
  · rcases (told id).mp member with among | rfl
    · exact sound.fresh t g open' id (sound.tellers t g open' id among)
    · exact unreported sound here live
  · rcases (told id).mp member with among | rfl
    · have member := sound.tellers t g open' id among
      obtain ⟨q, one, _, there, rfl, _⟩ := sound.members t g open' id member
      have stage := (sound.told t g open' q one there member).mp among
      exact moved_known here (by decide) ⟨q, one, there, rfl, by rw [stage]; decide⟩
    · exact ⟨p, _, moved_at, rfl, by simp⟩
  · cases List.mem_singleton.mp member
    rw [told_tell, List.mem_append, List.mem_singleton, named]
    by_cases same : id = shape.id
    · exact .inl (.inr same)
    · obtain ⟨q, one, _, there, rfl, _⟩ := sound.members t g open' id among
      have apart : q ≠ p := by
        rintro rfl
        cases here.symm.trans there
        exact same rfl
      cases stage : one.stage with
      | active => exact (ended q one ((moved_other apart).trans there) among stage).elim
      | done => exact .inl (.inl ((sound.told t g open' q one there among).mpr stage))
      | cancelled =>
        exact .inr (aborted_settled here live ⟨q, one, there, rfl, stage, sound.dropped t g open' q one there among stage⟩)
  · cases List.mem_singleton.mp member
    exact sound.openBelow t g open'

end Settle

/-! ### A job is spawned -/

/-- The book with a job more, and the groups as the job leaves them. -/
def spawned (b : Book) (n : Nat) (shape : Shape) (held : String → Option Nat) (groups : OrderedMap String TurnGroup) (opened : Nat) : Book :=
  { b with
    shapes := Function.update b.shapes n (some shape)
    held
    turnGroups := groups
    opened }

/-- A place no job has, and an id none has had. -/
structure New (b : Book) (n : Nat) (shape : Shape) (held : String → Option Nat) : Prop where
  place : b.shapes n = none
  fresh : ∀ p one, b.shapes p = some one → one.id ≠ shape.id
  live : shape.stage = .active
  here : held shape.id = some n
  others : ∀ id, id ≠ shape.id → held id = b.held id

section Spawn
variable {b : Book} {n : Nat} {shape : Shape} {held : String → Option Nat} {groups : OrderedMap String TurnGroup} {opened : Nat}

theorem spawned_at : (b.spawned n shape held groups opened).shapes n = some shape := Function.update_self ..

theorem New.old (new : New b n shape held) {q : Nat} {one : Shape} (there : b.shapes q = some one) :
    (b.spawned n shape held groups opened).shapes q = some one := by
  have apart : q ≠ n := by
    rintro rfl
    rw [new.place] at there
    cases there
  exact (Function.update_of_ne apart ..).trans there

theorem spawned_from {q : Nat} {one : Shape} (there : (b.spawned n shape held groups opened).shapes q = some one) :
    (q = n ∧ one = shape) ∨ (q ≠ n ∧ b.shapes q = some one) := by
  by_cases same : q = n
  · subst same
    rw [spawned_at] at there
    cases there
    exact .inl ⟨rfl, rfl⟩
  · exact .inr ⟨same, (Function.update_of_ne same ..).symm.trans there⟩

theorem New.ids (new : New b n shape held) (sound : b.Sound) (q r : Nat) (one two : Shape)
    (there : (b.spawned n shape held groups opened).shapes q = some one) (there' : (b.spawned n shape held groups opened).shapes r = some two)
    (same : one.id = two.id) : q = r := by
  rcases spawned_from there with ⟨rfl, rfl⟩ | ⟨_, old⟩ <;> rcases spawned_from there' with ⟨rfl, rfl⟩ | ⟨_, old'⟩
  · rfl
  · exact (new.fresh r two old' same.symm).elim
  · exact (new.fresh q one old same).elim
  · exact sound.ids _ _ _ _ old old' same

theorem New.unsettled (new : New b n shape held) {id : String} (unsettled : b.Unsettled id) :
    (b.spawned n shape held groups opened).Unsettled id := by
  obtain ⟨q, one, there, named, open'⟩ := unsettled
  exact ⟨q, one, new.old there, named, open'⟩

theorem New.aborted (new : New b n shape held) {id : String} (aborted : b.Aborted id) :
    (b.spawned n shape held groups opened).Aborted id := by
  obtain ⟨q, one, there, named, stage, under⟩ := aborted
  exact ⟨q, one, new.old there, named, stage, under⟩

theorem New.member (new : New b n shape held) {id t : String}
    (member : ∃ q one, b.held id = some q ∧ b.shapes q = some one ∧ one.id = id ∧ one.turn = some t) :
    ∃ q one, held id = some q ∧ (b.spawned n shape held groups opened).shapes q = some one ∧ one.id = id ∧ one.turn = some t := by
  obtain ⟨q, one, found, there, named, turn⟩ := member
  exact ⟨q, one, (new.others id fun same => new.fresh q one there (named.trans same)).trans found, new.old there, named, turn⟩

theorem New.outside (new : New b n shape held) (sound : b.Sound) {t : String} {g : TurnGroup} (open' : b.turnGroups.get? t = some g) :
    shape.id ∉ g.jobIds := by
  intro member
  obtain ⟨q, one, _, there, named, _⟩ := sound.members t g open' _ member
  exact new.fresh q one there named

theorem New.unreported (new : New b n shape held) (sound : b.Sound) : shape.id ∉ b.reported := by
  intro reported
  obtain ⟨q, one, there, named, _⟩ := sound.known _ reported
  exact new.fresh q one there named

theorem New.grouped (new : New b n shape held) (sound : b.Sound) {t : String} {g : TurnGroup} (open' : b.turnGroups.get? t = some g)
    (more : b.opened ≤ opened) : Grouped (b.spawned n shape held groups opened) t g where
  members id member := new.member (sound.members t g open' id member)
  told := by
    intro q one there member
    rcases spawned_from there with ⟨_, rfl⟩ | ⟨_, old⟩
    · exact (new.outside sound open' member).elim
    · exact sound.told t g open' q one old member
  tellers := sound.tellers t g open'
  toldOnce := sound.toldOnce t g open'
  dropped := by
    intro q one there member stage
    rcases spawned_from there with ⟨_, rfl⟩ | ⟨_, old⟩
    · exact (new.outside sound open' member).elim
    · exact sound.dropped t g open' q one old member stage
  active :=
    let ⟨id, member, unsettled⟩ := sound.active t g open'
    ⟨id, member, new.unsettled unsettled⟩
  fresh := sound.fresh t g open'
  openBelow := ⟨lt_of_lt_of_le (sound.openBelow t g open').1 more, (sound.openBelow t g open').2⟩

theorem Sound.spawn (sound : b.Sound) (new : New b n shape held) (more : b.opened ≤ opened)
    (grouped : ∀ u g, groups.get? u = some g → Grouped (b.spawned n shape held groups opened) u g)
    (joined : ∀ q one t, (b.spawned n shape held groups opened).shapes q = some one → one.stage = .active → one.turn = some t →
      ∃ g, groups.get? t = some g ∧ one.id ∈ g.jobIds)
    (apart : ∀ t t' g g', groups.get? t = some g → groups.get? t' = some g' → g.serial = g'.serial → t = t')
    (every : ∀ serial < opened, (∃ t g, groups.get? t = some g ∧ g.serial = serial) ∨ serial ∈ b.serials) :
    (b.spawned n shape held groups opened).Sound where
  ids := new.ids sound
  members u g found := (grouped u g found).members
  joined := joined
  told u g found := (grouped u g found).told
  tellers u g found := (grouped u g found).tellers
  toldOnce u g found := (grouped u g found).toldOnce
  dropped u g found := (grouped u g found).dropped
  active u g found := (grouped u g found).active
  fresh u g found := (grouped u g found).fresh
  once := sound.once
  known := fun id reported =>
    let ⟨q, one, there, rest⟩ := sound.known id reported
    ⟨q, one, new.old there, rest⟩
  closed := fun g tokens credits issued id member => (sound.closed g tokens credits issued id member).imp_right new.aborted
  openBelow u g found := (grouped u g found).openBelow
  apart := apart
  closedOnce := sound.closedOnce
  closedBelow := fun serial member => lt_of_lt_of_le (sound.closedBelow serial member) more
  every := every

theorem Sound.spawn_alone (sound : b.Sound) (new : New b n shape held) (alone : shape.turn = none) :
    (b.spawned n shape held b.turnGroups b.opened).Sound := by
  refine sound.spawn new le_rfl (fun u g found => new.grouped sound found le_rfl) (fun q one t there stage turn => ?_) sound.apart sound.every
  rcases spawned_from there with ⟨_, rfl⟩ | ⟨_, old⟩
  · rw [alone] at turn
    cases turn
  · exact sound.joined q one t old stage turn

/-- How a new job's group comes about: a group of its own, or one member more. -/
structure Joins (b : Book) (shape : Shape) (t : String) (group : TurnGroup) (opened : Nat) : Prop where
  mine : shape.id ∈ group.jobIds
  origin : (b.turnGroups.get? t = none ∧ group.jobIds = [shape.id] ∧ group.told = [] ∧ group.serial = b.opened ∧ opened = b.opened + 1) ∨
    ∃ g, b.turnGroups.get? t = some g ∧ group.jobIds = g.jobIds ++ [shape.id] ∧ group.told = g.told ∧ group.serial = g.serial ∧ opened = b.opened

theorem Sound.spawn_joins (sound : b.Sound) (new : New b n shape held) {t : String} (turn : shape.turn = some t) {group : TurnGroup}
    (joins : Joins b shape t group opened) : (b.spawned n shape held (b.turnGroups.set t group) opened).Sound := by
  have below : b.opened ≤ opened := by
    rcases joins.origin with ⟨_, _, _, _, more⟩ | ⟨_, _, _, _, _, same⟩ <;> omega
  have own : Grouped (b.spawned n shape held (b.turnGroups.set t group) opened) t group := by
    have mine : ∃ q one, held shape.id = some q ∧ (b.spawned n shape held (b.turnGroups.set t group) opened).shapes q = some one ∧
        one.id = shape.id ∧ one.turn = some t := ⟨n, shape, new.here, spawned_at, rfl, turn⟩
    have active : ∃ id ∈ group.jobIds, (b.spawned n shape held (b.turnGroups.set t group) opened).Unsettled id :=
      ⟨shape.id, joins.mine, n, shape, spawned_at, rfl, .inl new.live⟩
    have fresh := new.unreported sound
    rcases joins.origin with ⟨_, jobs, none, serial, more⟩ | ⟨g, open', jobs, told, serial, same⟩
    · refine ⟨fun id member => ?_, fun q one there member => ?_, by simp [none], by simp [none], fun q one there member stage => ?_, active,
        fun id member => ?_, by show _ < opened; omega, fun member => ?_⟩
      · rw [jobs, List.mem_singleton] at member
        exact member ▸ mine
      · rcases spawned_from there with ⟨_, rfl⟩ | ⟨_, old⟩
        · exact iff_of_false (by simp [none]) (by simp [new.live])
        · rw [jobs, List.mem_singleton] at member
          exact (new.fresh q one old member).elim
      · rcases spawned_from there with ⟨_, rfl⟩ | ⟨_, old⟩
        · rw [new.live] at stage
          cases stage
        · rw [jobs, List.mem_singleton] at member
          exact (new.fresh q one old member).elim
      · rw [jobs, List.mem_singleton] at member
        exact member ▸ fresh
      · have := sound.closedBelow _ member
        omega
    · have before := @New.grouped _ _ _ _ (b.turnGroups.set t group) _ new sound _ _ open' below
      have earlier : ∀ id ∈ group.jobIds, id ≠ shape.id → id ∈ g.jobIds := by
        intro id member other
        rw [jobs, List.mem_append, List.mem_singleton] at member
        exact member.resolve_right other
      refine ⟨fun id member => ?_, fun q one there member => ?_, fun id member => ?_, told ▸ before.toldOnce,
        fun q one there member stage => ?_, active, fun id member => ?_, serial ▸ before.openBelow⟩
      · by_cases last : id = shape.id
        · exact last ▸ mine
        · exact before.members id (earlier id member last)
      · rw [told]
        by_cases last : one.id = shape.id
        · rcases spawned_from there with ⟨_, rfl⟩ | ⟨_, old⟩
          · exact iff_of_false (fun told => new.outside sound open' (before.tellers _ told)) (by simp [new.live])
          · exact (new.fresh q one old last).elim
        · exact before.told q one there (earlier _ member last)
      · rw [jobs]
        exact List.mem_append_left _ (before.tellers id (told ▸ member))
      · rcases spawned_from there with ⟨_, rfl⟩ | ⟨_, old⟩
        · rw [new.live] at stage
          cases stage
        · exact before.dropped q one there (earlier _ member (new.fresh q one old)) stage
      · by_cases last : id = shape.id
        · exact last ▸ fresh
        · exact before.fresh id (earlier id member last)
  have serial : ∀ u g', u ≠ t → b.turnGroups.get? u = some g' → g'.serial ≠ group.serial := by
    intro u g' other open' same
    rcases joins.origin with ⟨_, _, _, at', _⟩ | ⟨g, open'', _, _, at', _⟩
    · have := (sound.openBelow u g' open').1
      omega
    · exact other (sound.apart u t g' g open' open'' (same.trans at'))
  have keeps : ∀ g, b.turnGroups.get? t = some g → (∀ id ∈ g.jobIds, id ∈ group.jobIds) ∧ group.serial = g.serial := by
    intro g found
    rcases joins.origin with ⟨none, _⟩ | ⟨g', open', jobs, _, at', _⟩
    · rw [none] at found
      cases found
    · cases open'.symm.trans found
      exact ⟨fun id member => jobs ▸ List.mem_append_left _ member, at'⟩
  refine sound.spawn new below (fun u g found => ?_) (fun q one u there stage turn' => ?_) (fun u u' g g' found found' same => ?_)
    fun s least => ?_
  · rcases OrderedMap.get?_set_some found with ⟨rfl, rfl⟩ | ⟨_, old⟩
    · exact own
    · exact new.grouped sound old below
  · rcases spawned_from there with ⟨_, rfl⟩ | ⟨_, old⟩
    · cases Option.some.inj (turn.symm.trans turn')
      exact ⟨group, OrderedMap.get?_set_self, joins.mine⟩
    · obtain ⟨g', found, member⟩ := sound.joined q one u old stage turn'
      by_cases same : u = t
      · subst same
        exact ⟨group, OrderedMap.get?_set_self, (keeps g' found).1 _ member⟩
      · exact ⟨g', (OrderedMap.get?_set_other same).trans found, member⟩
  · rcases OrderedMap.get?_set_some found with ⟨rfl, rfl⟩ | ⟨other, old⟩ <;>
      rcases OrderedMap.get?_set_some found' with ⟨rfl, rfl⟩ | ⟨other', old'⟩
    · rfl
    · exact (serial u' g' other' old' same.symm).elim
    · exact (serial u g other old same).elim
    · exact sound.apart u u' g g' old old' same
  · by_cases before : s < b.opened
    · refine (sound.every s before).imp_left fun ⟨u, g', found, same⟩ => ?_
      by_cases own : u = t
      · subst own
        exact ⟨u, group, OrderedMap.get?_set_self, (keeps g' found).2.trans same⟩
      · exact ⟨u, g', (OrderedMap.get?_set_other own).trans found, same⟩
    · rcases joins.origin with ⟨_, _, _, at', more⟩ | ⟨_, _, _, _, _, same⟩
      · exact .inl ⟨t, group, OrderedMap.get?_set_self, by omega⟩
      · exact absurd (same ▸ least) before

end Spawn

end Book

end Bike4Mind.BackgroundAgents
