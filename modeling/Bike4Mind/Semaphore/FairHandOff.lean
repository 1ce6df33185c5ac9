import Bike4Mind.Semaphore.Slots
import Bike4Mind.Concurrency.History

/-! Every run of the semaphore keeps its counts, leaves no slot idle while someone waits, and hands slots on fairly. -/

namespace Bike4Mind.Semaphore
open Collections Concurrency

namespace Slots

/-- The slots a tenant has and has not given back. -/
def held (s : Slots) (key : String) : Int := s.acquires.countP fun a => a.holds && decide (a.key = key)

def live (s : Slots) : Int := s.acquires.countP Acquire.holds

end Slots

variable {s : Slots} {w : Waiter} {before after : List Waiter} {call : Nat} {key : String}

/-! ### The waiter that is picked -/

theorem pickFrom_some {active : String → Int} {waiters : List Waiter} {i : Nat} {best picked : Nat × Int}
    (pick : Slots.pickFrom active i (some best) waiters = some picked) :
    (picked = best ∧ ∀ w ∈ waiters, best.2 ≤ active w.key) ∨
    ∃ before w after, waiters = before ++ w :: after ∧ picked = (i + before.length, active w.key) ∧ picked.2 < best.2 ∧
      (∀ w' ∈ before, active w.key < active w'.key) ∧ ∀ w' ∈ after, active w.key ≤ active w'.key := by
  induction waiters generalizing i best with
  | nil =>
    cases pick
    exact Or.inl ⟨rfl, List.forall_mem_nil _⟩
  | cons head rest ih =>
    unfold Slots.pickFrom at pick
    by_cases fewer : active head.key < best.2
    · rw [Option.all_some, if_pos (decide_eq_true fewer)] at pick
      rcases ih pick with ⟨same, least⟩ | ⟨before, w, after, split, same, less, left, right⟩
      · exact Or.inr ⟨[], head, rest, rfl, same, same ▸ fewer, List.forall_mem_nil _, least⟩
      · have lower : active w.key < active head.key := by rw [same] at less; exact less
        refine Or.inr ⟨head :: before, w, after, by rw [split]; rfl, ?_, Int.lt_trans less fewer, ?_, right⟩
        · rw [same, List.length_cons, Nat.add_right_comm, Nat.add_assoc]
        · exact List.forall_mem_cons.mpr ⟨lower, left⟩
    · rw [Option.all_some, if_neg (by simpa using fewer)] at pick
      rcases ih pick with ⟨same, least⟩ | ⟨before, w, after, split, same, less, left, right⟩
      · exact Or.inl ⟨same, List.forall_mem_cons.mpr ⟨Int.not_lt.mp fewer, least⟩⟩
      · have lower : active w.key < active head.key := by rw [same] at less; exact Int.lt_of_lt_of_le less (Int.not_lt.mp fewer)
        refine Or.inr ⟨head :: before, w, after, by rw [split]; rfl, ?_, less, ?_, right⟩
        · rw [same, List.length_cons, Nat.add_right_comm, Nat.add_assoc]
        · exact List.forall_mem_cons.mpr ⟨lower, left⟩

/-- The first waiter among those whose tenants have the fewest slots. -/
structure Fairest (s : Slots) (before : List Waiter) (w : Waiter) (after : List Waiter) : Prop where
  split : s.waiters = before ++ w :: after
  left : ∀ w' ∈ before, s.getTenantActiveCount w.key < s.getTenantActiveCount w'.key
  right : ∀ w' ∈ after, s.getTenantActiveCount w.key ≤ s.getTenantActiveCount w'.key

theorem pick_fairest (waiting : s.waiters ≠ []) :
    ∃ before w after, Fairest s before w after ∧ s.pickFairWaiterIndex = some before.length := by
  obtain ⟨head, rest, line⟩ := List.exists_cons_of_ne_nil waiting
  unfold Slots.pickFairWaiterIndex
  rw [line]
  have first : Slots.pickFrom s.getTenantActiveCount 0 none (head :: rest) =
      Slots.pickFrom s.getTenantActiveCount 1 (some (0, s.getTenantActiveCount head.key)) rest := rfl
  have kept : ∀ (waiters : List Waiter) (i : Nat) (best : Nat × Int),
      ∃ picked, Slots.pickFrom s.getTenantActiveCount i (some best) waiters = some picked := by
    intro waiters
    induction waiters with
    | nil => exact fun i best => ⟨best, rfl⟩
    | cons next rest ih =>
      intro i best
      unfold Slots.pickFrom
      split
      · exact ih _ _
      · exact ih _ _
  obtain ⟨picked, pick⟩ := kept rest 1 (0, s.getTenantActiveCount head.key)
  rw [first, pick]
  rcases pickFrom_some pick with ⟨rfl, least⟩ | ⟨before, w, after, split, rfl, less, left, right⟩
  · exact ⟨[], head, rest, ⟨line, List.forall_mem_nil _, least⟩, rfl⟩
  · refine ⟨head :: before, w, after, ⟨by rw [line, split]; rfl, List.forall_mem_cons.mpr ⟨less, left⟩, right⟩, ?_⟩
    rw [Option.map_some, List.length_cons, Nat.add_comm]

/-! ### Counts -/

structure Counts (s : Slots) : Prop where
  counted : ∀ key, s.getTenantActiveCount key = s.held key
  total : s.totalActive = s.activeByTenant.values.sum
  live : s.totalActive = s.live

theorem held_set {acquire acquire' : Acquire} (there : s.acquires[call]? = some acquire) (same : acquire'.key = acquire.key) (key : String) :
    (({ s with acquires := s.acquires.set call acquire' } : Slots).held key : Int) = s.held key -
      (if acquire.holds ∧ acquire.key = key then 1 else 0) + if acquire'.holds ∧ acquire.key = key then 1 else 0 := by
  obtain ⟨inside, value⟩ := List.getElem?_eq_some_iff.mp there
  unfold Slots.held
  have present : (acquire.holds && decide (acquire.key = key)) = true → 0 < s.acquires.countP fun a => a.holds && decide (a.key = key) :=
    fun holds => List.countP_pos_iff.mpr ⟨acquire, List.mem_of_getElem? there, holds⟩
  simp only [List.countP_set inside, value, same, Bool.and_eq_true, decide_eq_true_eq] at present ⊢
  split <;> rename_i holds
  · have := present holds
    split <;> omega
  · split <;> omega

theorem live_set {acquire acquire' : Acquire} (there : s.acquires[call]? = some acquire) :
    (({ s with acquires := s.acquires.set call acquire' } : Slots).live : Int) = s.live -
      (if acquire.holds then 1 else 0) + if acquire'.holds then 1 else 0 := by
  obtain ⟨inside, value⟩ := List.getElem?_eq_some_iff.mp there
  unfold Slots.live
  have present : acquire.holds = true → 0 < s.acquires.countP Acquire.holds :=
    fun holds => List.countP_pos_iff.mpr ⟨acquire, List.mem_of_getElem? there, holds⟩
  simp only [List.countP_set inside, value]
  split <;> rename_i holds
  · have := present holds
    split <;> omega
  · split <;> omega

theorem live_nonneg : 0 ≤ s.live := Int.natCast_nonneg _

theorem incActive_count (s : Slots) (key key' : String) :
    (s.incActive key).getTenantActiveCount key' = s.getTenantActiveCount key' + if key = key' then 1 else 0 := by
  show (s.activeByTenant.set key _).count key' = _
  rw [OrderedMap.count_set]
  by_cases same : key = key'
  · subst same
    rw [if_pos rfl, if_pos rfl]
    rfl
  · rw [if_neg (Ne.symm same), if_neg same, Int.add_zero]
    rfl

theorem incActive_sum (s : Slots) (key : String) : (s.incActive key).activeByTenant.values.sum = s.activeByTenant.values.sum + 1 := by
  show (s.activeByTenant.set key (s.activeByTenant.count key + 1)).values.sum = _
  rw [OrderedMap.sum_set]
  omega

theorem decActive_count (s : Slots) (key key' : String) (held : 0 < s.getTenantActiveCount key) :
    (s.decActive key).getTenantActiveCount key' = s.getTenantActiveCount key' - if key = key' then 1 else 0 := by
  have last : s.activeByTenant.count key - 1 ≤ 0 → s.activeByTenant.count key - 1 = 0 := by
    have := held
    unfold Slots.getTenantActiveCount at this
    omega
  show (if s.activeByTenant.count key - 1 ≤ 0 then s.activeByTenant.erase key
    else s.activeByTenant.set key (s.activeByTenant.count key - 1)).count key' = s.activeByTenant.count key' - _
  split
  · rename_i none_left
    rw [OrderedMap.count_erase]
    by_cases same : key = key'
    · subst same
      rw [if_pos rfl, if_pos rfl, last none_left]
    · rw [if_neg (Ne.symm same), if_neg same, Int.sub_zero]
  · rw [OrderedMap.count_set]
    by_cases same : key = key'
    · subst same
      rw [if_pos rfl, if_pos rfl]
    · rw [if_neg (Ne.symm same), if_neg same, Int.sub_zero]

theorem decActive_sum (s : Slots) (key : String) (held : 0 < s.getTenantActiveCount key) :
    (s.decActive key).activeByTenant.values.sum = s.activeByTenant.values.sum - 1 := by
  have some_left : 0 < s.activeByTenant.count key := held
  show (if s.activeByTenant.count key - 1 ≤ 0 then s.activeByTenant.erase key
    else s.activeByTenant.set key (s.activeByTenant.count key - 1)).values.sum = _
  split
  · rw [OrderedMap.sum_erase]
    omega
  · rw [OrderedMap.sum_set]
    omega

/-! ### The line and the log -/

structure Line (s : Slots) : Prop where
  ordered : s.waiters.Pairwise fun a b => a.call < b.call
  pending : ∀ w ∈ s.waiters, s.acquires[w.call]? = some ⟨w.key, .pending⟩
  waiting : ∀ call key, s.acquires[call]? = some ⟨key, .pending⟩ → ⟨key, call⟩ ∈ s.waiters
  timers : ∀ timer ∈ s.timers, ∃ w ∈ s.waiters, w.call = timer.1
  listeners : ∀ listener ∈ s.listeners, ∃ w ∈ s.waiters, w.call = listener.2
  capped : ∀ key, s.queuedForTenant key ≤ MAX_QUEUED_PER_TENANT

/-- The acquire has been granted a slot or rejected. -/
def Answered (history : List SlotEvent) (call : Nat) (key : String) : Prop :=
  .granted call key ∈ history ∨ .rejected call ∈ history

/-- An acquire is answered once, and one that had to wait only after those of its tenant that came before it. -/
def SlotEvent.Sound : SlotEvent → List SlotEvent → Prop
  | .granted call key, earlier => (∀ key', ¬Answered earlier call key') ∧
      (.queued call key ∈ earlier → ∀ call' < call, .queued call' key ∈ earlier → Answered earlier call' key)
  | .rejected call, earlier => ∀ key', ¬Answered earlier call key'
  | .queued call _, earlier => ∀ call' key', .queued call' key' ∈ earlier → call' < call
  | .released _, _ => True

structure Told (s : Slots) : Prop where
  answered : ∀ call key, Answered s.history call key → ∃ acquire, s.acquires[call]? = some acquire ∧ acquire.promise ≠ .pending
  queued : ∀ call key, .queued call key ∈ s.history → ∃ promise, s.acquires[call]? = some ⟨key, promise⟩
  settled : ∀ call key promise, s.acquires[call]? = some ⟨key, promise⟩ → promise ≠ .pending → Answered s.history call key
  sound : Justified SlotEvent.Sound s.history

/-- The acquire `call` leaves the line with an answer. -/
def Slots.leave (s : Slots) (waiters : List Waiter) (call : Nat) (acquire : Acquire) (event : SlotEvent) : Slots :=
  { s with
    waiters
    timers := s.timers.filter (·.1 ≠ call)
    listeners := s.listeners.filter (·.2 ≠ call)
    acquires := s.acquires.set call acquire
    history := event :: s.history }

section Leaving
variable {promise : SlotPromise} {event : SlotEvent}

theorem Line.here (line : Line s) (split : s.waiters = before ++ w :: after) : s.acquires[w.call]? = some ⟨w.key, .pending⟩ :=
  line.pending w (split ▸ List.mem_append_right _ List.mem_cons_self)

theorem Line.apart (line : Line s) (split : s.waiters = before ++ w :: after) :
    (∀ w' ∈ before, w'.call < w.call) ∧ ∀ w' ∈ after, w.call < w'.call := by
  have ordered := line.ordered
  rw [split, List.pairwise_append, List.pairwise_cons] at ordered
  exact ⟨fun w' member => ordered.2.2 w' member w List.mem_cons_self, ordered.2.1.1⟩

theorem mem_others (split : s.waiters = before ++ w :: after) {w' : Waiter} :
    w' ∈ s.waiters ↔ w' = w ∨ w' ∈ before ++ after := by
  rw [split]
  simp only [List.mem_append, List.mem_cons]
  tauto

theorem Line.others (line : Line s) (split : s.waiters = before ++ w :: after) {w' : Waiter} (member : w' ∈ before ++ after) :
    w'.call ≠ w.call := by
  obtain ⟨left, right⟩ := line.apart split
  rcases List.mem_append.mp member with early | late
  · exact Nat.ne_of_lt (left w' early)
  · exact Nat.ne_of_gt (right w' late)

theorem Line.leave (line : Line s) (split : s.waiters = before ++ w :: after) (settled : promise ≠ .pending) :
    Line (s.leave (before ++ after) w.call ⟨w.key, promise⟩ event) where
  ordered := by
    have ordered := line.ordered
    rw [split] at ordered
    exact ordered.sublist (List.Sublist.append_left (List.sublist_cons_self w after) before)
  pending w' member := by
    have same := line.pending w' ((mem_others split).mpr (Or.inr member))
    exact (List.getElem?_set_ne (Ne.symm (line.others split member))).trans same
  waiting call key found := by
    by_cases own : w.call = call
    · subst own
      obtain ⟨inside, _⟩ := List.getElem?_eq_some_iff.mp (line.here split)
      have replaced := (List.getElem?_set_self inside).symm.trans found
      cases replaced
      exact absurd rfl settled
    · have found : s.acquires[call]? = some ⟨key, .pending⟩ := (List.getElem?_set_ne own).symm.trans found
      rcases (mem_others split).mp (line.waiting call key found) with same | other
      · exact absurd (congrArg Waiter.call same).symm own
      · exact other
  timers timer armed := by
    obtain ⟨armed, other⟩ := List.mem_filter.mp armed
    obtain ⟨w', member, same⟩ := line.timers timer armed
    rcases (mem_others split).mp member with rfl | member
    · exact absurd same.symm (of_decide_eq_true other)
    · exact ⟨w', member, same⟩
  listeners listener armed := by
    obtain ⟨armed, other⟩ := List.mem_filter.mp armed
    obtain ⟨w', member, same⟩ := line.listeners listener armed
    rcases (mem_others split).mp member with rfl | member
    · exact absurd same.symm (of_decide_eq_true other)
    · exact ⟨w', member, same⟩
  capped key := by
    refine Nat.le_trans ?_ (line.capped key)
    unfold Slots.queuedForTenant
    rw [split]
    exact (List.Sublist.append_left (List.sublist_cons_self w after) before).countP_le

theorem Told.leave (told : Told s) (line : Line s) (split : s.waiters = before ++ w :: after) (settled : promise ≠ .pending)
    (sound : event.Sound s.history) (answer : event = .granted w.call w.key ∨ event = .rejected w.call) :
    Told (s.leave (before ++ after) w.call ⟨w.key, promise⟩ event) := by
  obtain ⟨inside, _⟩ := List.getElem?_eq_some_iff.mp (line.here split)
  have here : (s.acquires.set w.call ⟨w.key, promise⟩)[w.call]? = some ⟨w.key, promise⟩ := List.getElem?_set_self inside
  have elsewhere : ∀ call, w.call ≠ call → (s.acquires.set w.call ⟨w.key, promise⟩)[call]? = s.acquires[call]? :=
    fun call other => List.getElem?_set_ne other
  refine ⟨fun call key mentioned => ?_, fun call key mentioned => ?_, fun call key promise' found done => ?_, ⟨sound, told.sound⟩⟩
  · show ∃ acquire, (s.acquires.set w.call ⟨w.key, promise⟩)[call]? = _ ∧ _
    by_cases own : w.call = call
    · exact ⟨⟨w.key, promise⟩, own ▸ here, settled⟩
    · rw [elsewhere call own]
      refine told.answered call key ?_
      rcases mentioned with granted | rejected
      · rcases List.mem_cons.mp granted with same | old
        · rcases answer with rfl | rfl
          · exact absurd (by cases same; rfl) own
          · cases same
        · exact Or.inl old
      · rcases List.mem_cons.mp rejected with same | old
        · rcases answer with rfl | rfl
          · cases same
          · exact absurd (by cases same; rfl) own
        · exact Or.inr old
  · show ∃ promise', (s.acquires.set w.call ⟨w.key, promise⟩)[call]? = _
    have old : .queued call key ∈ s.history := by
      rcases List.mem_cons.mp mentioned with same | old
      · rcases answer with rfl | rfl <;> cases same
      · exact old
    obtain ⟨promise', found⟩ := told.queued call key old
    by_cases own : w.call = call
    · subst own
      have same := (line.here split).symm.trans found
      cases same
      exact ⟨promise, here⟩
    · exact ⟨promise', (elsewhere call own).trans found⟩
  · by_cases own : w.call = call
    · subst own
      have same := here.symm.trans found
      cases same
      rcases answer with rfl | rfl
      · exact Or.inl List.mem_cons_self
      · exact Or.inr List.mem_cons_self
    · exact (told.settled call key promise' ((elsewhere call own).symm.trans found) done).imp
        (List.mem_cons_of_mem _) (List.mem_cons_of_mem _)

theorem Told.unanswered (told : Told s) (line : Line s) (split : s.waiters = before ++ w :: after) (key : String) :
    ¬Answered s.history w.call key := by
  intro mentioned
  obtain ⟨acquire, found, settled⟩ := told.answered w.call key mentioned
  cases (line.here split).symm.trans found
  exact settled rfl

end Leaving

/-! ### What each operation keeps -/

structure Inv (s : Slots) : Prop where
  counts : Counts s
  line : Line s
  told : Told s
  upper : s.totalActive ≤ MAX_CONCURRENT_ANTHROPIC_CALLS
  full : s.waiters ≠ [] → s.totalActive = MAX_CONCURRENT_ANTHROPIC_CALLS

theorem settlePromise_pending {promise : SlotPromise} (there : s.acquires[call]? = some ⟨key, .pending⟩) :
    s.settlePromise call promise = s.acquires.set call ⟨key, promise⟩ := by
  unfold Slots.settlePromise
  rw [there]

section Rejecting
variable {error : AcquireError}

theorem removeAndReject_eq (line : Line s) (split : s.waiters = before ++ w :: after) :
    s.removeAndReject w.call error = s.leave (before ++ after) w.call ⟨w.key, .rejected error⟩ (.rejected w.call) := by
  have left : s.waiters.eraseP (fun w' => decide (w'.call = w.call)) = before ++ after := by
    rw [split, List.eraseP_append_right _ fun w' member => by simpa using Nat.ne_of_lt ((line.apart split).1 w' member)]
    rw [List.eraseP_cons_of_pos (by simp)]
  have settled := @settlePromise_pending _ _ _ (.rejected error) (line.here split)
  unfold Slots.removeAndReject Slots.reject
  rw [left]
  unfold Slots.leave
  exact congrArg (fun acquires => ({ s with
    waiters := before ++ after
    timers := s.timers.filter (·.1 ≠ w.call)
    listeners := s.listeners.filter (·.2 ≠ w.call)
    acquires
    history := .rejected w.call :: s.history } : Slots)) settled

theorem Counts.rejected (counts : Counts s) (line : Line s) (split : s.waiters = before ++ w :: after) :
    Counts (s.leave (before ++ after) w.call ⟨w.key, .rejected error⟩ (.rejected w.call)) where
  counted key := by
    have held := @held_set _ _ _ ⟨w.key, .rejected error⟩ (line.here split) rfl key
    rw [if_neg (by simp [Acquire.holds]), if_neg (by simp [Acquire.holds]), Int.sub_zero, Int.add_zero] at held
    exact (counts.counted key).trans held.symm
  total := counts.total
  live := by
    have live := @live_set _ _ _ ⟨w.key, .rejected error⟩ (line.here split)
    rw [if_neg (by simp [Acquire.holds]), if_neg (by simp [Acquire.holds]), Int.sub_zero, Int.add_zero] at live
    exact counts.live.trans live.symm

theorem Inv.rejected (inv : Inv s) (waits : w ∈ s.waiters) (error : AcquireError) : Inv (s.removeAndReject w.call error) := by
  obtain ⟨before, after, split⟩ := List.append_of_mem waits
  rw [removeAndReject_eq inv.line split]
  exact ⟨inv.counts.rejected inv.line split, inv.line.leave split (by simp),
    inv.told.leave inv.line split (by simp) (inv.told.unanswered inv.line split) (Or.inr rfl), inv.upper,
    fun _ => inv.full (List.ne_nil_of_mem waits)⟩

end Rejecting

/-! ### Handing a slot on -/

/-- `w` leaves the line with a slot. -/
def Slots.grant (s : Slots) (before : List Waiter) (w : Waiter) (after : List Waiter) : Slots :=
  (s.leave (before ++ after) w.call ⟨w.key, .fulfilled false⟩ (.granted w.call w.key)).incActive w.key

theorem admitNext_grant (line : Line s) (free : s.totalActive < MAX_CONCURRENT_ANTHROPIC_CALLS) (fairest : Fairest s before w after)
    (picked : s.pickFairWaiterIndex = some before.length) : s.admitNext = s.grant before w after := by
  have there : s.waiters[before.length]? = some w := by rw [fairest.split]; simp
  have left : s.waiters.eraseIdx before.length = before ++ after := by
    rw [fairest.split, List.eraseIdx_append_of_length_le (Nat.le_refl _), Nat.sub_self, List.eraseIdx_cons_zero]
  have settled := @settlePromise_pending _ _ _ (.fulfilled false) (line.here fairest.split)
  unfold Slots.admitNext
  rw [if_neg (Int.not_le.mpr free), picked]
  dsimp only
  rw [there]
  dsimp only
  rw [left]
  unfold Slots.resolve Slots.grant Slots.leave
  exact congrArg (fun acquires => ({ ({ s with
    waiters := before ++ after
    timers := s.timers.filter (·.1 ≠ w.call)
    listeners := s.listeners.filter (·.2 ≠ w.call) } : Slots).incActive w.key with
    acquires
    history := .granted w.call w.key :: s.history } : Slots)) settled

theorem Counts.granted (counts : Counts s) (line : Line s) (split : s.waiters = before ++ w :: after) :
    Counts (s.grant before w after) where
  counted key := by
    have held := @held_set _ _ _ ⟨w.key, .fulfilled false⟩ (line.here split) rfl key
    rw [if_neg (by simp [Acquire.holds]), Int.sub_zero] at held
    refine (incActive_count _ _ _).trans ((congrArg (· + _) (counts.counted key)).trans (Eq.trans ?_ held.symm))
    simp [Acquire.holds]
  total := by
    refine Eq.trans ?_ (incActive_sum _ _).symm
    exact congrArg (· + 1) counts.total
  live := by
    have live := @live_set _ _ _ ⟨w.key, .fulfilled false⟩ (line.here split)
    rw [if_neg (by simp [Acquire.holds]), if_pos (by simp [Acquire.holds]), Int.sub_zero] at live
    exact (congrArg (· + 1) counts.live).trans live.symm

theorem Fairest.in_order (fairest : Fairest s before w after) (line : Line s) (told : Told s) :
    SlotEvent.Sound (.granted w.call w.key) s.history := by
  refine ⟨told.unanswered line fairest.split, fun _ call' earlier waited => ?_⟩
  obtain ⟨promise, found⟩ := told.queued call' w.key waited
  by_cases pending : promise = .pending
  · subst pending
    have waits := line.waiting call' w.key found
    obtain ⟨_, right⟩ := line.apart fairest.split
    rw [fairest.split, List.mem_append, List.mem_cons] at waits
    rcases waits with ahead | same | behind
    · exact absurd (fairest.left _ ahead) (Int.lt_irrefl _)
    · exact absurd earlier (by rw [← same]; exact Nat.lt_irrefl _)
    · exact absurd (right _ behind) (Nat.not_lt.mpr (Nat.le_of_lt earlier))
  · exact told.settled call' w.key promise found pending

/-- After a slot was given back: the first of the fairest waiters gets it. -/
theorem admitNext_inv (counts : Counts s) (line : Line s) (told : Told s) (free : s.totalActive < MAX_CONCURRENT_ANTHROPIC_CALLS)
    (last : s.waiters ≠ [] → s.totalActive + 1 = MAX_CONCURRENT_ANTHROPIC_CALLS) : Inv s.admitNext := by
  by_cases waiting : s.waiters = []
  · have same : s.admitNext = s := by
      unfold Slots.admitNext Slots.pickFairWaiterIndex
      rw [if_neg (Int.not_le.mpr free), waiting]
      rfl
    rw [same]
    exact ⟨counts, line, told, Int.le_of_lt free, fun some => absurd waiting some⟩
  · obtain ⟨before, w, after, fairest, picked⟩ := pick_fairest waiting
    rw [admitNext_grant line free fairest picked]
    have left := @Line.leave _ _ _ _ (.fulfilled false) (.granted w.call w.key) line fairest.split (by simp)
    have log := @Told.leave _ _ _ _ (.fulfilled false) _ told line fairest.split (by simp) (fairest.in_order line told) (Or.inl rfl)
    exact ⟨counts.granted line fairest.split, ⟨left.ordered, left.pending, left.waiting, left.timers, left.listeners, left.capped⟩,
      ⟨log.answered, log.queued, log.settled, log.sound⟩, free, fun _ => last waiting⟩

section Releasing
variable (there : s.acquires[call]? = some ⟨key, .fulfilled false⟩)
include there

/-- The slot of `call` is given back, and not yet handed on. -/
def Slots.freed (s : Slots) (call : Nat) (key : String) : Slots :=
  { s with acquires := s.acquires.set call ⟨key, .fulfilled true⟩, history := .released call :: s.history }.decActive key

theorem release_eq : s.release call = (s.freed call key).admitNext := by
  unfold Slots.release
  rw [there]
  rfl

theorem Counts.holds (counts : Counts s) : 0 < s.getTenantActiveCount key := by
  rw [counts.counted key]
  exact Int.natCast_pos.mpr (List.countP_pos_iff.mpr ⟨_, List.mem_of_getElem? there, by simp [Acquire.holds]⟩)

theorem freed_count (counts : Counts s) (key' : String) :
    (s.freed call key).getTenantActiveCount key' = s.getTenantActiveCount key' - if key = key' then 1 else 0 := by
  have holds := counts.holds there
  exact decActive_count { s with acquires := s.acquires.set call ⟨key, .fulfilled true⟩, history := .released call :: s.history }
    key key' holds

theorem Counts.freed (counts : Counts s) : Counts (s.freed call key) where
  counted key' := by
    have held := @held_set _ _ _ ⟨key, .fulfilled true⟩ there rfl key'
    rw [if_neg (by simp [Acquire.holds] : ¬((⟨key, .fulfilled true⟩ : Acquire).holds = true ∧ key = key')), Int.add_zero] at held
    rw [freed_count there counts, counts.counted key']
    refine Eq.trans ?_ held.symm
    simp [Acquire.holds]
  total := by
    refine Eq.trans ?_ (decActive_sum _ key (counts.holds there)).symm
    exact congrArg (· - 1) counts.total
  live := by
    have live := @live_set _ _ _ ⟨key, .fulfilled true⟩ there
    rw [if_pos (by simp [Acquire.holds]), if_neg (by simp [Acquire.holds]), Int.add_zero] at live
    exact (congrArg (· - 1) counts.live).trans live.symm

theorem freed_acquires (call' : Nat) : (s.freed call key).acquires[call']? =
    if call = call' then some ⟨key, .fulfilled true⟩ else s.acquires[call']? := by
  obtain ⟨inside, _⟩ := List.getElem?_eq_some_iff.mp there
  show (s.acquires.set call ⟨key, .fulfilled true⟩)[call']? = _
  rw [List.getElem?_set, if_pos inside]

theorem Line.freed (line : Line s) : Line (s.freed call key) where
  ordered := line.ordered
  pending w waits := by
    have found := line.pending w waits
    rw [freed_acquires there, if_neg, found]
    rintro rfl
    cases there.symm.trans found
  waiting call' key' found := by
    rw [freed_acquires there] at found
    split at found
    · cases found
    · exact line.waiting call' key' found
  timers := line.timers
  listeners := line.listeners
  capped := line.capped

theorem Told.freed (told : Told s) : Told (s.freed call key) where
  answered call' key' mentioned := by
    rw [freed_acquires there]
    split
    · exact ⟨_, rfl, by simp⟩
    · exact told.answered call' key' (mentioned.imp (fun granted => (List.mem_cons.mp granted).resolve_left (by simp))
        fun rejected => (List.mem_cons.mp rejected).resolve_left (by simp))
  queued call' key' mentioned := by
    obtain ⟨promise, found⟩ := told.queued call' key' ((List.mem_cons.mp mentioned).resolve_left (by simp))
    rw [freed_acquires there]
    split
    · rename_i same
      subst same
      cases there.symm.trans found
      exact ⟨_, rfl⟩
    · exact ⟨promise, found⟩
  settled call' key' promise found settled := by
    rw [freed_acquires there] at found
    split at found
    · rename_i same
      subst same
      cases found
      exact (told.settled _ _ _ there (by simp)).imp (List.mem_cons_of_mem _) (List.mem_cons_of_mem _)
    · exact (told.settled call' key' promise found settled).imp (List.mem_cons_of_mem _) (List.mem_cons_of_mem _)
  sound := ⟨trivial, told.sound⟩

omit there in
theorem Inv.freed_free (inv : Inv s) : (s.freed call key).totalActive < MAX_CONCURRENT_ANTHROPIC_CALLS :=
  Int.sub_one_lt_of_le inv.upper

theorem Inv.released (inv : Inv s) : Inv (s.release call) := by
  rw [release_eq there]
  refine admitNext_inv (inv.counts.freed there) (inv.line.freed there) (inv.told.freed there) inv.freed_free fun waiting => ?_
  exact (Int.sub_add_cancel s.totalActive 1).trans (inv.full waiting)

end Releasing

theorem Inv.release (inv : Inv s) (call : Nat) : Inv (s.release call) := by
  cases found : s.acquires[call]? with
  | none =>
    have same : s.release call = s := by
      unfold Slots.release
      rw [found]
    rw [same]
    exact inv
  | some acquire =>
    obtain ⟨key, promise⟩ := acquire
    by_cases held : promise = .fulfilled false
    · exact inv.released (held ▸ found)
    · have same : s.release call = s := by
        unfold Slots.release
        rw [found]
        split
        · rename_i same
          cases same
          exact absurd rfl held
        · rfl
      rw [same]
      exact inv

theorem Inv.timeout (inv : Inv s) (call : Nat) : Inv (s.timeout call) := by
  unfold Slots.timeout
  split
  · rename_i armed found
    obtain ⟨w, waits, same⟩ := inv.line.timers _ (List.mem_of_find?_eq_some found)
    have own : w.call = call := same.trans (by simpa using List.find?_some found)
    rw [← own]
    exact inv.rejected waits _
  · exact inv

theorem Inv.abort (inv : Inv s) (signal : Signal) (reason : AbortReason) : Inv (s.abort signal reason) := by
  unfold Slots.abort
  split
  · exact inv
  · have marked : Inv { s with aborted := (signal, reason) :: s.aborted } :=
      ⟨⟨inv.counts.counted, inv.counts.total, inv.counts.live⟩,
        ⟨inv.line.ordered, inv.line.pending, inv.line.waiting, inv.line.timers, inv.line.listeners, inv.line.capped⟩,
        ⟨inv.told.answered, inv.told.queued, inv.told.settled, inv.told.sound⟩, inv.upper, inv.full⟩
    revert marked
    generalize ({ s with aborted := (signal, reason) :: s.aborted } : Slots) = s'
    generalize (s.listeners.filter (·.1 = signal)).map Prod.snd = calls
    intro inv'
    induction calls generalizing s' with
    | nil => exact inv'
    | cons call rest ih =>
      rw [List.foldl_cons]
      apply ih
      split
      · rename_i listens
        obtain ⟨w, waits, same⟩ := inv'.line.listeners _ listens
        have own : w.call = call := same
        rw [← own]
        exact inv'.rejected waits _
      · exact inv'

/-! ### A new acquire -/

section Acquiring
variable {s' : Slots} {promise : SlotPromise} {event : SlotEvent}

theorem getElem?_snoc {α : Type} (l : List α) (a : α) (i : Nat) : (l ++ [a])[i]? = if i = l.length then some a else l[i]? := by
  by_cases last : i = l.length
  · rw [if_pos last, last, List.getElem?_concat_length]
  · rw [if_neg last]
    rcases Nat.lt_or_gt_of_ne last with inside | beyond
    · exact List.getElem?_append_left inside
    · rw [List.getElem?_eq_none (by simp; omega), List.getElem?_eq_none (Nat.le_of_lt beyond)]

theorem Line.fresh_call (line : Line s) (waits : w ∈ s.waiters) : w.call < s.acquires.length :=
  (List.getElem?_eq_some_iff.mp (line.pending w waits)).choose

theorem Counts.append (counts : Counts s) (acquires : s'.acquires = s.acquires ++ [⟨key, promise⟩]) (idle : promise ≠ .fulfilled false)
    (total : s'.totalActive = s.totalActive) (tenants : s'.activeByTenant = s.activeByTenant) : Counts s' where
  counted key' := by
    unfold Slots.getTenantActiveCount Slots.held
    rw [tenants, acquires, List.countP_append, List.countP_singleton, if_neg (by simp [Acquire.holds, idle])]
    exact counts.counted key'
  total := by
    rw [total, tenants]
    exact counts.total
  live := by
    unfold Slots.live
    rw [total, acquires, List.countP_append, List.countP_singleton, if_neg (by simp [Acquire.holds, idle])]
    exact counts.live

theorem Line.append (line : Line s) (acquires : s'.acquires = s.acquires ++ [⟨key, promise⟩]) (settled : promise ≠ .pending)
    (waiters : s'.waiters = s.waiters) (timers : s'.timers = s.timers) (listeners : s'.listeners = s.listeners) : Line s' where
  ordered := waiters ▸ line.ordered
  pending w waits := by
    rw [waiters] at waits
    rw [acquires, getElem?_snoc, if_neg (Nat.ne_of_lt (line.fresh_call waits))]
    exact line.pending w waits
  waiting call key' found := by
    rw [acquires, getElem?_snoc] at found
    split at found
    · cases found
      exact absurd rfl settled
    · exact waiters ▸ line.waiting call key' found
  timers timer armed := waiters ▸ line.timers timer (timers ▸ armed)
  listeners listener armed := waiters ▸ line.listeners listener (listeners ▸ armed)
  capped key := by
    unfold Slots.queuedForTenant
    rw [waiters]
    exact line.capped key

theorem Told.unheard (told : Told s) (key' : String) : ¬Answered s.history s.acquires.length key' := by
  intro mentioned
  obtain ⟨acquire, found, _⟩ := told.answered _ key' mentioned
  exact absurd (List.getElem?_eq_some_iff.mp found).choose (Nat.lt_irrefl _)

theorem Told.earlier_calls (told : Told s) (call : Nat) (key : String) (waited : .queued call key ∈ s.history) :
    call < s.acquires.length := by
  obtain ⟨_, found⟩ := told.queued call key waited
  exact (List.getElem?_eq_some_iff.mp found).choose

theorem Told.append (told : Told s) (acquires : s'.acquires = s.acquires ++ [⟨key, promise⟩]) (history : s'.history = event :: s.history)
    (sound : event.Sound s.history) (entry : (promise = .pending ∧ event = .queued s.acquires.length key) ∨
      (promise ≠ .pending ∧ (event = .granted s.acquires.length key ∨ event = .rejected s.acquires.length))) : Told s' where
  answered call key' mentioned := by
    rw [acquires, getElem?_snoc]
    rw [history] at mentioned
    have old : call ≠ s.acquires.length → Answered s.history call key' := by
      intro other
      refine mentioned.imp (fun granted => (List.mem_cons.mp granted).resolve_left fun same => ?_)
        fun rejected => (List.mem_cons.mp rejected).resolve_left fun same => ?_
      all_goals
        rcases entry with ⟨_, rfl⟩ | ⟨_, rfl | rfl⟩ <;> cases same
        exact other rfl
    split
    · rename_i last
      rcases entry with ⟨_, rfl⟩ | ⟨settled, _⟩
      · refine absurd (mentioned.imp (fun granted => (List.mem_cons.mp granted).resolve_left (by simp))
          fun rejected => (List.mem_cons.mp rejected).resolve_left (by simp)) ?_
        rw [last]
        exact told.unheard key'
      · exact ⟨_, rfl, settled⟩
    · rename_i other
      exact told.answered call key' (old other)
  queued call key' mentioned := by
    rw [acquires, getElem?_snoc]
    rw [history] at mentioned
    split
    · rename_i last
      rcases List.mem_cons.mp mentioned with same | old
      · rcases entry with ⟨_, rfl⟩ | ⟨_, rfl | rfl⟩ <;> cases same
        exact ⟨_, rfl⟩
      · obtain ⟨_, found⟩ := told.queued call key' old
        rw [last, List.getElem?_eq_none (Nat.le_refl _)] at found
        cases found
    · rename_i other
      rcases List.mem_cons.mp mentioned with same | old
      · rcases entry with ⟨_, rfl⟩ | ⟨_, rfl | rfl⟩ <;> cases same
        exact absurd rfl other
      · exact told.queued call key' old
  settled call key' promise' found settled := by
    rw [acquires, getElem?_snoc] at found
    rw [history]
    split at found
    · rename_i last
      cases found
      rcases entry with ⟨pending, _⟩ | ⟨_, rfl | rfl⟩
      · exact absurd pending settled
      · exact Or.inl (last ▸ List.mem_cons_self)
      · exact Or.inr (last ▸ List.mem_cons_self)
    · exact (told.settled call key' promise' found settled).imp (List.mem_cons_of_mem _) (List.mem_cons_of_mem _)
  sound := by
    rw [history]
    exact ⟨sound, told.sound⟩

theorem Inv.refused (inv : Inv s) (key : String) (error : AcquireError) : Inv (s.refuse key error) :=
  ⟨inv.counts.append rfl (by simp) rfl rfl, inv.line.append rfl (by simp) rfl rfl rfl,
    inv.told.append rfl rfl inv.told.unheard (Or.inr ⟨by simp, Or.inr rfl⟩), inv.upper, inv.full⟩

theorem Inv.acquireSlot (inv : Inv s) (opts : AcquireSlotOptions) : Inv (s.acquireSlot opts) := by
  unfold Slots.acquireSlot
  dsimp only
  generalize opts.tenantKey.getD ANON_TENANT = key
  split
  · exact inv.refused key _
  · split
    · rename_i free
      have sound : SlotEvent.Sound (.granted s.acquires.length key) s.history := by
        refine ⟨inv.told.unheard, fun waited => ?_⟩
        obtain ⟨_, found⟩ := inv.told.queued _ _ waited
        rw [List.getElem?_eq_none (Nat.le_refl _)] at found
        cases found
      refine ⟨⟨fun key' => ?_, ?_, ?_⟩, inv.line.append rfl (by simp) rfl rfl rfl,
        inv.told.append rfl rfl sound (Or.inr ⟨by simp, Or.inl rfl⟩), free.1, fun waiting => absurd free.2 waiting⟩
      · show (s.incActive key).getTenantActiveCount key' = _
        unfold Slots.held
        rw [incActive_count, List.countP_append, List.countP_singleton, inv.counts.counted key']
        simp only [Acquire.holds, decide_true, Bool.true_and, decide_eq_true_eq, Nat.cast_add, Nat.cast_ite, Nat.cast_one, Nat.cast_zero]
        rfl
      · exact (congrArg (· + 1) inv.counts.total).trans (incActive_sum s key).symm
      · show s.totalActive + 1 = _
        unfold Slots.live
        rw [List.countP_append, List.countP_singleton, if_pos (by simp [Acquire.holds]), inv.counts.live]
        rfl
    · rename_i taken
      split
      · exact inv.refused key _
      · rename_i room
        have older : ∀ w ∈ s.waiters, w.call < s.acquires.length := fun w waits => inv.line.fresh_call waits
        refine ⟨inv.counts.append rfl (by simp) rfl rfl, ⟨?_, fun w waits => ?_, fun call key' found => ?_, fun timer armed => ?_,
          fun listener armed => ?_, fun key' => ?_⟩, inv.told.append rfl rfl inv.told.earlier_calls (Or.inl ⟨rfl, rfl⟩), inv.upper, fun _ => ?_⟩
        · refine List.pairwise_append.mpr ⟨inv.line.ordered, List.pairwise_singleton _ _, fun w waits last mine => ?_⟩
          cases List.mem_singleton.mp mine
          exact older w waits
        · rw [getElem?_snoc]
          rcases List.mem_append.mp waits with old | mine
          · rw [if_neg (Nat.ne_of_lt (older w old))]
            exact inv.line.pending w old
          · cases List.mem_singleton.mp mine
            rw [if_pos rfl]
        · rw [getElem?_snoc] at found
          split at found
          · rename_i last
            cases found
            exact List.mem_append_right _ (List.mem_singleton.mpr (by rw [last]))
          · exact List.mem_append_left _ (inv.line.waiting call key' found)
        · rcases List.mem_append.mp armed with old | mine
          · obtain ⟨w, waits, same⟩ := inv.line.timers timer old
            exact ⟨w, List.mem_append_left _ waits, same⟩
          · cases List.mem_singleton.mp mine
            exact ⟨_, List.mem_append_right _ (List.mem_singleton.mpr rfl), rfl⟩
        · rcases List.mem_append.mp armed with old | mine
          · obtain ⟨w, waits, same⟩ := inv.line.listeners listener old
            exact ⟨w, List.mem_append_left _ waits, same⟩
          · obtain ⟨signal, _, rfl⟩ := Option.map_eq_some_iff.mp (Option.mem_toList.mp mine)
            exact ⟨_, List.mem_append_right _ (List.mem_singleton.mpr rfl), rfl⟩
        · unfold Slots.queuedForTenant at room ⊢
          have capped := inv.line.capped key'
          unfold Slots.queuedForTenant at capped
          rw [List.countP_append, List.countP_singleton]
          by_cases own : key = key'
          · subst own
            rw [if_pos (decide_eq_true rfl)]
            omega
          · rw [if_neg (by simpa using own)]
            exact capped
        · by_cases waiting : s.waiters = []
          · exact Int.le_antisymm inv.upper (Int.not_lt.mp fun free => taken ⟨free, waiting⟩)
          · exact inv.full waiting

end Acquiring

theorem Inv.step (inv : Inv s) (action : SlotAction) : Inv (s.step action) := by
  cases action with
  | acquireSlot opts => exact inv.acquireSlot opts
  | release call => exact inv.release call
  | abort signal reason => exact inv.abort signal reason
  | timeout call => exact inv.timeout call

theorem inv_start : Inv {} where
  counts := ⟨fun _ => rfl, rfl, rfl⟩
  line := ⟨List.Pairwise.nil, List.forall_mem_nil _, fun _ _ found => by simp at found, List.forall_mem_nil _, List.forall_mem_nil _,
    fun _ => Nat.zero_le _⟩
  told := ⟨fun _ _ mentioned => by simp [Answered] at mentioned, fun _ _ mentioned => by simp at mentioned,
    fun _ _ _ found => by simp at found, trivial⟩
  upper := by decide
  full waiting := absurd rfl waiting

theorem run_inv (actions : List SlotAction) : Inv (Slots.run actions) := by
  have steps : ∀ (actions : List SlotAction) (s : Slots), Inv s → Inv (actions.foldl Slots.step s) := by
    intro actions
    induction actions with
    | nil => exact fun s inv => inv
    | cons action rest ih => exact fun s inv => ih _ (inv.step action)
  exact steps actions {} inv_start

/-! ### What holds in every run -/

/-- The counts are the slots held, none is idle while someone waits, and each acquire is answered once, in its tenant's order. -/
structure SafeAndFair (s : Slots) : Prop where
  tenants : s.totalActive = s.activeByTenant.values.sum
  handles : s.totalActive = s.live ∧ ∀ key, s.getTenantActiveCount key = s.held key
  range : 0 ≤ s.totalActive ∧ s.totalActive ≤ MAX_CONCURRENT_ANTHROPIC_CALLS
  full : s.waiters ≠ [] → s.totalActive = MAX_CONCURRENT_ANTHROPIC_CALLS
  once : ∀ later call key earlier, s.history = later ++ .granted call key :: earlier →
    (∀ key', .granted call key' ∉ earlier) ∧ .rejected call ∉ earlier
  capped : ∀ key, s.queuedForTenant key ≤ MAX_QUEUED_PER_TENANT
  arrival : ∀ later call key mid call' old, s.history = later ++ .granted call key :: (mid ++ .queued call key :: old) →
    .queued call' key ∈ old → Answered (mid ++ .queued call key :: old) call' key
  handed : ∀ call key, s.acquires[call]? = some ⟨key, .fulfilled false⟩ → s.waiters ≠ [] →
    ∃ before w after, s.waiters = before ++ w :: after ∧ (s.release call).waiters = before ++ after ∧
      (s.release call).history = .granted w.call w.key :: .released call :: s.history ∧
      ∀ w' ∈ s.waiters, s.held w.key - (if key = w.key then 1 else 0) ≤ s.held w'.key - if key = w'.key then 1 else 0

theorem Inv.handed (inv : Inv s) (there : s.acquires[call]? = some ⟨key, .fulfilled false⟩) (waiting : s.waiters ≠ []) :
    ∃ before w after, s.waiters = before ++ w :: after ∧ (s.release call).waiters = before ++ after ∧
      (s.release call).history = .granted w.call w.key :: .released call :: s.history ∧
      ∀ w' ∈ s.waiters, s.held w.key - (if key = w.key then 1 else 0) ≤ s.held w'.key - if key = w'.key then 1 else 0 := by
  obtain ⟨before, w, after, fairest, picked⟩ := @pick_fairest (s.freed call key) waiting
  have granted := admitNext_grant (inv.line.freed there) inv.freed_free fairest picked
  have least : ∀ w' ∈ s.waiters, (s.freed call key).getTenantActiveCount w.key ≤ (s.freed call key).getTenantActiveCount w'.key := by
    intro w' waits
    rcases (@mem_others (s.freed call key) w before after fairest.split w').mp waits with rfl | other
    · exact Int.le_refl _
    · rcases List.mem_append.mp other with ahead | behind
      · exact Int.le_of_lt (fairest.left w' ahead)
      · exact fairest.right w' behind
  refine ⟨before, w, after, fairest.split, ?_, ?_, fun w' waits => ?_⟩
  · rw [release_eq there, granted]
    rfl
  · rw [release_eq there, granted]
    rfl
  · have fewest := least w' waits
    rw [freed_count there inv.counts, freed_count there inv.counts, inv.counts.counted, inv.counts.counted] at fewest
    exact fewest

theorem slots_safe_and_fair (actions : List SlotAction) : SafeAndFair (Slots.run actions) := by
  have inv := run_inv actions
  refine ⟨inv.counts.total, ⟨inv.counts.live, inv.counts.counted⟩, ⟨?_, inv.upper⟩, inv.full, ?_, inv.line.capped, ?_,
    fun call key there waiting => inv.handed there waiting⟩
  · rw [inv.counts.live]
    exact live_nonneg
  · intro later call key earlier split
    obtain ⟨fresh, _⟩ := justified_at inv.told.sound split
    exact ⟨fun key' granted => fresh key' (Or.inl granted), fun rejected => fresh key (Or.inr rejected)⟩
  · intro later call key mid call' old split waited
    obtain ⟨_, order⟩ := justified_at inv.told.sound split
    have deeper : (Slots.run actions).history = (later ++ .granted call key :: mid) ++ .queued call key :: old := by
      rw [split, List.append_assoc]
      rfl
    have first := justified_at inv.told.sound deeper call' key waited
    exact order (List.mem_append_right _ List.mem_cons_self) call' first (List.mem_append_right _ (List.mem_cons_of_mem _ waited))

/-- A tenant without slots is served before the one that arrived earlier and has them all. -/
example : (Slots.run (List.replicate 16 (.acquireSlot { tenantKey := some "a" }) ++
    [.acquireSlot { tenantKey := some "b" }, .release 0])).history.head? = some (.granted 16 "b") := by decide +kernel

/-! ### Draining the line -/

/-- Where a slot is held, releasing it serves a waiter or leaves one slot fewer. -/
theorem Inv.progress (inv : Inv s) (there : s.acquires[call]? = some ⟨key, .fulfilled false⟩) :
    (s.release call).waiters.length + (s.release call).totalActive.toNat < s.waiters.length + s.totalActive.toNat ∧
      (∀ event ∈ s.history, event ∈ (s.release call).history) ∧
      ∀ w ∈ s.waiters, w ∈ (s.release call).waiters ∨ .granted w.call w.key ∈ (s.release call).history := by
  by_cases waiting : s.waiters = []
  · have freed : s.release call = s.freed call key := by
      rw [release_eq there]
      unfold Slots.admitNext Slots.pickFairWaiterIndex
      rw [show (s.freed call key).waiters = [] from waiting]
      exact ite_self _
    have held : 0 < s.live := Int.natCast_pos.mpr (List.countP_pos_iff.mpr ⟨_, List.mem_of_getElem? there, rfl⟩)
    have total : (s.freed call key).totalActive = s.totalActive - 1 := rfl
    rw [freed, total, inv.counts.live]
    refine ⟨?_, fun event member => List.mem_cons_of_mem _ member, fun w waits => Or.inl waits⟩
    change s.waiters.length + _ < _
    omega
  · obtain ⟨before, w, after, split, left, history, _⟩ := inv.handed there waiting
    have most := (inv.release call).upper
    rw [← inv.full waiting] at most
    rw [left, history, split]
    refine ⟨by simp; omega, fun event member => by simp [member], fun w' waits => ?_⟩
    rcases List.mem_append.mp waits with ahead | behind
    · exact Or.inl (List.mem_append_left _ ahead)
    · rcases List.mem_cons.mp behind with rfl | behind
      · exact Or.inr List.mem_cons_self
      · exact Or.inl (List.mem_append_right _ behind)

/-- From any state, releases of slots that are held serve everyone in the line and leave no slot taken. -/
theorem Inv.drains (inv : Inv s) : ∃ calls : List Nat, (calls.foldl Slots.release s).waiters = [] ∧
    (calls.foldl Slots.release s).totalActive = 0 ∧ (∀ event ∈ s.history, event ∈ (calls.foldl Slots.release s).history) ∧
    ∀ w ∈ s.waiters, .granted w.call w.key ∈ (calls.foldl Slots.release s).history := by
  induction size : s.waiters.length + s.totalActive.toNat using Nat.strong_induction_on generalizing s with
  | _ n ih =>
    by_cases idle : s.live = 0
    · have total : s.totalActive = 0 := inv.counts.live.trans idle
      have line : s.waiters = [] := by
        by_contra waiting
        exact absurd (total.symm.trans (inv.full waiting)) (by decide)
      exact ⟨[], line, total, fun _ member => member, fun w waits => by simp [line] at waits⟩
    · obtain ⟨acquire, member, holds⟩ := List.countP_pos_iff.mp (Nat.pos_of_ne_zero fun none => idle (congrArg Nat.cast none))
      obtain ⟨call, there⟩ := List.mem_iff_getElem?.mp member
      obtain ⟨key, promise⟩ := acquire
      obtain rfl : promise = .fulfilled false := of_decide_eq_true holds
      obtain ⟨smaller, kept, served⟩ := inv.progress there
      obtain ⟨calls, line, total, told, granted⟩ := ih _ (size ▸ smaller) (inv.release call) rfl
      exact ⟨call :: calls, line, total, fun event member => told event (kept event member),
        fun w waits => (served w waits).elim (granted w) (told _)⟩

theorem slots_drain (actions : List SlotAction) : ∃ calls : List Nat,
    (Slots.run (actions ++ calls.map .release)).waiters = [] ∧ (Slots.run (actions ++ calls.map .release)).totalActive = 0 ∧
      ∀ w ∈ (Slots.run actions).waiters, .granted w.call w.key ∈ (Slots.run (actions ++ calls.map .release)).history := by
  obtain ⟨calls, line, total, _, granted⟩ := (run_inv actions).drains
  have ran : Slots.run (actions ++ calls.map .release) = calls.foldl Slots.release (Slots.run actions) := by
    rw [Slots.run, List.foldl_append, List.foldl_map]
    rfl
  exact ⟨calls, ran ▸ line, ran ▸ total, ran ▸ granted⟩

end Bike4Mind.Semaphore
