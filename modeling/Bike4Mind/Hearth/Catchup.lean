import Bike4Mind.Hearth.HearthStore

/-! Catching up on a channel returns every event once and in order, as long as no event is inserted below a number already read. -/

namespace Bike4Mind.Hearth
open Concurrency

/-! ### What was read so far -/

/-- The events returned so far, one batch after the other. -/
def returned : List Event → List HearthEvent
  | [] => []
  | .returned batch :: earlier => returned earlier ++ batch
  | _ :: earlier => returned earlier

/-- How many range reads were made. -/
def reads : List Event → Nat
  | [] => 0
  | .returned _ :: earlier => reads earlier + 1
  | _ :: earlier => reads earlier

def lastSeq (log : List Event) : Nat := ((returned log).getLast?.map (·.seq)).getD 0

/-- The number up to which the actor has read, by its cursor or by the catch-up under way. -/
def World.passed (w : World) : Nat := max (w.cursor.getD 0) (lastSeq w.log)

/-- An insert happens above every number the actor has read. -/
def Unread : Party → World → Op → Draw → Prop
  | _, w, .create input seq, _ => w.admits input seq = true → w.passed < seq
  | _, _, _, _ => True

structure Delivered (c : Configuration) : Prop where
  ordered : (returned c.store.log).Pairwise (·.seq < ·.seq)
  genuine : ∀ e ∈ returned c.store.log, .inserted e ∈ c.store.log
  covered : ∀ e, .inserted e ∈ c.store.log → e.seq ≤ c.store.passed → e ∈ returned c.store.log ∨ .expired e ∈ c.store.log
  eventually : ∀ later e earlier, c.store.log = later ++ .inserted e :: earlier → e.seq ≤ reads later →
    e ∈ returned c.store.log ∨ .expired e ∈ c.store.log
  caughtUp : ∀ i batches, c.threads i = .pure (.caughtUp batches) → batches.flatten = returned c.store.log
  sole : ∀ e ∈ c.store.events, ∀ e' ∈ c.store.events, ∀ externalId, e.refs.externalId = some externalId →
    e'.refs.externalId = some externalId → e = e'
  appended : ∀ i input e, c.threads i = .pure (.appended input e) →
    .inserted e ∈ c.store.log ∧ e.refs.externalId = input.refs.externalId
  echoed : ∀ e e' externalId, .inserted e ∈ c.store.log → .inserted e' ∈ c.store.log → e.refs.externalId = some externalId →
    e'.refs.externalId = some externalId → e = e' ∨ .expired e ∈ c.store.log ∨ .expired e' ∈ c.store.log

/-! ### The protocol of the calls -/

inductive Phase where
  | before (input : AppendEventInput)
  | holding (input : AppendEventInput) (seq : Nat)
  | answered (input : AppendEventInput) (e : HearthEvent)
  | between (batches : List (List HearthEvent))
  | asked (batches : List (List HearthEvent)) (cursor : Nat)
  | read (batches : List (List HearthEvent)) (seq : Nat)
  | stopped

def Op.unrefused : Op → Prop
  | create _ _ => False
  | _ => True

inductive Moves : Protocol Phase Op Op.Value JsError
  | known {input : AppendEventInput} {externalId : String} {e : HearthEvent} : input.refs.externalId = some externalId →
      Moves (.before input) (.findByExternalId externalId) (.ok (some e)) (.answered input e)
  | unknown {input : AppendEventInput} {externalId : String} :
      Moves (.before input) (.findByExternalId externalId) (.ok none) (.before input)
  | allocated {input : AppendEventInput} {seq : Nat} : Moves (.before input) .incrementNextSeq (.ok (some seq)) (.holding input seq)
  | missing {input : AppendEventInput} : Moves (.before input) .incrementNextSeq (.ok none) .stopped
  | created {input : AppendEventInput} {seq : Nat} {e : HearthEvent} :
      Moves (.holding input seq) (.create input seq) (.ok e) (.answered input e)
  | refused {input : AppendEventInput} {seq : Nat} {err : JsError} :
      Moves (.holding input seq) (.create input seq) (.error err) (.before input)
  | asks {batches : List (List HearthEvent)} {cursor : Nat} : Moves (.between batches) .getCursor (.ok cursor) (.asked batches cursor)
  | readsNone {batches : List (List HearthEvent)} {cursor : Nat} {limit : Option Nat} :
      Moves (.asked batches cursor) (.eventsSince cursor limit) (.ok []) (.between (batches ++ [[]]))
  | reads {batches : List (List HearthEvent)} {cursor : Nat} {limit : Option Nat} {batch : List HearthEvent} {last : HearthEvent} :
      batch.getLast? = some last → Moves (.asked batches cursor) (.eventsSince cursor limit) (.ok batch) (.read (batches ++ [batch]) last.seq)
  | advances {batches : List (List HearthEvent)} {seq : Nat} : Moves (.read batches seq) (.setCursor seq) (.ok ()) (.between batches)
  | rejected {p : Phase} {op : Op} {err : JsError} : op.unrefused → Moves p op (.error err) .stopped

def Ended : Except JsError Outcome → Phase → Prop
  | .ok (.appended input e), p => p = .answered input e
  | .ok (.caughtUp batches), p => p = .between batches
  | .error _, _ => True

section Calls
variable {input : AppendEventInput}

/-- What an append leaves behind. -/
def Answers (input : AppendEventInput) : Except JsError HearthEvent → Phase → Prop
  | .ok e, p => p = .answered input e
  | .error _, _ => True

theorem raceWinner_follows {err : JsError} : Follows Moves (Answers input) (raceWinner input err) (.before input) := by
  unfold raceWinner
  split
  · rename_i externalId known
    split
    · trivial
    · refine follows_then (fun found => ?_) fun e => ⟨.stopped, .rejected trivial, trivial⟩
      cases found with
      | some winner => exact ⟨.answered input winner, .known known, rfl⟩
      | none => exact ⟨.before input, .unknown, trivial⟩
  · trivial

theorem allocateAndInsert_follows : Follows Moves (Answers input) (allocateAndInsert input) (.before input) := by
  refine follows_then (fun allocated => ?_) fun e => ⟨.stopped, .rejected trivial, trivial⟩
  cases allocated with
  | none => exact ⟨.stopped, .missing, trivial⟩
  | some seq =>
    refine ⟨.holding input seq, .allocated, follows_tryCatch (follows_perform fun reply => ?_)⟩
    cases reply with
    | ok e => exact ⟨.answered input e, .created, rfl⟩
    | error err => exact ⟨.before input, .refused, raceWinner_follows⟩

theorem appendEvent_follows : Follows Moves (Answers input) (appendEvent input) (.before input) := by
  unfold appendEvent
  split
  · exact allocateAndInsert_follows
  · exact allocateAndInsert_follows
  · rename_i externalId _ known
    refine follows_then (fun found => ?_) fun e => ⟨.stopped, .rejected trivial, trivial⟩
    cases found with
    | some existing => exact ⟨.answered input existing, .known known, rfl⟩
    | none => exact ⟨.before input, .unknown, allocateAndInsert_follows⟩

/-- What catching up leaves behind, after some earlier batches. -/
def CaughtUpFrom (batches : List (List HearthEvent)) : Except JsError (List (List HearthEvent)) → Phase → Prop
  | .ok later, p => p = .between (batches ++ later)
  | .error _, _ => True

def CaughtUpOnce (batches : List (List HearthEvent)) : Except JsError (List HearthEvent) → Phase → Prop
  | .ok events, p => p = .between (batches ++ [events])
  | .error _, _ => True

theorem catchup_follows {batches : List (List HearthEvent)} {limit : Option Nat} :
    Follows Moves (CaughtUpOnce batches) (catchup { limit }) (.between batches) := by
  refine follows_then (fun cursor => ⟨.asked batches cursor, .asks, ?_⟩) fun e => ⟨.stopped, .rejected trivial, trivial⟩
  refine follows_then (fun events => ?_) fun e => ⟨.stopped, .rejected trivial, trivial⟩
  cases last : events.getLast? with
  | none =>
    cases List.getLast?_eq_none_iff.mp last
    exact ⟨.between (batches ++ [[]]), .readsNone, rfl⟩
  | some e =>
    refine ⟨.read (batches ++ [events]) e.seq, .reads last, ?_⟩
    have resolved : Follows Moves (CaughtUpOnce batches) (.pure events) (.between (batches ++ [events])) := rfl
    exact follows_then (fun _ => ⟨.between (batches ++ [events]), .advances, resolved⟩) fun e => ⟨.stopped, .rejected trivial, trivial⟩

theorem catchups_follows {batches : List (List HearthEvent)} {limits : List (Option Nat)} :
    Follows Moves (CaughtUpFrom batches) (catchups limits) (.between batches) := by
  induction limits generalizing batches with
  | nil => exact congrArg Phase.between (List.append_nil batches).symm
  | cons limit rest ih =>
    refine follows_seq catchup_follows (fun events q reached => ?_) fun e q _ => trivial
    cases reached
    refine follows_seq ih (fun later q reached => ?_) fun e q _ => trivial
    cases reached
    show Phase.between (batches ++ [events] ++ later) = .between (batches ++ events :: later)
    rw [List.append_assoc]
    rfl

def startPhase (inputs : Nat → AppendEventInput) : Party → Phase
  | .writer i => .before (inputs i)
  | .reader => .between []

theorem thread_follows {inputs : Nat → AppendEventInput} {limits : List (Option Nat)} : (i : Party) →
    Follows Moves Ended (thread inputs limits i) (startPhase inputs i)
  | .writer _ => follows_seq appendEvent_follows (fun _ _ reached => reached) fun _ _ _ => trivial
  | .reader => follows_seq catchups_follows (fun _ _ reached => reached) fun _ _ _ => trivial

end Calls

/-! ### Range reads -/

section Reads
variable {w : World} {limit : Option Nat} {cursor : Nat} {e : HearthEvent}

instance : Std.Total World.bySeq := ⟨fun e e' => Nat.le_total e.seq e'.seq⟩

instance : IsTrans HearthEvent World.bySeq := ⟨fun e e' e'' (first : e.seq ≤ e'.seq) (second : e'.seq ≤ e''.seq) => Nat.le_trans first second⟩

/-- What a read without a limit returns. -/
def World.rest (w : World) (cursor : Nat) : List HearthEvent := (w.events.filter (cursor < ·.seq)).insertionSort World.bySeq

theorem mem_rest : e ∈ w.rest cursor ↔ e ∈ w.events ∧ cursor < e.seq := by
  unfold World.rest
  rw [List.mem_insertionSort, List.mem_filter, decide_eq_true_eq]

theorem rest_sorted (distinct : (w.events.map (·.seq)).Nodup) : (w.rest cursor).Pairwise (·.seq < ·.seq) := by
  have kept : ((w.events.filter (cursor < ·.seq)).map (·.seq)).Nodup := distinct.sublist (List.filter_sublist.map _)
  have apart : ((w.rest cursor).map (·.seq)).Nodup :=
    ((List.perm_insertionSort World.bySeq (w.events.filter (cursor < ·.seq))).map (·.seq)).nodup_iff.mpr kept
  have sorted : (w.rest cursor).Pairwise World.bySeq := List.pairwise_insertionSort World.bySeq _
  rw [List.nodup_iff_pairwise_ne, List.pairwise_map] at apart
  exact (sorted.and apart).imp fun both => Nat.lt_of_le_of_ne both.1 both.2

theorem since_starts : w.since cursor limit <+: w.rest cursor := by
  unfold World.since World.limited
  split
  · exact List.prefix_rfl
  · exact List.prefix_rfl
  · exact List.take_prefix _ _

theorem since_nonempty (waiting : e ∈ w.rest cursor) : w.since cursor limit ≠ [] := by
  have some_waiting : w.rest cursor ≠ [] := List.ne_nil_of_mem waiting
  unfold World.since World.limited
  split
  · exact some_waiting
  · exact some_waiting
  · rename_i n positive
    rw [Ne, List.take_eq_nil_iff, not_or]
    exact ⟨positive, some_waiting⟩

theorem since_covers (distinct : (w.events.map (·.seq)).Nodup) {last : HearthEvent} (returned : last ∈ w.since cursor limit)
    (waiting : e ∈ w.rest cursor) (below : e.seq ≤ last.seq) : e ∈ w.since cursor limit := by
  obtain ⟨left, split⟩ : w.since cursor limit <+: w.rest cursor := since_starts
  rw [← split] at waiting
  rcases List.mem_append.mp waiting with here | later
  · exact here
  · have sorted : (w.rest cursor).Pairwise (·.seq < ·.seq) := rest_sorted distinct
    rw [← split, List.pairwise_append] at sorted
    exact absurd (sorted.2.2 last returned e later) (Nat.not_lt.mpr below)

end Reads

/-! ### The invariant -/

/-- The rows of the channel against its history. -/
structure Rows (w : World) : Prop where
  distinct : (w.events.map (·.seq)).Nodup
  stored : ∀ e ∈ w.events, .inserted e ∈ w.log ∧ .expired e ∉ w.log
  kept : ∀ e, .inserted e ∈ w.log → e ∈ w.events ∨ .expired e ∈ w.log
  reaped : ∀ e, .expired e ∈ w.log → .inserted e ∈ w.log
  numbered : ∀ e, .inserted e ∈ w.log → 0 < e.seq ∧ e.seq ≤ w.nextSeq.getD 0
  apart : ∀ e e', .inserted e ∈ w.log → .inserted e' ∈ w.log → e.seq = e'.seq → e = e'
  echoed : ∀ e e' externalId, .inserted e ∈ w.log → .inserted e' ∈ w.log → e.refs.externalId = some externalId →
    e'.refs.externalId = some externalId → e = e' ∨ .expired e ∈ w.log ∨ .expired e' ∈ w.log

/-- What was read against what was inserted. -/
structure Readings (w : World) : Prop where
  ordered : (returned w.log).Pairwise (·.seq < ·.seq)
  genuine : ∀ e ∈ returned w.log, .inserted e ∈ w.log
  covered : ∀ e, .inserted e ∈ w.log → e.seq ≤ w.passed → e ∈ returned w.log ∨ .expired e ∈ w.log
  paced : ∀ later e earlier, w.log = later ++ .inserted e :: earlier →
    e ∈ returned w.log ∨ .expired e ∈ w.log ∨ reads later ≤ lastSeq w.log

def Reading (w : World) : Phase → Prop
  | .between batches => batches.flatten = returned w.log ∧ w.cursor.getD 0 = lastSeq w.log
  | .asked batches cursor => batches.flatten = returned w.log ∧ w.cursor.getD 0 = lastSeq w.log ∧ cursor = lastSeq w.log
  | .read batches seq => batches.flatten = returned w.log ∧ w.cursor.getD 0 ≤ lastSeq w.log ∧ seq = lastSeq w.log
  | _ => False

def Writing (w : World) : Phase → Prop
  | .before _ => True
  | .holding _ seq => 0 < seq ∧ seq ≤ w.nextSeq.getD 0 ∧ ∀ e, .inserted e ∈ w.log → e.seq ≠ seq
  | .answered input e => .inserted e ∈ w.log ∧ e.refs.externalId = input.refs.externalId
  | .stopped => True
  | _ => False

def Phase.seq? : Phase → Option Nat
  | .holding _ seq => some seq
  | _ => none

structure Inv (w : World) (ph : Party → Phase) : Prop where
  rows : Rows w
  readings : Readings w
  reader : Reading w (ph .reader)
  writers : ∀ i, Writing w (ph (.writer i))
  unshared : ∀ i j seq, (ph i).seq? = some seq → (ph j).seq? = some seq → i = j

section Steps
variable {w : World} {ph : Party → Phase} {i : Party} {q : Phase} {log : List Event}

theorem le_lastSeq (ordered : (returned log).Pairwise (·.seq < ·.seq)) {e : HearthEvent} (member : e ∈ returned log) :
    e.seq ≤ lastSeq log := by
  unfold lastSeq
  obtain ⟨front, last, shape⟩ := List.eq_nil_or_concat (returned log) |>.resolve_left (List.ne_nil_of_mem member)
  rw [shape, List.concat_eq_append] at ordered member ⊢
  rw [List.getLast?_concat, Option.map_some, Option.getD_some]
  rcases List.mem_append.mp member with earlier | here
  · rw [List.pairwise_append] at ordered
    exact Nat.le_of_lt (ordered.2.2 e earlier last List.mem_cons_self)
  · cases List.mem_singleton.mp here
    exact Nat.le_refl _

theorem unshared_update (unshared : ∀ i j seq, (ph i).seq? = some seq → (ph j).seq? = some seq → i = j) (bare : q.seq? = none) :
    ∀ j k seq, (Function.update ph i q j).seq? = some seq → (Function.update ph i q k).seq? = some seq → j = k := by
  intro j k seq left right
  by_cases own : j = i
  · subst own
    rw [Function.update_self, bare] at left
    cases left
  by_cases other : k = i
  · subst other
    rw [Function.update_self, bare] at right
    cases right
  rw [Function.update_of_ne own] at left
  rw [Function.update_of_ne other] at right
  exact unshared j k seq left right

theorem writers_update {j : Nat} (writers : ∀ i, Writing w (ph (.writer i))) (here : Writing w q) :
    ∀ i, Writing w (Function.update ph (.writer j) q (.writer i)) := by
  intro i
  by_cases own : i = j
  · subst own
    rw [Function.update_self]
    exact here
  · rw [Function.update_of_ne (fun same => own (Party.writer.inj same))]
    exact writers i

theorem reader_update {j : Nat} (reader : Reading w (ph .reader)) : Reading w (Function.update ph (.writer j) q .reader) := by
  rw [Function.update_of_ne (by simp)]
  exact reader

theorem inv_writer {j : Nat} (inv : Inv w ph) (here : Writing w q) (bare : q.seq? = none) : Inv w (Function.update ph (.writer j) q) where
  rows := inv.rows
  readings := inv.readings
  reader := reader_update inv.reader
  writers := writers_update inv.writers here
  unshared := unshared_update inv.unshared bare

theorem writing_of {j : Nat} (inv : Inv w ph) (at_ : ph (.writer j) = q) : Writing w q := at_ ▸ inv.writers j

theorem reading_of (inv : Inv w ph) (at_ : ph .reader = q) : Reading w q := at_ ▸ inv.reader

theorem find_inserted (rows : Rows w) {externalId : String} {e : HearthEvent}
    (found : w.events.find? (·.refs.externalId == some externalId) = some e) :
    .inserted e ∈ w.log ∧ e.refs.externalId = some externalId :=
  ⟨(rows.stored e (List.mem_of_find?_eq_some found)).1, by simpa using List.find?_some found⟩

/-! ### Taking a number -/

def World.allocate (w : World) (n : Nat) : World := { w with nextSeq := some (n + 1) }

theorem rows_allocate {n : Nat} (rows : Rows w) (next : w.nextSeq = some n) : Rows (w.allocate n) where
  distinct := rows.distinct
  stored := rows.stored
  kept := rows.kept
  reaped := rows.reaped
  numbered e inserted := by
    have bound := rows.numbered e inserted
    rw [next, Option.getD_some] at bound
    show 0 < e.seq ∧ e.seq ≤ n + 1
    omega
  apart := rows.apart
  echoed := rows.echoed

theorem inv_allocated {j n : Nat} {input : AppendEventInput} (inv : Inv w ph) (next : w.nextSeq = some n) :
    Inv (w.allocate n) (Function.update ph (.writer j) (.holding input (n + 1))) where
  rows := rows_allocate inv.rows next
  readings := ⟨inv.readings.ordered, inv.readings.genuine, inv.readings.covered, inv.readings.paced⟩
  reader := by
    rw [Function.update_of_ne (by simp)]
    have before := inv.reader
    cases at_ : ph .reader <;> rw [at_] at before <;> exact before
  writers := by
    refine writers_update (fun i => ?_) ⟨Nat.succ_pos n, Nat.le_refl _, fun e inserted => ?_⟩
    · have before := inv.writers i
      cases at_ : ph (.writer i) with
      | holding input seq =>
        rw [at_] at before
        obtain ⟨positive, bound, unused⟩ := before
        rw [next, Option.getD_some] at bound
        exact ⟨positive, Nat.le_succ_of_le bound, unused⟩
      | _ => rw [at_] at before; exact before
    · have bound := (inv.rows.numbered e inserted).2
      rw [next, Option.getD_some] at bound
      omega
  unshared := by
    have below : ∀ k seq, (ph k).seq? = some seq → seq ≤ n := by
      intro k seq held
      cases k with
      | reader =>
        have before := inv.reader
        cases at_ : ph .reader <;> rw [at_] at held before
        case holding => exact before.elim
        all_goals cases held
      | writer k =>
        have before := inv.writers k
        cases at_ : ph (.writer k) <;> rw [at_] at held before
        case holding input' seq' =>
          cases held
          have bound := before.2.1
          rwa [next, Option.getD_some] at bound
        all_goals cases held
    intro k l seq left right
    by_cases own : k = .writer j
    · by_cases other : l = .writer j
      · rw [own, other]
      · rw [Function.update_of_ne other] at right
        rw [own, Function.update_self] at left
        cases left
        exact absurd (below l _ right) (by omega)
    · rw [Function.update_of_ne own] at left
      by_cases other : l = .writer j
      · rw [other, Function.update_self] at right
        cases right
        exact absurd (below k _ left) (by omega)
      · rw [Function.update_of_ne other] at right
        exact inv.unshared k l seq left right

/-! ### Inserting -/

theorem admits_iff {input : AppendEventInput} {seq : Nat} : w.admits input seq = true ↔
    ∀ e ∈ w.events, e.seq ≠ seq ∧ ∀ externalId, e.refs.externalId = some externalId → input.refs.externalId ≠ some externalId := by
  unfold World.admits
  rw [Bool.not_eq_true', List.any_eq_false]
  refine forall₂_congr fun e _ => ?_
  simp only [Bool.or_eq_true, beq_iff_eq, Bool.and_eq_true, Option.isSome_iff_exists, not_or, not_and]
  refine and_congr Iff.rfl ⟨fun apart externalId named same => apart ⟨externalId, named⟩ (named.trans same.symm), ?_⟩
  rintro apart ⟨externalId, named⟩ same
  exact apart externalId named (same ▸ named)

theorem rows_insert {e : HearthEvent} (rows : Rows w) (admits : w.admits e.toAppendEventInput e.seq = true) (positive : 0 < e.seq)
    (bound : e.seq ≤ w.nextSeq.getD 0) (unused : ∀ e', .inserted e' ∈ w.log → e'.seq ≠ e.seq) : Rows (w.insert e) where
  distinct := by
    show ((w.events ++ [e]).map (·.seq)).Nodup
    rw [List.map_append, List.map_singleton, List.nodup_append]
    refine ⟨rows.distinct, List.nodup_singleton _, ?_⟩
    rintro seq member seq' here rfl
    obtain ⟨e', stored, rfl⟩ := List.mem_map.mp member
    exact ((admits_iff.mp admits) e' stored).1 (List.mem_singleton.mp here)
  stored e' member := by
    rcases List.mem_append.mp member with old | new
    · obtain ⟨inserted, alive⟩ := rows.stored e' old
      exact ⟨List.mem_cons_of_mem _ inserted, by simpa [World.insert] using alive⟩
    · cases List.mem_singleton.mp new
      refine ⟨List.mem_cons_self, fun expired => ?_⟩
      have expired' : Event.expired e ∈ w.log := by simpa [World.insert] using expired
      exact unused e (rows.reaped e expired') rfl
  kept e' member := by
    rcases List.mem_cons.mp member with same | old
    · cases same
      exact Or.inl (List.mem_append_right _ List.mem_cons_self)
    · exact (rows.kept e' old).imp (List.mem_append_left _) (List.mem_cons_of_mem _)
  reaped e' member := by
    have old : Event.expired e' ∈ w.log := by simpa [World.insert] using member
    exact List.mem_cons_of_mem _ (rows.reaped e' old)
  numbered e' member := by
    rcases List.mem_cons.mp member with same | old
    · cases same
      exact ⟨positive, bound⟩
    · exact rows.numbered e' old
  apart e' e'' left right same := by
    rcases List.mem_cons.mp left with new | old <;> rcases List.mem_cons.mp right with new' | old'
    · cases new
      cases new'
      rfl
    · cases new
      exact absurd same.symm (unused e'' old')
    · cases new'
      exact absurd same (unused e' old)
    · exact rows.apart e' e'' old old' same
  echoed e' e'' externalId left right named named' := by
    have alone : ∀ other, .inserted other ∈ w.log → other.refs.externalId = some externalId → e.refs.externalId = some externalId →
        .expired other ∈ w.log := by
      intro other inserted other_named e_named
      rcases rows.kept other inserted with stored | expired
      · exact absurd e_named (((admits_iff.mp admits) other stored).2 externalId other_named)
      · exact expired
    rcases List.mem_cons.mp left with new | old <;> rcases List.mem_cons.mp right with new' | old'
    · cases new
      cases new'
      exact Or.inl rfl
    · cases new
      exact Or.inr (Or.inr (List.mem_cons_of_mem _ (alone e'' old' named' named)))
    · cases new'
      exact Or.inr (Or.inl (List.mem_cons_of_mem _ (alone e' old named named')))
    · exact (rows.echoed e' e'' externalId old old' named named').imp_right
        (Or.imp (List.mem_cons_of_mem _) (List.mem_cons_of_mem _))

theorem split_cons {ev : Event} {later earlier : List Event} {e : HearthEvent} (split : ev :: log = later ++ .inserted e :: earlier) :
    (later = [] ∧ ev = .inserted e) ∨ ∃ rest, later = ev :: rest ∧ log = rest ++ .inserted e :: earlier := by
  cases later with
  | nil => exact Or.inl ⟨rfl, (List.cons.inj split).1⟩
  | cons first rest =>
    obtain ⟨rfl, tail⟩ := List.cons.inj split
    exact Or.inr ⟨rest, rfl, tail⟩

theorem readings_insert {e : HearthEvent} (readings : Readings w) (unread : w.passed < e.seq) : Readings (w.insert e) where
  ordered := readings.ordered
  genuine e' member := List.mem_cons_of_mem _ (readings.genuine e' member)
  covered e' member below := by
    rcases List.mem_cons.mp member with new | old
    · cases new
      exact absurd below (Nat.not_le.mpr unread)
    · exact (readings.covered e' old below).imp_right (List.mem_cons_of_mem _)
  paced later e' earlier split := by
    rcases split_cons split with ⟨rfl, _⟩ | ⟨rest, rfl, old⟩
    · exact Or.inr (Or.inr (Nat.zero_le _))
    · exact (readings.paced rest e' earlier old).imp_right (Or.imp_left (List.mem_cons_of_mem _))

theorem inv_created {j : Nat} {input : AppendEventInput} {e : HearthEvent} (inv : Inv w ph)
    (at_ : ph (.writer j) = .holding input e.seq) (same : e.toAppendEventInput = input)
    (admits : w.admits input e.seq = true) (unread : w.passed < e.seq) :
    Inv (w.insert e) (Function.update ph (.writer j) (.answered input e)) := by
  subst same
  obtain ⟨positive, bound, unused⟩ := writing_of inv at_
  refine ⟨rows_insert inv.rows admits positive bound unused, readings_insert inv.readings unread, ?_, ?_, unshared_update inv.unshared rfl⟩
  · refine reader_update ?_
    have before := inv.reader
    cases shape : ph .reader <;> rw [shape] at before <;> exact before
  · intro i
    by_cases own : i = j
    · subst own
      rw [Function.update_self]
      exact ⟨List.mem_cons_self, rfl⟩
    · rw [Function.update_of_ne (fun same => own (Party.writer.inj same))]
      have before := inv.writers i
      cases shape : ph (.writer i) with
      | holding input' seq =>
        rw [shape] at before
        refine ⟨before.1, before.2.1, fun e' member => ?_⟩
        rcases List.mem_cons.mp member with new | old
        · cases new
          rintro rfl
          exact own (Party.writer.inj (inv.unshared (.writer i) (.writer j) _ (by rw [shape]; rfl) (by rw [at_]; rfl)))
        · exact before.2.2 e' old
      | answered input' e' =>
        rw [shape] at before
        exact ⟨List.mem_cons_of_mem _ before.1, before.2⟩
      | _ => rw [shape] at before; exact before

/-! ### Expiring -/

def World.reap (w : World) (e : HearthEvent) : World := { w with events := w.events.filter (· ≠ e), log := .expired e :: w.log }

theorem inserted_reap {e e' : HearthEvent} : .inserted e' ∈ (w.reap e).log ↔ .inserted e' ∈ w.log := by simp [World.reap]

theorem expired_reap {e e' : HearthEvent} : .expired e' ∈ (w.reap e).log ↔ e' = e ∨ .expired e' ∈ w.log := by simp [World.reap]

theorem mem_reap {e e' : HearthEvent} : e' ∈ (w.reap e).events ↔ e' ∈ w.events ∧ e' ≠ e := by simp [World.reap]

theorem rows_reap {e : HearthEvent} (rows : Rows w) (stored : e ∈ w.events) : Rows (w.reap e) where
  distinct := rows.distinct.sublist (List.filter_sublist.map _)
  stored e' member := by
    obtain ⟨old, other⟩ := mem_reap.mp member
    obtain ⟨inserted, alive⟩ := rows.stored e' old
    exact ⟨inserted_reap.mpr inserted, fun expired => (expired_reap.mp expired).elim other alive⟩
  kept e' member := by
    rcases rows.kept e' (inserted_reap.mp member) with old | expired
    · by_cases same : e' = e
      · exact Or.inr (expired_reap.mpr (Or.inl same))
      · exact Or.inl (mem_reap.mpr ⟨old, same⟩)
    · exact Or.inr (expired_reap.mpr (Or.inr expired))
  reaped e' member := by
    rcases expired_reap.mp member with rfl | old
    · exact inserted_reap.mpr (rows.stored e' stored).1
    · exact inserted_reap.mpr (rows.reaped e' old)
  numbered e' member := rows.numbered e' (inserted_reap.mp member)
  apart e' e'' left right := rows.apart e' e'' (inserted_reap.mp left) (inserted_reap.mp right)
  echoed e' e'' externalId left right named named' :=
    (rows.echoed e' e'' externalId (inserted_reap.mp left) (inserted_reap.mp right) named named').imp_right
      (Or.imp (fun expired => expired_reap.mpr (Or.inr expired)) fun expired => expired_reap.mpr (Or.inr expired))

theorem readings_reap {e : HearthEvent} (readings : Readings w) : Readings (w.reap e) where
  ordered := readings.ordered
  genuine e' member := inserted_reap.mpr (readings.genuine e' member)
  covered e' member below := (readings.covered e' (inserted_reap.mp member) below).imp_right fun expired => expired_reap.mpr (Or.inr expired)
  paced later e' earlier split := by
    rcases split_cons split with ⟨_, same⟩ | ⟨rest, rfl, old⟩
    · cases same
    · exact (readings.paced rest e' earlier old).imp_right (Or.imp_left fun expired => expired_reap.mpr (Or.inr expired))

theorem inv_expired {e : HearthEvent} (inv : Inv w ph) (stored : e ∈ w.events) : Inv (w.reap e) ph where
  rows := rows_reap inv.rows stored
  readings := readings_reap inv.readings
  reader := by
    have before := inv.reader
    cases shape : ph .reader <;> rw [shape] at before <;> exact before
  writers i := by
    have before := inv.writers i
    cases shape : ph (.writer i) with
    | holding input seq =>
      rw [shape] at before
      exact ⟨before.1, before.2.1, fun e' inserted => before.2.2 e' (inserted_reap.mp inserted)⟩
    | answered input e' =>
      rw [shape] at before
      exact ⟨inserted_reap.mpr before.1, before.2⟩
    | _ => rw [shape] at before; exact before
  unshared := inv.unshared

/-! ### Reading -/

theorem lastSeq_none {batch : List HearthEvent} (none_ : batch = []) : lastSeq (.returned batch :: log) = lastSeq log := by
  unfold lastSeq
  rw [returned, none_, List.append_nil]

theorem lastSeq_some {batch : List HearthEvent} {last : HearthEvent} (ends : batch.getLast? = some last) :
    lastSeq (.returned batch :: log) = last.seq := by
  unfold lastSeq
  rw [returned, List.getLast?_append, ends]
  rfl

/-- What a catch-up reads from the cursor of an actor that is up to date with its own reads. -/
def World.readFrom (w : World) (limit : Option Nat) : World := w.record (.returned (w.since (lastSeq w.log) limit))

theorem returned_readFrom {limit : Option Nat} :
    returned (w.readFrom limit).log = returned w.log ++ w.since (lastSeq w.log) limit := rfl

theorem inserted_readFrom {limit : Option Nat} {e : HearthEvent} : .inserted e ∈ (w.readFrom limit).log ↔ .inserted e ∈ w.log := by
  simp [World.readFrom, World.record]

theorem expired_readFrom {limit : Option Nat} {e : HearthEvent} : .expired e ∈ (w.readFrom limit).log ↔ .expired e ∈ w.log := by
  simp [World.readFrom, World.record]

theorem mem_since {limit : Option Nat} {cursor : Nat} {e : HearthEvent} (member : e ∈ w.since cursor limit) :
    e ∈ w.events ∧ cursor < e.seq := mem_rest.mp (since_starts.subset member)

theorem rows_readFrom {limit : Option Nat} (rows : Rows w) : Rows (w.readFrom limit) where
  distinct := rows.distinct
  stored e member := by
    obtain ⟨inserted, alive⟩ := rows.stored e member
    exact ⟨inserted_readFrom.mpr inserted, fun expired => alive (expired_readFrom.mp expired)⟩
  kept e member := (rows.kept e (inserted_readFrom.mp member)).imp_right expired_readFrom.mpr
  reaped e member := inserted_readFrom.mpr (rows.reaped e (expired_readFrom.mp member))
  numbered e member := rows.numbered e (inserted_readFrom.mp member)
  apart e e' left right := rows.apart e e' (inserted_readFrom.mp left) (inserted_readFrom.mp right)
  echoed e e' externalId left right named named' :=
    (rows.echoed e e' externalId (inserted_readFrom.mp left) (inserted_readFrom.mp right) named named').imp_right
      (Or.imp expired_readFrom.mpr expired_readFrom.mpr)

/-- An event that is neither read nor expired is in the next read's range, which is not empty. -/
theorem next_read (limit : Option Nat) {e : HearthEvent} (rows : Rows w) (inserted : .inserted e ∈ w.log)
    (above : lastSeq w.log < e.seq) (alive : .expired e ∉ w.log) :
    e ∈ w.rest (lastSeq w.log) ∧ ∃ last, (w.since (lastSeq w.log) limit).getLast? = some last ∧ last ∈ w.since (lastSeq w.log) limit := by
  have stored := (rows.kept e inserted).resolve_right alive
  have waiting : e ∈ w.rest (lastSeq w.log) := mem_rest.mpr ⟨stored, above⟩
  have some_read : w.since (lastSeq w.log) limit ≠ [] := since_nonempty waiting
  exact ⟨waiting, _, List.getLast?_eq_getLast_of_ne_nil some_read, List.getLast_mem some_read⟩

theorem readings_readFrom {limit : Option Nat} (rows : Rows w) (readings : Readings w) (upToDate : w.cursor.getD 0 = lastSeq w.log) :
    Readings (w.readFrom limit) := by
  have passed_is : w.passed = lastSeq w.log := by
    unfold World.passed
    rw [upToDate, Nat.max_self]
  have unread : ∀ e, .inserted e ∈ w.log → e ∉ returned w.log → .expired e ∉ w.log → lastSeq w.log < e.seq := by
    intro e inserted unreturned alive
    by_contra below
    rcases readings.covered e inserted (by omega) with member | expired
    · exact unreturned member
    · exact alive expired
  refine ⟨?_, ?_, ?_, ?_⟩
  · rw [returned_readFrom, List.pairwise_append]
    refine ⟨readings.ordered, (rest_sorted rows.distinct).sublist since_starts.sublist, fun e old e' new => ?_⟩
    exact Nat.lt_of_le_of_lt (le_lastSeq readings.ordered old) (mem_since new).2
  · intro e member
    rw [returned_readFrom] at member
    rw [inserted_readFrom]
    rcases List.mem_append.mp member with old | new
    · exact readings.genuine e old
    · exact (rows.stored e (mem_since new).1).1
  · intro e member below
    rw [inserted_readFrom] at member
    rw [returned_readFrom, expired_readFrom, List.mem_append]
    by_cases old : e ∈ returned w.log
    · exact Or.inl (Or.inl old)
    by_cases expired : .expired e ∈ w.log
    · exact Or.inr expired
    obtain ⟨waiting, last, ends, here⟩ := next_read limit rows member (unread e member old expired) expired
    refine Or.inl (Or.inr (since_covers rows.distinct here waiting ?_))
    have reached : (w.readFrom limit).passed = max (lastSeq w.log) last.seq := by
      show max (w.cursor.getD 0) (lastSeq (.returned _ :: w.log)) = _
      rw [upToDate, lastSeq_some ends]
    have above := (mem_since here).2
    omega
  · intro later e earlier split
    rcases split_cons split with ⟨_, same⟩ | ⟨rest, rfl, at_⟩
    · cases same
    rw [returned_readFrom, expired_readFrom, List.mem_append]
    by_cases old : e ∈ returned w.log
    · exact Or.inl (Or.inl old)
    by_cases expired : .expired e ∈ w.log
    · exact Or.inr (Or.inl expired)
    have inserted : .inserted e ∈ w.log := by
      rw [at_]
      exact List.mem_append_right _ List.mem_cons_self
    obtain ⟨_, last, ends, here⟩ := next_read limit rows inserted (unread e inserted old expired) expired
    have before := ((readings.paced rest e earlier at_).resolve_left old).resolve_left expired
    have above := (mem_since here).2
    refine Or.inr (Or.inr ?_)
    show reads rest + 1 ≤ lastSeq (.returned _ :: w.log)
    rw [lastSeq_some ends]
    omega

theorem inv_read {limit : Option Nat} (inv : Inv w ph) (upToDate : w.cursor.getD 0 = lastSeq w.log) (bare : q.seq? = none)
    (after : Reading (w.readFrom limit) q) : Inv (w.readFrom limit) (Function.update ph .reader q) where
  rows := rows_readFrom inv.rows
  readings := readings_readFrom inv.rows inv.readings upToDate
  reader := by
    rw [Function.update_self]
    exact after
  writers i := by
    rw [Function.update_of_ne (by simp)]
    have before := inv.writers i
    cases shape : ph (.writer i) with
    | holding input seq =>
      rw [shape] at before
      exact ⟨before.1, before.2.1, fun e inserted => before.2.2 e (inserted_readFrom.mp inserted)⟩
    | answered input e =>
      rw [shape] at before
      exact ⟨inserted_readFrom.mpr before.1, before.2⟩
    | _ => rw [shape] at before; exact before
  unshared := unshared_update inv.unshared bare

/-! ### The cursor -/

def World.advance (w : World) (seq : Nat) : World := { w with cursor := some (max (w.cursor.getD 0) seq) }

theorem inv_advanced {batches : List (List HearthEvent)} {seq : Nat} (inv : Inv w ph) (at_ : ph .reader = .read batches seq) :
    Inv (w.advance seq) (Function.update ph .reader (.between batches)) := by
  obtain ⟨listed, behind, rfl⟩ := reading_of inv at_
  have reached : (w.advance (lastSeq w.log)).passed = w.passed := by
    show max (max (w.cursor.getD 0) (lastSeq w.log)) (lastSeq w.log) = max (w.cursor.getD 0) (lastSeq w.log)
    omega
  refine ⟨⟨inv.rows.distinct, inv.rows.stored, inv.rows.kept, inv.rows.reaped, inv.rows.numbered, inv.rows.apart, inv.rows.echoed⟩,
    ⟨inv.readings.ordered, inv.readings.genuine, ?_, inv.readings.paced⟩, ?_, ?_, unshared_update inv.unshared rfl⟩
  · rw [reached]
    exact inv.readings.covered
  · rw [Function.update_self]
    exact ⟨listed, Nat.max_eq_right behind⟩
  · intro i
    rw [Function.update_of_ne (by simp)]
    have before := inv.writers i
    cases shape : ph (.writer i) <;> rw [shape] at before <;> exact before

end Steps

/-! ### Runs -/

section Runs
variable {w w' : World} {ph : Party → Phase} {i : Party}

theorem writer_at {p : Phase} (inv : Inv w ph) (at_ : ph i = p) (append : ¬ Reading w p) : ∃ j, i = .writer j := by
  cases i with
  | writer j => exact ⟨j, rfl⟩
  | reader => exact absurd (reading_of inv at_) append

theorem reader_at {p : Phase} (inv : Inv w ph) (at_ : ph i = p) (catching : ¬ Writing w p) : i = .reader := by
  cases i with
  | writer j => exact absurd (writing_of inv at_) catching
  | reader => rfl

theorem exec_create {input : AppendEventInput} {seq : Nat} {draw : Draw} {reply : Except JsError HearthEvent}
    (executed : w.exec (.create input seq) draw = (reply, w')) :
    (∃ e, reply = .ok e ∧ w' = w.insert e ∧ e.toAppendEventInput = input ∧ e.seq = seq ∧ w.admits input seq = true) ∨
      reply = .error E11000 ∧ w' = w := by
  unfold World.exec at executed
  dsimp only at executed
  split at executed
  · rename_i admits
    cases executed
    exact Or.inl ⟨_, rfl, rfl, rfl, rfl, admits⟩
  · cases executed
    exact Or.inr ⟨rfl, rfl⟩

theorem exec_error {op : Op} {draw : Draw} {err : JsError} (executed : w.exec op draw = (.error err, w')) :
    ¬ op.unrefused ∧ w' = w := by
  cases op with
  | create input seq =>
    rcases exec_create executed with ⟨e, same, _⟩ | ⟨_, same⟩
    · cases same
    · exact ⟨id, same⟩
  | _ => cases executed

theorem inv_step {op : Op} {draw : Draw} {reply : Except JsError op.Value} {q : Phase} (inv : Inv w ph) (meets : Unread i w op draw)
    (executed : w.exec op draw = (reply, w')) {p : Phase} (at_ : ph i = p) (permitted : Moves p op reply q) :
    Inv w' (Function.update ph i q) := by
  cases permitted with
  | known named =>
    obtain ⟨j, rfl⟩ := writer_at inv at_ id
    have found := Except.ok.inj (congrArg Prod.fst executed)
    cases congrArg Prod.snd executed
    obtain ⟨inserted, same⟩ := find_inserted inv.rows found
    exact inv_writer inv ⟨inserted, same.trans named.symm⟩ rfl
  | unknown =>
    obtain ⟨j, rfl⟩ := writer_at inv at_ id
    cases congrArg Prod.snd executed
    exact inv_writer inv trivial rfl
  | allocated =>
    obtain ⟨j, rfl⟩ := writer_at inv at_ id
    have next := Except.ok.inj (congrArg Prod.fst executed)
    obtain ⟨n, stored, rfl⟩ := Option.map_eq_some_iff.mp next
    have same : w' = w.allocate n := by
      have moved : w' = { w with nextSeq := w.nextSeq.map (· + 1) } := (congrArg Prod.snd executed).symm
      rw [moved, next]
      rfl
    rw [same]
    exact inv_allocated inv stored
  | missing =>
    obtain ⟨j, rfl⟩ := writer_at inv at_ id
    have next := Except.ok.inj (congrArg Prod.fst executed)
    have same : w' = w := by
      have moved : w' = { w with nextSeq := w.nextSeq.map (· + 1) } := (congrArg Prod.snd executed).symm
      rw [moved, next, ← Option.map_eq_none_iff.mp next]
    rw [same]
    exact inv_writer inv trivial rfl
  | created =>
    obtain ⟨j, rfl⟩ := writer_at inv at_ id
    rcases exec_create executed with ⟨e, same, rfl, input_is, rfl, admits⟩ | ⟨same, _⟩
    · cases same
      exact inv_created inv at_ input_is admits (meets admits)
    · cases same
  | refused =>
    obtain ⟨j, rfl⟩ := writer_at inv at_ id
    obtain ⟨_, rfl⟩ := exec_error executed
    exact inv_writer inv trivial rfl
  | asks =>
    cases reader_at inv at_ id
    obtain ⟨listed, upToDate⟩ := reading_of inv at_
    have asked := Except.ok.inj (congrArg Prod.fst executed)
    cases congrArg Prod.snd executed
    refine ⟨inv.rows, inv.readings, ?_, fun j => ?_, unshared_update inv.unshared rfl⟩
    · rw [Function.update_self]
      exact ⟨listed, upToDate, asked.symm.trans upToDate⟩
    · rw [Function.update_of_ne (by simp)]
      exact inv.writers j
  | readsNone =>
    cases reader_at inv at_ id
    obtain ⟨listed, upToDate, rfl⟩ := reading_of inv at_
    have batch := Except.ok.inj (congrArg Prod.fst executed)
    cases congrArg Prod.snd executed
    refine inv_read inv upToDate rfl ⟨?_, ?_⟩
    · rw [returned_readFrom, batch, List.flatten_append, listed, List.flatten_singleton]
    · exact upToDate.trans (lastSeq_none batch).symm
  | reads ends =>
    cases reader_at inv at_ id
    obtain ⟨listed, upToDate, rfl⟩ := reading_of inv at_
    have batch := Except.ok.inj (congrArg Prod.fst executed)
    cases congrArg Prod.snd executed
    rw [← batch] at ends
    refine inv_read inv upToDate rfl ⟨?_, ?_, (lastSeq_some ends).symm⟩
    · rw [returned_readFrom, ← batch, List.flatten_append, listed, List.flatten_singleton]
    · have above := (mem_since (List.mem_of_getLast? ends)).2
      show w.cursor.getD 0 ≤ lastSeq (.returned _ :: w.log)
      rw [lastSeq_some ends]
      omega
  | advances =>
    cases reader_at inv at_ id
    cases congrArg Prod.snd executed
    exact inv_advanced inv at_
  | rejected other =>
    exact absurd other (exec_error executed).1

theorem preserves : Preserves semantics Moves Unread Inv where
  env inv moved := by
    obtain ⟨⟨stored, _⟩, same⟩ := Option.ite_none_right_eq_some.mp moved
    cases same
    exact inv_expired inv stored
  step inv meets executed permitted := inv_step inv meets (Option.some.inj executed) rfl permitted

theorem rows_empty : Rows .empty where
  distinct := List.nodup_nil
  stored _ member := absurd member List.not_mem_nil
  kept _ member := absurd member List.not_mem_nil
  reaped _ member := absurd member List.not_mem_nil
  numbered _ member := absurd member List.not_mem_nil
  apart _ _ member := absurd member List.not_mem_nil
  echoed _ _ _ member := absurd member List.not_mem_nil

theorem readings_empty : Readings .empty where
  ordered := List.Pairwise.nil
  genuine _ member := absurd member List.not_mem_nil
  covered _ member := absurd member List.not_mem_nil
  paced _ _ _ split := absurd split.symm (List.append_ne_nil_of_right_ne_nil _ (List.cons_ne_nil _ _))

theorem start_tracked {inputs : Nat → AppendEventInput} {limits : List (Option Nat)} : Tracked Moves Ended Inv (start inputs limits) := by
  refine ⟨startPhase inputs, ⟨rows_empty, readings_empty, ⟨rfl, rfl⟩, fun _ => trivial, ?_⟩, thread_follows⟩
  intro i j seq held
  cases i <;> cases held

theorem delivered {c : Configuration} (tracked : Tracked Moves Ended Inv c) : Delivered c := by
  obtain ⟨ph, inv, follows⟩ := tracked
  refine ⟨inv.readings.ordered, inv.readings.genuine, inv.readings.covered, ?_, ?_, ?_, ?_, inv.rows.echoed⟩
  · intro later e earlier split enough
    rcases inv.readings.paced later e earlier split with member | expired | behind
    · exact Or.inl member
    · exact Or.inr expired
    · refine inv.readings.covered e ?_ (Nat.le_trans enough (Nat.le_trans behind (Nat.le_max_right _ _)))
      rw [split]
      exact List.mem_append_right _ List.mem_cons_self
  · intro i batches ended
    have here := follows i
    rw [ended] at here
    cases reader_at inv here id
    exact (reading_of inv here).1
  · intro e stored e' stored' externalId named named'
    obtain ⟨inserted, alive⟩ := inv.rows.stored e stored
    obtain ⟨inserted', alive'⟩ := inv.rows.stored e' stored'
    exact (inv.rows.echoed e e' externalId inserted inserted' named named').resolve_right (not_or.mpr ⟨alive, alive'⟩)
  · intro i input e ended
    have here := follows i
    rw [ended] at here
    obtain ⟨j, rfl⟩ := writer_at inv here id
    exact writing_of inv here

/-- Inserting at or below a number the actor has read loses the event at once. -/
theorem insert_loses {c : Configuration} {op : Op} {next : Except JsError op.Value → Call Outcome} {draw : Draw}
    (tracked : Tracked Moves Ended Inv c) (atAwait : c.threads i = .await op next) (late : ¬ Unread i c.store op draw) :
    ∃ c', semantics.resume c i draw = some c' ∧ ¬ Delivered c' := by
  obtain ⟨ph, inv, follows⟩ := tracked
  cases op with
  | create input seq =>
    have admits : c.store.admits input seq = true := by
      by_contra refused
      exact late fun admits => absurd admits refused
    have below : seq ≤ c.store.passed := by
      by_contra above
      exact late fun _ => Nat.lt_of_not_le above
    let e : HearthEvent := { toAppendEventInput := input, id := draw.id, seq := seq, createdAt := draw.createdAt }
    have executed : c.store.exec (.create input seq) draw = (.ok e, c.store.insert e) := if_pos admits
    have resumed : semantics.resume c i draw =
        some { store := c.store.insert e, threads := Function.update c.threads i (next (.ok e)) } := by
      simp only [Semantics.resume, atAwait, semantics, executed, Option.map_some]
    refine ⟨_, resumed, fun delivered => ?_⟩
    have here := follows i
    rw [atAwait] at here
    obtain ⟨q, permitted, _⟩ := here (.ok e)
    cases at_ : ph i <;> rw [at_] at permitted <;> cases permitted
    obtain ⟨j, rfl⟩ := writer_at inv at_ id
    obtain ⟨_, _, unused⟩ := writing_of inv at_
    rcases delivered.covered e List.mem_cons_self below with member | expired
    · exact unused e (inv.readings.genuine e member) rfl
    · have old : Event.expired e ∈ c.store.log := by simpa [World.insert] using expired
      exact unused e (inv.rows.reaped e old) rfl
  | _ => exact absurd trivial late

theorem catchup_skips_nothing_iff (inputs : Nat → AppendEventInput) (limits : List (Option Nat)) (sched : List (Action Party Draw HearthEvent)) :
    semantics.Always Delivered (start inputs limits) sched ↔ semantics.Meets Unread (start inputs limits) sched :=
  always_iff_meets_config preserves delivered insert_loses start_tracked

end Runs

/-! ### A late insert -/

def message (actorId : String) : AppendEventInput where
  actorId := actorId
  kind := .message
  human := { text := "hello", format := .md }
  origin := .session

def samplePosts : Nat → AppendEventInput
  | 0 => message "slow"
  | _ => message "fast"

/-- The slow writer takes number 1, the fast one takes and inserts number 2, the actor catches up, and the slow one inserts. -/
def lateInsert : List (Action Party Draw HearthEvent) :=
  [.resume (.writer 0) {}, .resume (.writer 1) {}, .resume (.writer 1) {}, .resume .reader {}, .resume .reader {}, .resume .reader {},
    .resume (.writer 0) {}, .resume .reader {}, .resume .reader {}]

theorem late_insert_lost : ∃ c, semantics.run (start samplePosts [none, none]) lateInsert = some c ∧ ¬ Delivered c := by
  refine ⟨_, rfl, fun delivered => ?_⟩
  have lost := delivered.covered { toAppendEventInput := message "slow", id := "", seq := 1, createdAt := 0 } (by decide) (by decide)
  revert lost
  decide

end Bike4Mind.Hearth
