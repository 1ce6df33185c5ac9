import Mathlib.Data.List.Nodup
import Bike4Mind.Concurrency.History
import Bike4Mind.AgentExecution.PauseProtocol

/-!
Whose move it is, and what becomes of a withheld call. At any moment one party at most carries the
run, and every withheld call has been executed or is in that party's hands or in the stored pause.
-/

namespace Bike4Mind.AgentExecution
open Concurrency

section Books
variable {history : List PauseEvent} {owed : List GatedToolCall}

def Executed (history : List PauseEvent) (id : Option String) : Prop := ∃ call ∈ executedCalls history, some call.id = id

/-- `owed` is what is left of the withheld calls. -/
structure Books (history : List PauseEvent) (owed : List GatedToolCall) : Prop where
  distinct : ((withheldCalls history).map (·.id)).Nodup
  withheld : ∀ call ∈ owed, call ∈ withheldCalls history
  unexecuted : ∀ call ∈ owed, call ∉ executedCalls history
  owedIds : (owed.map (·.id)).Nodup
  executed : ∀ call ∈ executedCalls history, call ∈ withheldCalls history
  covered : ∀ call ∈ withheldCalls history, call ∈ executedCalls history ∨ call ∈ owed

theorem same_call (distinct : ((withheldCalls history).map (·.id)).Nodup) {a b : GatedToolCall}
    (left : a ∈ withheldCalls history) (right : b ∈ withheldCalls history) (same : a.id = b.id) : a = b :=
  List.inj_on_of_nodup_map distinct left right same

/-- An owed call's id has not been executed under another input either. -/
theorem Books.fresh (books : Books history owed) {call : GatedToolCall} (member : call ∈ owed) :
    ¬ Executed history (some call.id) := by
  rintro ⟨other, executed, same⟩
  have equal := same_call books.distinct (books.executed other executed) (books.withheld call member)
    (Option.some.inj same)
  exact books.unexecuted call member (equal ▸ executed)

theorem Books.congr (books : Books history owed) {history' : List PauseEvent} (withheld : withheldCalls history' = withheldCalls history)
    (executed : executedCalls history' = executedCalls history) : Books history' owed := by
  obtain ⟨distinct, listed, unexecuted, owedIds, done, covered⟩ := books
  rw [← withheld] at distinct listed done covered
  rw [← executed] at unexecuted done covered
  exact ⟨distinct, listed, unexecuted, owedIds, done, covered⟩

theorem Books.kept (books : Books history owed) {e : PauseEvent} (calls : e.calls = []) (execution : e.execution? = none) :
    Books (e :: history) owed :=
  books.congr (by simp [withheldCalls, calls]) (by simp [executedCalls, execution])

theorem Books.execute {call : GatedToolCall} (books : Books history (call :: owed)) {approvedTools deniedTools : List String} :
    Books (.executed call approvedTools deniedTools :: history) owed := by
  have sameWithheld : withheldCalls (.executed call approvedTools deniedTools :: history) = withheldCalls history := by
    simp [withheldCalls, PauseEvent.calls]
  have extended : executedCalls (.executed call approvedTools deniedTools :: history) = call :: executedCalls history := by
    simp [executedCalls, PauseEvent.execution?]
  obtain ⟨first, rest⟩ := List.nodup_cons.mp books.owedIds
  constructor
  · rw [sameWithheld]
    exact books.distinct
  · rw [sameWithheld]
    exact fun other member => books.withheld other (List.mem_cons_of_mem _ member)
  · intro other member
    rw [extended]
    rintro executed
    rcases List.mem_cons.mp executed with rfl | earlier
    · exact first (List.mem_map_of_mem member)
    · exact books.unexecuted other (List.mem_cons_of_mem _ member) earlier
  · exact rest
  · rw [sameWithheld, extended]
    intro other executed
    rcases List.mem_cons.mp executed with rfl | earlier
    · exact books.withheld other List.mem_cons_self
    · exact books.executed other earlier
  · rw [sameWithheld, extended]
    intro other withheld
    rcases books.covered other withheld with executed | member
    · exact Or.inl (List.mem_cons_of_mem _ executed)
    · rcases List.mem_cons.mp member with rfl | member
      · exact Or.inl List.mem_cons_self
      · exact Or.inr member

theorem Books.withhold (books : Books history []) {calls : List GatedToolCall} (distinct : (calls.map (·.id)).Nodup)
    (fresh : ∀ call ∈ calls, call.id ∉ (withheldCalls history).map (·.id)) : Books (.withheld calls :: history) calls := by
  have extended : withheldCalls (.withheld calls :: history) = calls ++ withheldCalls history := by
    simp [withheldCalls, PauseEvent.calls]
  have sameExecuted : executedCalls (.withheld calls :: history) = executedCalls history := rfl
  constructor
  · rw [extended, List.map_append]
    refine List.nodup_append.mpr ⟨distinct, books.distinct, ?_⟩
    rintro id new _ old rfl
    obtain ⟨call, member, rfl⟩ := List.mem_map.mp new
    exact fresh call member old
  · rw [extended]
    exact fun call member => List.mem_append_left _ member
  · intro call member executed
    rw [sameExecuted] at executed
    exact fresh call member (List.mem_map_of_mem (books.executed call executed))
  · exact distinct
  · rw [extended, sameExecuted]
    exact fun call executed => List.mem_append_right _ (books.executed call executed)
  · rw [extended, sameExecuted]
    intro call withheld
    rcases List.mem_append.mp withheld with new | old
    · exact Or.inr new
    · rcases books.covered call old with executed | absurd
      · exact Or.inl executed
      · cases absurd

theorem Books.reorder (books : Books history owed) {owed' : List GatedToolCall} (perm : owed'.Perm owed) :
    Books history owed' where
  distinct := books.distinct
  withheld call member := books.withheld call (perm.mem_iff.mp member)
  unexecuted call member := books.unexecuted call (perm.mem_iff.mp member)
  owedIds := (perm.map _).nodup_iff.mpr books.owedIds
  executed := books.executed
  covered call withheld := (books.covered call withheld).imp_right perm.mem_iff.mpr

end Books

/-- With distinct ids, the two parts of an approved pause are its calls. -/
theorem partition_perm {gate : GateContext} {approvedTools deniedTools : List String} {withheld : List GatedToolCall}
    {approvedToolCallId : Option String} (distinct : (withheld.map (·.id)).Nodup) :
    ((gate.partitionApprovedPause approvedTools deniedTools withheld approvedToolCallId).1 ++
      (gate.partitionApprovedPause approvedTools deniedTools withheld approvedToolCallId).2).Perm withheld := by
  have same : (gate.partitionApprovedPause approvedTools deniedTools withheld approvedToolCallId).2 =
      withheld.filter fun c =>
        !(some c.id == approvedToolCallId || !gate.shouldWithholdToolCall approvedTools deniedTools c.name) := by
    refine List.filter_congr fun c member => ?_
    rw [Bool.eq_iff_iff, decide_eq_true_eq, Bool.not_eq_true', ← Bool.not_eq_true]
    refine not_congr ⟨fun replayed => ?_, fun chosen => ?_⟩
    · obtain ⟨other, found, equal⟩ := List.mem_map.mp replayed
      obtain ⟨among, chosen⟩ := List.mem_filter.mp found
      rwa [List.inj_on_of_nodup_map distinct among member equal] at chosen
    · exact List.mem_map.mpr ⟨c, List.mem_filter.mpr ⟨member, chosen⟩, rfl⟩
  rw [same]
  exact List.filter_append_perm _ _

/-! ### Whose move it is -/

section Turns
variable {gate : GateContext} {w : PauseWorld} {ph : Party → PausePhase}

/-- The stored pause holds every call not executed yet, and names one of them. -/
structure Paused (w : PauseWorld) (pause : PendingPermission) : Prop where
  pending : w.document.pendingPermission = some pause
  books : Books w.history pause.gatedToolCalls
  asked : ∀ id ∈ askedIds w.history, Executed w.history id ∨ id = pause.toolCallId
  named : ∃ call ∈ pause.gatedToolCalls, some call.id = pause.toolCallId

structure Approved (w : PauseWorld) (pause : PendingPermission) : Prop extends Paused w pause where
  approved : pause.approved = true
  answered : .answered true pause.toolCallId ∈ w.history

/-- What an invocation finds when it is due. -/
inductive Due (w : PauseWorld) : Bool → Prop where
  | new (status : w.document.status = .pending) (unpaused : w.document.pendingPermission = none)
      (books : Books w.history []) (asked : ∀ id ∈ askedIds w.history, Executed w.history id) : Due w true
  | resumed {pause : PendingPermission} (status : w.document.status = .continuing) (approved : Approved w pause) : Due w false

structure InForce (w : PauseWorld) (execution : Document) : Prop where
  approvedTools : w.document.approvedTools = execution.approvedTools
  deniedTools : w.document.deniedTools = execution.deniedTools

structure Replaying (gate : GateContext) (w : PauseWorld) (execution : Document) (left still : List GatedToolCall) : Prop where
  status : w.document.status = .running
  lists : InForce w execution
  books : Books w.history (left ++ still)
  asked : ∀ id ∈ askedIds w.history, Executed w.history id ∨ ∃ call ∈ left, some call.id = id
  permitted : ∀ call ∈ left, .answered true (some call.id) ∈ w.history ∨
    gate.classifyToolPermission execution.approvedTools execution.deniedTools call.name = .allowed
  gated : ∀ call ∈ still, gate.shouldWithholdToolCall execution.approvedTools execution.deniedTools call.name = true

structure Settling (gate : GateContext) (w : PauseWorld) (execution : Document) (owed : List GatedToolCall) : Prop where
  unpaused : w.document.pendingPermission = none
  lists : InForce w execution
  books : Books w.history owed
  asked : ∀ id ∈ askedIds w.history, Executed w.history id
  gated : ∀ call ∈ owed, gate.shouldWithholdToolCall execution.approvedTools execution.deniedTools call.name = true

def Working (gate : GateContext) (w : PauseWorld) : PausePhase → Prop
  | .woken isNew => Due w isNew
  | .loaded isNew execution => execution = w.document ∧ Due w isNew
  | .replaying execution left still => Replaying gate w execution left still
  | .settling execution owed => w.document.status = .running ∧ Settling gate w execution owed
  | .asking execution gated owed => w.document.status = .awaitingPermission ∧ Settling gate w execution owed ∧
      gate.selectGatedToolCall execution.approvedTools execution.deniedTools owed = some gated
  | .failing => w.document.status = .running
  | _ => False

inductive Turn (gate : GateContext) (w : PauseWorld) (ph : Party → PausePhase) : Prop where
  | closed (quiet : ∀ j, (ph j).carries = false) (unsent : w.continuations = 0)
      (ended : w.document.status = .failed ∨
        w.document.status = .completed ∧ ∀ call ∈ withheldCalls w.history, call ∈ executedCalls w.history)
  | asked {pause : PendingPermission} (quiet : ∀ j, (ph j).carries = false) (unsent : w.continuations = 0)
      (status : w.document.status = .awaitingPermission) (paused : Paused w pause) (unapproved : pause.approved = false)
      (latest : w.history.find? PauseEvent.exchange = some (.asked pause))
  | won {n : Nat} {pause : PendingPermission} (phase : ph (.tab n) = .won) (quiet : ∀ j ≠ .tab n, (ph j).carries = false)
      (unsent : w.continuations = 0) (status : w.document.status = .awaitingPermission) (approved : Approved w pause)
  | flipped {n : Nat} {pause : PendingPermission} (phase : ph (.tab n) = .flipped)
      (quiet : ∀ j ≠ .tab n, (ph j).carries = false) (unsent : w.continuations = 0)
      (status : w.document.status = .continuing) (approved : Approved w pause)
  | queued {pause : PendingPermission} (quiet : ∀ j, (ph j).carries = false) (sent : w.continuations = 1)
      (status : w.document.status = .continuing) (approved : Approved w pause)
  | executing (quiet : ∀ j ≠ .executor, (ph j).carries = false) (unsent : w.continuations = 0)
      (carries : (ph .executor).carries = true) (working : Working gate w (ph .executor))

def PausePhase.ofTab : PausePhase → Bool
  | .responding | .won | .flipped | .responded => true
  | _ => false

/-- What each event of the history owes to the earlier ones. -/
def PauseEvent.Sound (gate : GateContext) (e : PauseEvent) (earlier : List PauseEvent) : Prop :=
  match e with
  | .withheld _ => True
  | .asked pause => pause.toolCallId ∉ askedIds earlier
  | .answered _ toolCallId =>
    ∃ pause, earlier.find? PauseEvent.exchange = some (.asked pause) ∧ pause.toolCallId = toolCallId
  | .executed call approvedTools deniedTools =>
    (.answered true (some call.id) ∈ earlier ∨ gate.classifyToolPermission approvedTools deniedTools call.name = .allowed) ∧
      ∀ e ∈ earlier, e.denial = false

structure PauseInv (gate : GateContext) (w : PauseWorld) (ph : Party → PausePhase) : Prop where
  turn : Turn gate w ph
  tabs : ∀ n, (ph (.tab n)).ofTab = true
  executor : (ph .executor).ofTab = false
  justified : Justified (PauseEvent.Sound gate) w.history
  undenied : ∀ e ∈ w.history, e.denial = true → w.document.status = .failed

/-- A party with the move is the executor at work, or the tab that won the pause. -/
theorem PauseInv.executing (inv : PauseInv gate w ph) {p : PausePhase} (phase : ph .executor = p) (carries : p.carries = true) :
    (∀ j ≠ .executor, (ph j).carries = false) ∧ w.continuations = 0 ∧ Working gate w p := by
  subst phase
  cases inv.turn with
  | closed quiet | asked quiet | queued quiet => rw [quiet .executor] at carries; cases carries
  | won _ quiet | flipped _ quiet => rw [quiet .executor (by simp)] at carries; cases carries
  | executing quiet unsent _ working => exact ⟨quiet, unsent, working⟩

theorem PauseInv.executor_of (inv : PauseInv gate w ph) {i : Party} (role : (ph i).ofTab = false) : i = .executor := by
  cases i with
  | executor => rfl
  | tab n => rw [inv.tabs n] at role; cases role

theorem Paused.frame {w' : PauseWorld} {pause : PendingPermission} (paused : Paused w pause)
    (pending : w'.document.pendingPermission = w.document.pendingPermission) (history : w'.history = w.history) :
    Paused w' pause where
  pending := pending.trans paused.pending
  books := history ▸ paused.books
  asked := history ▸ paused.asked
  named := paused.named

theorem Approved.frame {w' : PauseWorld} {pause : PendingPermission} (approved : Approved w pause)
    (pending : w'.document.pendingPermission = w.document.pendingPermission) (history : w'.history = w.history) :
    Approved w' pause where
  toPaused := approved.toPaused.frame pending history
  approved := approved.approved
  answered := history ▸ approved.answered

theorem Settling.frame {w' : PauseWorld} {execution : Document} {owed : List GatedToolCall}
    (settling : Settling gate w execution owed)
    (pending : w'.document.pendingPermission = w.document.pendingPermission)
    (approvedTools : w'.document.approvedTools = w.document.approvedTools)
    (deniedTools : w'.document.deniedTools = w.document.deniedTools) (history : w'.history = w.history) :
    Settling gate w' execution owed where
  unpaused := pending.trans settling.unpaused
  lists := ⟨approvedTools.trans settling.lists.approvedTools, deniedTools.trans settling.lists.deniedTools⟩
  books := history ▸ settling.books
  asked := history ▸ settling.asked
  gated := settling.gated

theorem Settling.settled {execution : Document} {owed : List GatedToolCall} (settling : Settling gate w execution owed)
    (none : gate.selectGatedToolCall execution.approvedTools execution.deniedTools owed = none) : owed = [] := by
  by_contra left
  obtain ⟨gated, selected⟩ := selected_some left settling.gated
  rw [none] at selected
  cases selected

section Update
variable {i : Party} {q : PausePhase}

theorem quiet_others (quiet : ∀ j ≠ i, (ph j).carries = false) : ∀ j ≠ i, (Function.update ph i q j).carries = false := by
  intro j other
  simpa [other] using quiet j other

theorem quiet_all (quiet : ∀ j ≠ i, (ph j).carries = false) (idle : q.carries = false) :
    ∀ j, (Function.update ph i q j).carries = false := by
  intro j
  by_cases own : j = i
  · subst own
    simpa using idle
  · simpa [own] using quiet j own

theorem PauseInv.next {w' : PauseWorld} (inv : PauseInv gate w ph) (turn : Turn gate w' (Function.update ph i q))
    (role : q.ofTab = (ph i).ofTab) (justified : Justified (PauseEvent.Sound gate) w'.history)
    (undenied : ∀ e ∈ w'.history, e.denial = true → w'.document.status = .failed) :
    PauseInv gate w' (Function.update ph i q) := by
  refine ⟨turn, fun n => ?_, ?_, justified, undenied⟩
  · by_cases own : Party.tab n = i
    · subst own
      simpa [role] using inv.tabs n
    · simpa [own] using inv.tabs n
  · by_cases own : Party.executor = i
    · subst own
      simpa [role] using inv.executor
    · simpa [own] using inv.executor

theorem PauseInv.goOn {w' : PauseWorld} {p : PausePhase} (inv : PauseInv gate w ph) (phase : ph .executor = p) (carries : p.carries = true)
    (working : Working gate w' q) (sent : w'.continuations = w.continuations) (role : q.ofTab = false)
    (carrying : q.carries = true) (justified : Justified (PauseEvent.Sound gate) w'.history)
    (undenied : ∀ e ∈ w'.history, e.denial = true → w'.document.status = .failed) :
    PauseInv gate w' (Function.update ph .executor q) := by
  obtain ⟨quiet, unsent, _⟩ := inv.executing phase carries
  refine inv.next ?_ (role.trans inv.executor.symm) justified undenied
  exact .executing (quiet_others quiet) (sent.trans unsent) (by simpa using carrying) (by simpa using working)

end Update

theorem PauseInv.noDenial (inv : PauseInv gate w ph) (live : w.document.status ≠ .failed) :
    ∀ e ∈ w.history, e.denial = false := by
  intro e member
  by_contra denial
  exact live (inv.undenied e member (by simpa using denial))

/-- A run that has not failed has no denial to account for, and none in an event that is no denial. -/
theorem PauseInv.live (inv : PauseInv gate w ph) (live : w.document.status ≠ .failed) {ended : Prop} :
    ∀ e ∈ w.history, e.denial = true → ended := by
  intro e member denial
  rw [inv.noDenial live e member] at denial
  cases denial

theorem PauseInv.live_cons (inv : PauseInv gate w ph) (live : w.document.status ≠ .failed) {ended : Prop} {event : PauseEvent}
    (admits : event.denial = false) : ∀ e ∈ event :: w.history, e.denial = true → ended := by
  intro e member denial
  rcases List.mem_cons.mp member with rfl | member
  · rw [admits] at denial
    cases denial
  · exact inv.live live e member denial

/-! ### What one operation does -/

theorem exec_repository {x : PauseChoice} {c : RepositoryCall} {reply : Except JsError c.Value} {w' : PauseWorld}
    (executed : w.exec gate (.repository c) x = some (reply, w')) :
    reply = .ok (c.reply w.clock w.document) ∧ w' = w.perform c := by
  unfold PauseWorld.exec at executed
  cases x <;> simp only [Option.some.injEq, Prod.mk.injEq, reduceCtorEq] at executed
  exact ⟨executed.1.symm, executed.2.symm⟩

theorem exec_runIteration {x : PauseChoice} {agent : Checkpoint} {approvedTools deniedTools : List String}
    {reply : Except JsError IterationResult} {w' : PauseWorld}
    (executed : w.exec gate (.runIteration agent approvedTools deniedTools) x = some (reply, w')) :
    (∃ error, reply = .error error ∧ w' = w) ∨
      ∃ toolCalls result, reply = .ok result ∧ w.fresh toolCalls = true ∧
        result.gatedToolCalls = toolCalls.filter (gate.toolGate approvedTools deniedTools) ∧
        w' = { w with history := .withheld result.gatedToolCalls :: w.history } := by
  unfold PauseWorld.exec at executed
  cases x <;> simp only [Option.some.injEq, Prod.mk.injEq, reduceCtorEq] at executed
  · rename_i toolCalls checkpoint hasHandoffSignal isComplete
    split at executed
    · rename_i fresh
      obtain ⟨rfl, rfl⟩ := Prod.mk.inj (Option.some.inj executed)
      exact Or.inr ⟨toolCalls, _, rfl, fresh, rfl, rfl⟩
    · cases executed
  · exact Or.inl ⟨_, executed.1.symm, executed.2.symm⟩

theorem exec_gated {x : PauseChoice} {agent : Checkpoint} {gated : GatedToolCall} {reply : Except JsError Checkpoint}
    {w' : PauseWorld} (executed : w.exec gate (.executeGatedToolCall agent gated) x = some (reply, w')) :
    w' = w.executing gated := by
  unfold PauseWorld.exec at executed
  cases x <;> simp only [Option.some.injEq, Prod.mk.injEq, reduceCtorEq] at executed
  · exact executed.2.symm
  · exact executed.2.symm

theorem exec_bill {x : PauseChoice} {iterationIndex : Nat} {checkpoint : Checkpoint} {reply : Except JsError Unit}
    {w' : PauseWorld} (executed : w.exec gate (.billIterationIfNeeded iterationIndex checkpoint) x = some (reply, w')) :
    w' = w ∨ ∃ credits, w' = w.perform (.addIterationBilling ⟨iterationIndex, credits⟩) := by
  unfold PauseWorld.exec at executed
  cases x <;> simp only [Option.some.injEq, Prod.mk.injEq, reduceCtorEq] at executed
  · exact Or.inr ⟨_, executed.2.symm⟩
  · exact Or.inl executed.2.symm

theorem exec_send {x : PauseChoice} {reply : Except JsError Unit} {w' : PauseWorld}
    (executed : w.exec gate .sendContinuation x = some (reply, w')) :
    reply = .ok () ∧ w' = { w with continuations := w.continuations + 1 } := by
  unfold PauseWorld.exec at executed
  cases x <;> simp only [Option.some.injEq, Prod.mk.injEq, reduceCtorEq] at executed
  exact ⟨executed.1.symm, executed.2.symm⟩

theorem exec_receive {x : PauseChoice} {reply : Except JsError Unit} {w' : PauseWorld}
    (executed : w.exec gate .receiveContinuation x = some (reply, w')) :
    0 < w.continuations ∧ reply = .ok () ∧ w' = { w with continuations := w.continuations - 1 } := by
  unfold PauseWorld.exec at executed
  cases x <;> simp only [reduceCtorEq] at executed
  split at executed
  · rename_i sent
    obtain ⟨rfl, rfl⟩ := Prod.mk.inj (Option.some.inj executed)
    exact ⟨sent, rfl, rfl⟩
  · cases executed

theorem perform_unmatched {c : RepositoryCall} (unmatched : c.written w.clock w.document = none)
    (unasked : ∀ pause, c ≠ .updatePermissionState (some pause)) : w.perform c = w := by
  have silent : w.performed c = [] := by
    unfold PauseWorld.performed
    split
    · exact absurd rfl (unasked _)
    · simp [unmatched]
    · simp [unmatched]
    · rfl
  simp [PauseWorld.perform, RepositoryCall.apply_unmatched unmatched, silent]

/-! ### The executor's steps -/

section Executor

theorem receive_step {w' : PauseWorld} (inv : PauseInv gate w ph) (idle : ph .executor = .idle)
    (sent : 0 < w.continuations) (moved : w' = { w with continuations := w.continuations - 1 }) :
    PauseInv gate w' (Function.update ph .executor (.woken false)) := by
  subst moved
  cases inv.turn with
  | closed _ unsent | asked _ unsent | won _ _ unsent | flipped _ _ unsent | executing _ unsent => omega
  | queued quiet sent status approved =>
    refine inv.next (.executing (quiet_others fun j _ => quiet j) (by simp [sent]) (by simp [PausePhase.carries]) ?_)
      (by simp [idle, PausePhase.ofTab]) inv.justified inv.undenied
    rw [Function.update_self]
    exact Due.resumed status (approved.frame rfl rfl)

theorem load_step {isNew : Bool} (inv : PauseInv gate w ph) (woken : ph .executor = .woken isNew) :
    PauseInv gate w (Function.update ph .executor (.loaded isNew w.document)) :=
  inv.goOn woken rfl ⟨rfl, (inv.executing woken rfl).2.2⟩ rfl rfl rfl inv.justified inv.undenied

theorem claim_step {isNew : Bool} {execution : Document} (inv : PauseInv gate w ph)
    (loaded : ph .executor = .loaded isNew execution) :
    (RepositoryCall.claimExecution [if isNew then .pending else .continuing] .running).reply w.clock w.document = true ∧
      PauseInv gate (w.perform (.claimExecution [if isNew then .pending else .continuing] .running))
        (Function.update ph .executor (.claimed gate execution)) := by
  obtain ⟨_, _, rfl, due⟩ := inv.executing loaded rfl
  have passes : (Repository.claimExecution [if isNew then .pending else .continuing] .running).filter w.document = true := by
    cases due with
    | new status => simp [Repository.claimExecution, status]
    | resumed status => simp [Repository.claimExecution, status]
  have live : w.document.status ≠ .failed := by
    cases due with
    | new status => simp [status]
    | resumed status => simp [status]
  have moved : (w.perform (.claimExecution [if isNew then .pending else .continuing] .running)).document =
      { w.document with status := .running, updatedAt := w.clock } := RepositoryCall.apply_matched rfl passes
  refine ⟨by simp [RepositoryCall.reply, RepositoryCall.written, RepositoryCall.write?, Write.matched, passes], ?_⟩
  cases due with
  | new status unpaused books asked =>
    have start : PausePhase.claimed gate w.document = .settling w.document [] := by
      simp only [PausePhase.claimed, unpaused, Option.filter_none]
    rw [start]
    refine inv.goOn loaded rfl ⟨by rw [moved], ?_⟩ rfl rfl rfl inv.justified (inv.live live)
    have settling : Settling gate w w.document [] := ⟨unpaused, ⟨rfl, rfl⟩, books, asked, by simp⟩
    exact settling.frame (by rw [moved]) (by rw [moved]) (by rw [moved]) rfl
  | @resumed pause status approved =>
    have start : PausePhase.claimed gate w.document = .replaying w.document
        (gate.partitionApprovedPause w.document.approvedTools w.document.deniedTools pause.gatedToolCalls pause.toolCallId).1
        (gate.partitionApprovedPause w.document.approvedTools w.document.deniedTools pause.gatedToolCalls pause.toolCallId).2 := by
      simp only [PausePhase.claimed, approved.pending, Option.filter_some, approved.approved, ↓reduceIte]
    obtain ⟨call, member, named⟩ := approved.named
    rw [start]
    refine inv.goOn loaded rfl ⟨by rw [moved], ⟨by rw [moved], by rw [moved]⟩, ?_, ?_, ?_, ?_⟩ rfl rfl rfl inv.justified (inv.live live)
    · exact approved.books.reorder (partition_perm approved.books.owedIds)
    · intro id asked
      rcases approved.asked id asked with executed | rfl
      · exact Or.inl executed
      · refine Or.inr ⟨call, ?_, named⟩
        rw [← named]
        exact approved_replayed member
    · intro call member
      rcases (replayed_permitted member).2 with same | allowed
      · rw [same]
        exact Or.inl approved.answered
      · exact Or.inr allowed
    · exact fun call member => (stillWithheld_member member).2.2

theorem replay_step {execution : Document} {gated : GatedToolCall} {left still : List GatedToolCall} (inv : PauseInv gate w ph)
    (replaying : ph .executor = .replaying execution (gated :: left) still) :
    PauseInv gate (w.executing gated) (Function.update ph .executor (.replaying execution left still)) ∧
      PauseInv gate (w.executing gated) (Function.update ph .executor .failing) := by
  obtain ⟨_, _, status, lists, books, asked, permitted, withheld⟩ := inv.executing replaying rfl
  have live : w.document.status ≠ .failed := by simp [status]
  have justified : Justified (PauseEvent.Sound gate) (w.executing gated).history := by
    refine ⟨⟨?_, inv.noDenial live⟩, inv.justified⟩
    rw [lists.approvedTools, lists.deniedTools]
    exact permitted gated List.mem_cons_self
  refine ⟨inv.goOn replaying rfl ⟨status, ⟨lists.approvedTools, lists.deniedTools⟩, books.execute, ?_, ?_, withheld⟩ rfl rfl rfl
    justified (inv.live_cons live rfl), inv.goOn replaying rfl status rfl rfl rfl justified (inv.live_cons live rfl)⟩
  · intro id member
    have extended : executedCalls (w.executing gated).history = gated :: executedCalls w.history := rfl
    rcases asked id member with ⟨call, executed, same⟩ | ⟨call, member, same⟩
    · exact Or.inl ⟨call, by simp [extended, executed], same⟩
    · rcases List.mem_cons.mp member with rfl | member
      · exact Or.inl ⟨call, by simp [extended], same⟩
      · exact Or.inr ⟨call, member, same⟩
  · intro call member
    exact (permitted call (List.mem_cons_of_mem _ member)).imp_left (List.mem_cons_of_mem _)

theorem settling_kept {execution : Document} {owed : List GatedToolCall} {c : RepositoryCall} (inv : PauseInv gate w ph)
    (settling : ph .executor = .settling execution owed) (silent : w.performed c = [])
    (status : (w.perform c).document.status = w.document.status)
    (pending : (w.perform c).document.pendingPermission = w.document.pendingPermission)
    (approvedTools : (w.perform c).document.approvedTools = w.document.approvedTools)
    (deniedTools : (w.perform c).document.deniedTools = w.document.deniedTools) :
    PauseInv gate (w.perform c) (Function.update ph .executor (.settling execution owed)) := by
  obtain ⟨_, _, running, owes⟩ := inv.executing settling rfl
  have history : (w.perform c).history = w.history := by simp [PauseWorld.perform, silent]
  refine inv.goOn settling rfl ⟨status.trans running, owes.frame pending approvedTools deniedTools history⟩ rfl rfl rfl ?_ ?_
  · rw [history]
    exact inv.justified
  · rw [history, status]
    exact inv.undenied

theorem clear_step {execution : Document} {still : List GatedToolCall} (inv : PauseInv gate w ph)
    (replaying : ph .executor = .replaying execution [] still) :
    PauseInv gate (w.perform (.updatePermissionState none)) (Function.update ph .executor (.settling execution still)) := by
  obtain ⟨_, _, status, lists, books, asked, permitted, withheld⟩ := inv.executing replaying rfl
  refine inv.goOn replaying rfl ⟨status, rfl, ⟨lists.approvedTools, lists.deniedTools⟩, books, ?_, withheld⟩ rfl rfl rfl
    inv.justified inv.undenied
  intro id member
  rcases asked id member with executed | ⟨call, absurd, _⟩
  · exact executed
  · cases absurd

theorem iterate_step {execution : Document} {owed : List GatedToolCall} {toolCalls : List GatedToolCall}
    (inv : PauseInv gate w ph) (settling : ph .executor = .settling execution owed)
    (settled : gate.selectGatedToolCall execution.approvedTools execution.deniedTools owed = none)
    (fresh : w.fresh toolCalls = true) :
    PauseInv gate
      { w with history := .withheld (toolCalls.filter (gate.toolGate execution.approvedTools execution.deniedTools)) :: w.history }
      (Function.update ph .executor
        (.settling execution (toolCalls.filter (gate.toolGate execution.approvedTools execution.deniedTools)))) := by
  obtain ⟨_, _, running, owes⟩ := inv.executing settling rfl
  rw [owes.settled settled] at owes
  simp only [PauseWorld.fresh, Bool.and_eq_true, decide_eq_true_eq, List.all_eq_true] at fresh
  obtain ⟨distinct, unseen⟩ := fresh
  refine inv.goOn settling rfl ⟨running, owes.unpaused, ⟨owes.lists.approvedTools, owes.lists.deniedTools⟩, ?_, owes.asked, ?_⟩
    rfl rfl rfl ⟨trivial, inv.justified⟩ (inv.live_cons (by simp [running]) rfl)
  · refine owes.books.withhold ?_ fun call member => unseen call (List.mem_filter.mp member).1
    exact (List.filter_sublist.map _).nodup distinct
  · intro call member
    have gated := (List.mem_filter.mp member).2
    simp only [GateContext.toolGate, Bool.and_eq_true] at gated
    exact gated.2

theorem flag_step {execution : Document} {owed : List GatedToolCall} {gated : GatedAction} (inv : PauseInv gate w ph)
    (settling : ph .executor = .settling execution owed)
    (selected : gate.selectGatedToolCall execution.approvedTools execution.deniedTools owed = some gated) :
    PauseInv gate (w.perform (.updateStatus .awaitingPermission))
      (Function.update ph .executor (.asking execution gated owed)) := by
  obtain ⟨_, _, running, owes⟩ := inv.executing settling rfl
  exact inv.goOn settling rfl ⟨rfl, owes.frame rfl rfl rfl rfl, selected⟩ rfl rfl rfl inv.justified (inv.live (by simp [running]))

theorem ask_step {execution : Document} {owed : List GatedToolCall} {gated : GatedAction} (inv : PauseInv gate w ph)
    (asking : ph .executor = .asking execution gated owed) :
    PauseInv gate (w.perform (.updatePermissionState (some (GateContext.pauseFor gated owed))))
      (Function.update ph .executor .idle) := by
  obtain ⟨quiet, unsent, awaiting, owes, selected⟩ := inv.executing asking rfl
  obtain ⟨call, member, same, _⟩ := selected_member selected
  have unasked : some gated.toolCallId ∉ askedIds w.history := by
    intro again
    have executed := owes.asked _ again
    rw [← same] at executed
    exact owes.books.fresh member executed
  refine inv.next (@Turn.asked _ _ _ (GateContext.pauseFor gated owed) (quiet_all quiet rfl) unsent awaiting
    ⟨rfl, owes.books.kept rfl rfl, fun id member => ?_, call, member, by rw [same]; rfl⟩ rfl rfl) inv.executor.symm
    ⟨unasked, inv.justified⟩ (inv.live_cons (by simp [awaiting]) rfl)
  rcases List.mem_cons.mp member with rfl | member
  · exact Or.inr rfl
  · exact Or.inl (owes.asked id member)

theorem complete_step {execution : Document} {owed : List GatedToolCall} {result : String} (inv : PauseInv gate w ph)
    (settling : ph .executor = .settling execution owed)
    (settled : gate.selectGatedToolCall execution.approvedTools execution.deniedTools owed = none) :
    PauseInv gate (w.perform (.markComplete result)) (Function.update ph .executor .idle) := by
  obtain ⟨quiet, unsent, running, owes⟩ := inv.executing settling rfl
  rw [owes.settled settled] at owes
  refine inv.next (.closed (quiet_all quiet rfl) unsent (Or.inr ⟨rfl, fun call withheld => ?_⟩)) inv.executor.symm inv.justified
    (inv.live (by simp [running]))
  rcases owes.books.covered call withheld with executed | absurd
  · exact executed
  · cases absurd

theorem fail_step {error : ExecutionError} {p : PausePhase} (inv : PauseInv gate w ph) (phase : ph .executor = p)
    (carries : p.carries = true) : PauseInv gate (w.perform (.markFailed error)) (Function.update ph .executor .idle) := by
  obtain ⟨quiet, unsent, _⟩ := inv.executing phase carries
  exact inv.next (.closed (quiet_all quiet rfl) unsent (Or.inl rfl)) inv.executor.symm inv.justified fun _ _ _ => rfl

theorem throw_step {execution : Document} {owed : List GatedToolCall} (inv : PauseInv gate w ph)
    (settling : ph .executor = .settling execution owed) : PauseInv gate w (Function.update ph .executor .failing) :=
  inv.goOn settling rfl (inv.executing settling rfl).2.2.1 rfl rfl rfl inv.justified inv.undenied

end Executor

/-! ### The tabs' steps -/

section Tabs
variable {n : Nat} {toolCallId : String}

/-- The executor at work has not set its pause yet when the run awaits permission. -/
theorem Working.unpaused {p : PausePhase} (working : Working gate w p) (status : w.document.status = .awaitingPermission) :
    w.document.pendingPermission = none := by
  have due : ∀ {isNew}, ¬ Due w isNew := by
    intro isNew due
    cases due with
    | new pending => rw [status] at pending; cases pending
    | resumed continuing => rw [status] at continuing; cases continuing
  have notRunning : w.document.status ≠ .running := by simp [status]
  cases p with
  | asking => exact working.2.1.unpaused
  | woken => exact (due working).elim
  | loaded => exact (due working.2).elim
  | replaying => exact absurd working.status notRunning
  | settling => exact absurd working.1 notRunning
  | failing => exact absurd working notRunning
  | _ => exact False.elim working

/-- What a response finds when its filter matches: the open pause, and the call it names. -/
theorem answerable_open (inv : PauseInv gate w ph) (named : toolCallId ≠ "")
    (matched : Repository.answerable (some toolCallId) w.document = true) :
    ∃ pause, (∀ j, (ph j).carries = false) ∧ w.continuations = 0 ∧ w.document.status = .awaitingPermission ∧
      Paused w pause ∧ pause.toolCallId = some toolCallId ∧ w.history.find? PauseEvent.exchange = some (.asked pause) := by
  simp only [Repository.answerable, Repository.namesCall, truthy, Bool.and_eq_true, beq_iff_eq] at matched
  obtain ⟨⟨status, unapproved⟩, names⟩ := matched
  have identified : w.document.pendingPermission.bind (·.toolCallId) = some toolCallId := by
    simpa [named] using names
  cases inv.turn with
  | closed _ _ ended =>
    rcases ended with failed | ⟨completed, _⟩
    · rw [status] at failed; cases failed
    · rw [status] at completed; cases completed
  | @asked pause quiet unsent _ paused _ latest =>
    refine ⟨pause, quiet, unsent, status, paused, ?_, latest⟩
    simpa [paused.pending] using identified
  | won _ _ _ _ approved =>
    rw [approved.pending] at unapproved
    simp [approved.approved] at unapproved
  | flipped _ _ _ continuing | queued _ _ continuing => rw [status] at continuing; cases continuing
  | executing _ _ _ working =>
    rw [working.unpaused status] at unapproved
    cases unapproved

theorem tab_idle (inv : PauseInv gate w ph) {q : PausePhase} (idle : (ph (.tab n)).carries = false) (ofTab : q.ofTab = true)
    (silent : q.carries = false) : PauseInv gate w (Function.update ph (.tab n) q) := by
  have still : ∀ j, (Function.update ph (.tab n) q j).carries = (ph j).carries := by
    intro j
    by_cases own : j = .tab n
    · subst own
      simp [silent, idle]
    · simp [own]
  have role : q.ofTab = (ph (.tab n)).ofTab := ofTab.trans (inv.tabs n).symm
  have apart : Function.update ph (.tab n) q .executor = ph .executor := by simp
  have same : ∀ {m p}, ph (.tab m) = p → p.carries = true → Function.update ph (.tab n) q (.tab m) = p := by
    intro m p phase carries
    by_cases own : m = n
    · subst own
      rw [phase, carries] at idle
      cases idle
    · simpa [own] using phase
  refine inv.next ?_ role inv.justified inv.undenied
  cases inv.turn with
  | closed quiet unsent ended => exact .closed (fun j => (still j).trans (quiet j)) unsent ended
  | asked quiet unsent status paused unapproved latest =>
    exact .asked (fun j => (still j).trans (quiet j)) unsent status paused unapproved latest
  | won phase quiet unsent status approved =>
    exact .won (same phase rfl) (fun j other => (still j).trans (quiet j other)) unsent status approved
  | flipped phase quiet unsent status approved =>
    exact .flipped (same phase rfl) (fun j other => (still j).trans (quiet j other)) unsent status approved
  | queued quiet sent status approved => exact .queued (fun j => (still j).trans (quiet j)) sent status approved
  | executing quiet unsent carries working =>
    refine .executing (fun j other => (still j).trans (quiet j other)) unsent ?_ ?_
    · rw [apart]
      exact carries
    · rw [apart]
      exact working

theorem approve_step {tool : Option String} (inv : PauseInv gate w ph) (responding : ph (.tab n) = .responding)
    (named : toolCallId ≠ "") (matched : Repository.answerable (some toolCallId) w.document = true) :
    PauseInv gate (w.perform (.approvePendingPermission tool (some toolCallId))) (Function.update ph (.tab n) .won) := by
  obtain ⟨pause, quiet, unsent, status, paused, identified, latest⟩ := answerable_open inv named matched
  have passes : (Repository.approvePendingPermission tool (some toolCallId)).filter w.document = true := matched
  have moved : (w.perform (.approvePendingPermission tool (some toolCallId))).document =
      { w.document with
        pendingPermission := w.document.pendingPermission.map fun pause => { pause with approved := true }
        approvedTools := addGiven w.document.approvedTools tool
        updatedAt := w.clock } := RepositoryCall.apply_matched rfl passes
  have history : (w.perform (.approvePendingPermission tool (some toolCallId))).history =
      .answered true (some toolCallId) :: w.history := by
    simp [PauseWorld.perform, PauseWorld.performed, RepositoryCall.written, RepositoryCall.write?, Write.matched,
      Repository.approvePendingPermission, matched]
  have approved : Approved (w.perform (.approvePendingPermission tool (some toolCallId))) { pause with approved := true } := by
    refine ⟨⟨?_, ?_, ?_, paused.named⟩, rfl, ?_⟩
    · rw [moved, paused.pending]
      rfl
    · rw [history]
      exact paused.books.kept rfl rfl
    · rw [history]
      exact paused.asked
    · rw [history]
      simp [identified]
  refine inv.next (.won (by simp) (quiet_others fun j _ => quiet j) unsent (by rw [moved]; exact status) approved)
    (by rw [responding]; rfl) ?_ ?_
  · rw [history]
    exact ⟨⟨pause, latest, identified⟩, inv.justified⟩
  · rw [history]
    exact inv.live_cons (by simp [status]) rfl

theorem deny_step {tool : Option String} {message : String} (inv : PauseInv gate w ph) (responding : ph (.tab n) = .responding)
    (named : toolCallId ≠ "") (matched : Repository.answerable (some toolCallId) w.document = true) :
    PauseInv gate (w.perform (.denyPendingPermission (some toolCallId) tool message))
      (Function.update ph (.tab n) .responded) := by
  obtain ⟨pause, quiet, unsent, _, _, identified, latest⟩ := answerable_open inv named matched
  have passes : (Repository.denyPendingPermission (some toolCallId) tool message).filter w.document = true := matched
  have failed : (w.perform (.denyPendingPermission (some toolCallId) tool message)).document.status = .failed := by
    rw [PauseWorld.perform, RepositoryCall.apply_matched rfl passes]
    rfl
  have history : (w.perform (.denyPendingPermission (some toolCallId) tool message)).history =
      .answered false (some toolCallId) :: w.history := by
    simp [PauseWorld.perform, PauseWorld.performed, RepositoryCall.written, RepositoryCall.write?, Write.matched,
      Repository.denyPendingPermission, matched]
  refine inv.next (.closed (quiet_all (fun j _ => quiet j) rfl) unsent (Or.inl failed)) (by rw [responding]; rfl) ?_
    fun _ _ _ => failed
  rw [history]
  exact ⟨⟨pause, latest, identified⟩, inv.justified⟩

theorem PauseInv.carrying (inv : PauseInv gate w ph) {p : PausePhase} (phase : ph (.tab n) = p) (carries : p.carries = true) :
    (∀ j ≠ .tab n, (ph j).carries = false) ∧ w.continuations = 0 ∧ ∃ pause, Approved w pause ∧
      (p = .won ∧ w.document.status = .awaitingPermission ∨ p = .flipped ∧ w.document.status = .continuing) := by
  subst phase
  cases inv.turn with
  | closed quiet | asked quiet | queued quiet => rw [quiet] at carries; cases carries
  | executing quiet => rw [quiet _ (by simp)] at carries; cases carries
  | @won m pause phase quiet unsent status approved =>
    by_cases own : n = m
    · subst own
      exact ⟨quiet, unsent, pause, approved, Or.inl ⟨phase, status⟩⟩
    · rw [quiet _ (by simpa using own)] at carries
      cases carries
  | @flipped m pause phase quiet unsent status approved =>
    by_cases own : n = m
    · subst own
      exact ⟨quiet, unsent, pause, approved, Or.inr ⟨phase, status⟩⟩
    · rw [quiet _ (by simpa using own)] at carries
      cases carries

theorem flip_step (inv : PauseInv gate w ph) (phase : ph (.tab n) = .won) :
    PauseInv gate (w.perform (.updateStatus .continuing)) (Function.update ph (.tab n) .flipped) := by
  obtain ⟨quiet, unsent, pause, approved, ⟨_, status⟩ | ⟨other, _⟩⟩ := inv.carrying phase rfl
  · exact inv.next (.flipped (by simp) (quiet_others quiet) unsent rfl (approved.frame rfl rfl)) (by rw [phase]; rfl) inv.justified
      (inv.live (by simp [status]))
  · cases other

theorem send_step (inv : PauseInv gate w ph) (phase : ph (.tab n) = .flipped) :
    PauseInv gate { w with continuations := w.continuations + 1 } (Function.update ph (.tab n) .responded) := by
  obtain ⟨quiet, unsent, pause, approved, ⟨other, _⟩ | ⟨_, status⟩⟩ := inv.carrying phase rfl
  · cases other
  · exact inv.next (.queued (quiet_all quiet rfl) (by simp [unsent]) status (approved.frame rfl rfl)) (by rw [phase]; rfl)
      inv.justified inv.undenied

end Tabs

theorem PauseInv.tab_of (inv : PauseInv gate w ph) {i : Party} (role : (ph i).ofTab = true) : ∃ n, i = .tab n := by
  cases i with
  | executor => rw [inv.executor] at role; cases role
  | tab n => exact ⟨n, rfl⟩

theorem pause_step {i : Party} {op : Call} {x : PauseChoice} {reply : Except JsError op.Value} {w' : PauseWorld}
    {q : PausePhase} (inv : PauseInv gate w ph) (executed : w.exec gate op x = some (reply, w'))
    (permitted : PauseStep gate (ph i) op reply q) : PauseInv gate w' (Function.update ph i q) := by
  generalize phase : ph i = p at permitted
  have executor (role : p.ofTab = false) : i = .executor := inv.executor_of (phase ▸ role)
  have tab (role : p.ofTab = true) : ∃ n, i = .tab n := inv.tab_of (phase ▸ role)
  cases permitted with
  | rejected => cases (exec_repository executed).1
  | unsent => cases (exec_send executed).1
  | unreceived => cases (exec_receive executed).2.1
  | receive =>
    obtain ⟨sent, _, moved⟩ := exec_receive executed
    obtain rfl := executor rfl
    exact receive_step inv phase sent moved
  | load =>
    obtain ⟨replied, rfl⟩ := exec_repository executed
    cases replied
    obtain rfl := executor rfl
    exact load_step inv phase
  | claim =>
    obtain ⟨_, rfl⟩ := exec_repository executed
    obtain rfl := executor rfl
    exact (claim_step inv phase).2
  | claimLost =>
    obtain ⟨replied, rfl⟩ := exec_repository executed
    obtain rfl := executor rfl
    rw [(claim_step inv phase).1] at replied
    cases replied
  | replay =>
    obtain rfl := exec_gated executed
    obtain rfl := executor rfl
    exact (replay_step inv phase).1
  | replayThrew =>
    obtain rfl := exec_gated executed
    obtain rfl := executor rfl
    exact (replay_step inv phase).2
  | clear =>
    obtain ⟨_, rfl⟩ := exec_repository executed
    obtain rfl := executor rfl
    exact clear_step inv phase
  | checkpoint =>
    obtain ⟨_, rfl⟩ := exec_repository executed
    obtain rfl := executor rfl
    exact settling_kept inv phase rfl rfl rfl rfl rfl
  | bill =>
    obtain rfl := executor rfl
    rcases exec_bill executed with rfl | ⟨credits, rfl⟩
    · rw [← phase, Function.update_eq_self]
      exact inv
    · exact settling_kept inv phase rfl rfl rfl rfl rfl
  | @billThrew _ _ iterationIndex checkpoint error =>
    obtain rfl := executor rfl
    unfold PauseWorld.exec at executed
    cases x <;> simp only [Option.some.injEq, Prod.mk.injEq, reduceCtorEq, false_and] at executed
    obtain ⟨_, rfl⟩ := executed
    exact throw_step inv phase
  | @iterate execution owed agent result settled =>
    obtain rfl := executor rfl
    rcases exec_runIteration executed with ⟨error, replied, _⟩ | ⟨toolCalls, result', replied, fresh, gated, rfl⟩
    · cases replied
    · cases replied
      rw [gated]
      exact iterate_step inv phase settled fresh
  | iterateThrew =>
    obtain rfl := executor rfl
    rcases exec_runIteration executed with ⟨error, _, rfl⟩ | ⟨toolCalls, result, replied, _⟩
    · exact throw_step inv phase
    · cases replied
  | flag selected =>
    obtain ⟨_, rfl⟩ := exec_repository executed
    obtain rfl := executor rfl
    exact flag_step inv phase selected
  | ask =>
    obtain ⟨_, rfl⟩ := exec_repository executed
    obtain rfl := executor rfl
    exact ask_step inv phase
  | complete settled =>
    obtain ⟨_, rfl⟩ := exec_repository executed
    obtain rfl := executor rfl
    exact complete_step inv phase settled
  | fail | failThrown =>
    obtain ⟨_, rfl⟩ := exec_repository executed
    obtain rfl := executor rfl
    exact fail_step inv phase rfl
  | @approve tool toolCallId named =>
    obtain ⟨replied, rfl⟩ := exec_repository executed
    obtain ⟨n, rfl⟩ := tab rfl
    have landed := (Except.ok.inj replied).symm
    simp only [RepositoryCall.reply, RepositoryCall.written, RepositoryCall.write?, Option.bind_some, Write.matched,
      Repository.approvePendingPermission, Option.isSome_ite] at landed
    exact approve_step inv phase named landed
  | @approveLost tool toolCallId named =>
    obtain ⟨replied, rfl⟩ := exec_repository executed
    obtain ⟨n, rfl⟩ := tab rfl
    have lost : (RepositoryCall.approvePendingPermission tool (some toolCallId)).written w.clock w.document = none :=
      Option.isSome_eq_false_iff.mp (Except.ok.inj replied).symm |> Option.isNone_iff_eq_none.mp
    rw [perform_unmatched lost (by simp)]
    exact tab_idle inv (by rw [phase]; rfl) rfl rfl
  | @deny tool toolCallId message denied named =>
    obtain ⟨_, rfl⟩ := exec_repository executed
    obtain ⟨n, rfl⟩ := tab rfl
    by_cases matched : Repository.answerable (some toolCallId) w.document = true
    · exact deny_step inv phase named matched
    · have lost : (RepositoryCall.denyPendingPermission (some toolCallId) tool message).written w.clock w.document = none := by
        simp [RepositoryCall.written, RepositoryCall.write?, Write.matched, Repository.denyPendingPermission, matched]
      rw [perform_unmatched lost (by simp)]
      exact tab_idle inv (by rw [phase]; rfl) rfl rfl
  | flip =>
    obtain ⟨_, rfl⟩ := exec_repository executed
    obtain ⟨n, rfl⟩ := tab rfl
    exact flip_step inv phase
  | send =>
    obtain ⟨_, rfl⟩ := exec_send executed
    obtain ⟨n, rfl⟩ := tab rfl
    exact send_step inv phase

theorem pause_tick {elapsed : Nat} (inv : PauseInv gate w ph) : PauseInv gate { w with clock := w.clock + elapsed } ph := by
  refine ⟨?_, inv.tabs, inv.executor, inv.justified, inv.undenied⟩
  cases inv.turn with
  | closed quiet unsent ended => exact .closed quiet unsent ended
  | asked quiet unsent status paused unapproved latest =>
    exact .asked quiet unsent status (paused.frame rfl rfl) unapproved latest
  | won phase quiet unsent status approved => exact .won phase quiet unsent status (approved.frame rfl rfl)
  | flipped phase quiet unsent status approved => exact .flipped phase quiet unsent status (approved.frame rfl rfl)
  | queued quiet sent status approved => exact .queued quiet sent status (approved.frame rfl rfl)
  | executing quiet unsent carries working =>
    refine .executing quiet unsent carries ?_
    have due : ∀ {isNew}, Due w isNew → Due { w with clock := w.clock + elapsed } isNew := by
      intro isNew due
      cases due with
      | new status unpaused books asked => exact .new status unpaused books asked
      | resumed status approved => exact .resumed status (approved.frame rfl rfl)
    cases phase : ph .executor with
    | woken => rw [phase] at working; exact due working
    | loaded => rw [phase] at working; exact ⟨working.1, due working.2⟩
    | replaying =>
      rw [phase] at working
      exact ⟨working.status, ⟨working.lists.approvedTools, working.lists.deniedTools⟩, working.books, working.asked,
        working.permitted, working.gated⟩
    | settling => rw [phase] at working; exact ⟨working.1, working.2.frame rfl rfl rfl rfl⟩
    | asking => rw [phase] at working; exact ⟨working.1, working.2.1.frame rfl rfl rfl rfl, working.2.2⟩
    | failing => rw [phase] at working; exact working
    | idle | responding | won | flipped | responded => rw [phase] at working; exact working.elim

theorem pauses_preserved : Preserves (pauseSemantics gate) (PauseStep gate) (fun _ _ _ _ => True) (PauseInv gate) where
  env inv moved := by
    cases moved
    exact pause_tick inv
  step inv _ executed permitted := pause_step inv executed permitted

end Turns

/-! ### What a run of pauses guarantees -/

section Runs
variable {gate : GateContext} {approvedTools deniedTools : List String} {clock : Time} {first : Nat} {later : List Nat}
  {responses : Nat → Response} {sched : List PauseAction} {c : PauseConfig}

def startPhase : Party → PausePhase
  | .executor => .woken true
  | .tab _ => .responding

theorem start_tracked : Tracked (PauseStep gate) pauseSettled (PauseInv gate)
    (gate.startPauses approvedTools deniedTools clock first later responses) := by
  refine ⟨startPhase, ⟨.executing ?_ rfl rfl ?_, fun _ => rfl, rfl, trivial, ?_⟩, fun i => ?_⟩
  · intro j other
    cases j with
    | executor => exact absurd rfl other
    | tab n => rfl
  · refine Due.new rfl rfl ⟨?_, ?_, ?_, ?_, ?_, ?_⟩ ?_ <;>
      simp [GateContext.startPauses, withheldCalls, executedCalls, askedIds]
  · simp [GateContext.startPauses]
  · cases i with
    | executor => exact executor_follows
    | tab n => exact response_follows (responses n)

/-- Each pause has one answer, for the call it named; a denial ends the run; a replay is permitted;
and whenever the executor rests, no withheld call is lost. -/
structure PausesAnswered (gate : GateContext) (c : PauseConfig) : Prop where
  answeredOnce : ∀ later approved toolCallId earlier, c.store.history = later ++ .answered approved toolCallId :: earlier →
    ∃ pause, earlier.find? PauseEvent.exchange = some (.asked pause) ∧ pause.toolCallId = toolCallId
  askedOnce : (askedIds c.store.history).Nodup
  deniedEnds : ∀ later toolCallId earlier, c.store.history = later ++ .answered false toolCallId :: earlier →
    c.store.document.status = .failed ∧ ∀ e ∈ later, e.execution? = none
  permitted : ∀ later call approvedTools deniedTools earlier,
    c.store.history = later ++ .executed call approvedTools deniedTools :: earlier →
      .answered true (some call.id) ∈ earlier ∨ gate.classifyToolPermission approvedTools deniedTools call.name = .allowed
  kept : atRest c = true → ∀ call ∈ withheldCalls c.store.history, call ∈ executedCalls c.store.history ∨
    (∃ pause, c.store.document.pendingPermission = some pause ∧ call ∈ pause.gatedToolCalls) ∨
    c.store.document.status = .failed

theorem asked_nodup {history : List PauseEvent} (justified : Justified (PauseEvent.Sound gate) history) :
    (askedIds history).Nodup := by
  induction history with
  | nil => exact List.nodup_nil
  | cons e earlier ih =>
    have rest := ih justified.2
    cases e with
    | asked pause => exact List.nodup_cons.mpr ⟨justified.1, rest⟩
    | withheld | answered | executed => exact rest

theorem resting_idle {p : PausePhase} (follows : Follows (PauseStep gate) pauseSettled (c.threads .executor) p)
    (rest : atRest c = true) (role : p.ofTab = false) : p.carries = false := by
  unfold atRest at rest
  split at rest
  · rename_i next waiting
    rw [waiting] at follows
    obtain ⟨q, permitted, _⟩ := follows (.ok ())
    cases permitted
    rfl
  · rename_i a returned
    rw [returned] at follows
    exact follows
  · cases rest

theorem PauseInv.kept {w : PauseWorld} {ph : Party → PausePhase} (inv : PauseInv gate w ph)
    (idle : (ph .executor).carries = false) : ∀ call ∈ withheldCalls w.history, call ∈ executedCalls w.history ∨
      (∃ pause, w.document.pendingPermission = some pause ∧ call ∈ pause.gatedToolCalls) ∨ w.document.status = .failed := by
  intro call withheld
  have listed : ∀ {pause}, Paused w pause → call ∈ executedCalls w.history ∨
      (∃ pause, w.document.pendingPermission = some pause ∧ call ∈ pause.gatedToolCalls) ∨ w.document.status = .failed := by
    intro pause paused
    exact (paused.books.covered call withheld).imp_right fun member => Or.inl ⟨pause, paused.pending, member⟩
  cases inv.turn with
  | closed _ _ ended =>
    rcases ended with failed | ⟨_, executed⟩
    · exact Or.inr (Or.inr failed)
    · exact Or.inl (executed call withheld)
  | asked _ _ _ paused => exact listed paused
  | won _ _ _ _ approved | flipped _ _ _ _ approved => exact listed approved.toPaused
  | queued _ _ _ approved => exact listed approved.toPaused
  | executing _ _ carries => rw [idle] at carries; cases carries

theorem pauses_answered (ran : (pauseSemantics gate).run
      (gate.startPauses approvedTools deniedTools clock first later responses) sched = some c) : PausesAnswered gate c := by
  obtain ⟨ph, inv, follows⟩ := run_invariant pauses_preserved start_tracked (Semantics.meets_all fun _ _ _ _ => trivial) ran
  refine ⟨fun later approved toolCallId earlier split => justified_at inv.justified split, asked_nodup inv.justified, ?_, ?_, ?_⟩
  · intro later toolCallId earlier split
    refine ⟨inv.undenied (.answered false toolCallId) (by rw [split]; simp) rfl, fun e member => ?_⟩
    obtain ⟨newer, between, rfl⟩ := List.append_of_mem member
    have before : c.store.history = newer ++ e :: (between ++ .answered false toolCallId :: earlier) := by
      rw [split, List.append_assoc, List.cons_append]
    have sound := justified_at inv.justified before
    cases e with
    | executed call approvedTools deniedTools =>
      have undenied := sound.2 (.answered false toolCallId) (by simp)
      cases undenied
    | withheld | asked | answered => rfl
  · intro later call approvedTools deniedTools earlier split
    exact (justified_at inv.justified split).1
  · intro rest
    exact inv.kept (resting_idle (follows .executor) rest inv.executor)

end Runs

namespace TwoCalls

def gate : GateContext := ⟨fun _ => none, false, true⟩

def first : GatedToolCall := ⟨"call_1", "send_email", "to the team"⟩

def second : GatedToolCall := ⟨"call_2", "send_email", "to the board"⟩

def responses : Nat → Response
  | 0 | 1 => ⟨"call_1", by decide, "send_email", true, false⟩
  | _ => ⟨"call_2", by decide, "send_email", false, false⟩

def agent : Checkpoint := ⟨1, "two e-mails"⟩

def start : PauseConfig := gate.startPauses [] [] 0 3 [3] responses

/-- One iteration withholds two calls of one tool. Two tabs approve the first; the second is denied. -/
def schedule : List PauseAction :=
  [.resume .executor .resolves, .resume .executor .resolves,
    .resume .executor (.iterates [first, second] agent false false), .resume .executor .resolves,
    .resume .executor (.bills 2), .resume .executor .resolves, .resume .executor .resolves,
    .resume (.tab 0) .resolves, .resume (.tab 1) .resolves, .resume (.tab 0) .resolves, .resume (.tab 0) .resolves,
    .resume .executor .resolves, .resume .executor .resolves, .resume .executor .resolves,
    .resume .executor (.replays agent), .resume .executor .resolves, .resume .executor .resolves,
    .resume .executor (.bills 0), .resume .executor .resolves, .resume .executor .resolves, .resume (.tab 2) .resolves]

end TwoCalls

theorem two_calls_answered : ∃ c, (pauseSemantics TwoCalls.gate).run TwoCalls.start TwoCalls.schedule = some c ∧
    askedIds c.store.history = [some "call_2", some "call_1"] ∧ executedCalls c.store.history = [TwoCalls.first] ∧
    PausesAnswered TwoCalls.gate c := by
  have reached : ((pauseSemantics TwoCalls.gate).run TwoCalls.start TwoCalls.schedule).map
      (fun c => (askedIds c.store.history, executedCalls c.store.history)) =
        some ([some "call_2", some "call_1"], [TwoCalls.first]) := by decide +kernel
  obtain ⟨c, ran, seen⟩ := Option.map_eq_some_iff.mp reached
  obtain ⟨asked, executed⟩ := Prod.mk.inj seen
  exact ⟨c, ran, asked, executed, pauses_answered ran⟩

end Bike4Mind.AgentExecution
