import Bike4Mind.Collections.Tally
import Mathlib.Data.Rat.Floor
import Mathlib.Tactic.Linarith

/-!
The credits one turn commits to its gated tools. A call is refused at its start unless the balance covers its
estimate beside everything committed so far; its charge takes the place of the estimate once it has delivered.
-/

namespace Bike4Mind.ToolCredits
open Collections
variable {Invocation : Type} [DecidableEq Invocation]

/-- `GATED_TOOL_NAMES`. -/
inductive GatedTool where
  | image_generation | edit_image | audio_generation
deriving DecidableEq

/-- What a turn's calls are billed by. The balances are read once, when the turn begins. -/
structure Terms where
  enforceCredits : Bool
  creditTransactions : Bool
  organizationCredits : Option ℚ
  userCredits : Option ℚ
  creditsPerUsdCost : ℚ

def Terms.enforced (terms : Terms) : Bool := terms.enforceCredits && terms.creditTransactions

def Terms.balance (terms : Terms) : ℚ := terms.organizationCredits.getD (terms.userCredits.getD 0)

def Terms.usdToCredits (terms : Terms) (usd : ℚ) : ℚ := max 1 ⌈usd * terms.creditsPerUsdCost⌉

structure InsufficientCredits where
  organization : Bool
  available : ℚ
  required : ℚ

structure ToolBuilder (Invocation : Type) where
  toolCreditsMap : OrderedMap GatedTool (List ℚ)
  gatedToolCredits : OrderedMap GatedTool (OrderedMap Invocation ℚ)

namespace ToolBuilder

def committedToolCredits (b : ToolBuilder Invocation) : ℚ :=
  (b.toolCreditsMap.values.map List.sum).sum + (b.gatedToolCredits.values.map fun estimates => estimates.values.sum).sum

def deleteEstimate (toolName : GatedTool) (invocation : Invocation) (b : ToolBuilder Invocation) : ToolBuilder Invocation :=
  match b.gatedToolCredits.get? toolName with
  | none => b
  | some estimates => { b with gatedToolCredits := b.gatedToolCredits.set toolName (estimates.erase invocation) }

/-- `store` is the invocation carried across awaits; a caller without one frees its name's oldest estimate. -/
def releaseGatedToolCredits (toolName : GatedTool) (store : Option Invocation) (b : ToolBuilder Invocation) :
    ToolBuilder Invocation :=
  let oldest := (b.gatedToolCredits.get? toolName).bind fun estimates => estimates.keys.head?
  match store.or oldest with
  | none => b
  | some invocation => b.deleteEstimate toolName invocation

def reserveToolCredits (toolName : GatedTool) (credits : ℚ) (store : Option Invocation) (b : ToolBuilder Invocation) :
    ToolBuilder Invocation :=
  let queue := (b.toolCreditsMap.get? toolName).getD []
  releaseGatedToolCredits toolName store { b with toolCreditsMap := b.toolCreditsMap.set toolName (queue ++ [credits]) }

/-- `symbol` is the fresh key of an estimate whose caller carries no invocation. -/
def recordGatedToolCredits (toolName : GatedTool) (credits : ℚ) (store : Option Invocation) (symbol : Invocation)
    (b : ToolBuilder Invocation) : ToolBuilder Invocation :=
  let estimates := (b.gatedToolCredits.get? toolName).getD ∅
  { b with gatedToolCredits := b.gatedToolCredits.set toolName (estimates.set (store.getD symbol) credits) }

/-- `validateImageCredits` and `validateAudioCredits`, for a call whose provider cost is known. -/
def validateCredits (terms : Terms) (usdCost committedCredits : ℚ) : Except InsufficientCredits ℚ :=
  let available := terms.balance - committedCredits
  let required := terms.usdToCredits usdCost
  if available < required then .error ⟨terms.organizationCredits.isSome, available, required⟩ else .ok required

/-- `gateAudioCredits`, and `gateImageCredits` once the image model is known: any other is not billed at all. -/
def gateCredits (terms : Terms) (toolName : GatedTool) (usdCost : ℚ) (store : Option Invocation) (symbol : Invocation)
    (b : ToolBuilder Invocation) : Except InsufficientCredits (ToolBuilder Invocation) :=
  if terms.enforced then
    (validateCredits terms usdCost b.committedToolCredits).map fun required =>
      b.recordGatedToolCredits toolName required store symbol
  else .ok b

/-- `settleAudioCredits` and `settleImageCredits`. -/
def settleCredits (terms : Terms) (toolName : GatedTool) (credits : ℚ) (store : Option Invocation) (b : ToolBuilder Invocation) :
    ToolBuilder Invocation :=
  if terms.enforced then b.reserveToolCredits toolName credits store else b

/-- The estimate one invocation of a tool is counted with. -/
def counted (b : ToolBuilder Invocation) (toolName : GatedTool) (invocation : Invocation) : Option ℚ :=
  (b.gatedToolCredits.get? toolName).bind (·.get? invocation)

section Lemmas
variable {b : ToolBuilder Invocation} {toolName other : GatedTool} {invocation i : Invocation} {credits : ℚ}

@[simp] theorem release_own : b.releaseGatedToolCredits toolName (some invocation) = b.deleteEstimate toolName invocation := rfl

theorem counted_deleteEstimate : (b.deleteEstimate toolName invocation).counted other i =
    if other = toolName ∧ i = invocation then none else b.counted other i := by
  unfold deleteEstimate counted
  by_cases same : other = toolName
  · subst same
    cases found : b.gatedToolCredits.get? other with
    | none => simp [found]
    | some estimates => simp [OrderedMap.get?_erase]
  · cases b.gatedToolCredits.get? toolName with
    | none => simp [same]
    | some estimates => simp [same, OrderedMap.get?_set_other same]

theorem counted_record {symbol : Invocation} : (b.recordGatedToolCredits toolName credits (some invocation) symbol).counted other i =
    if other = toolName ∧ i = invocation then some credits else b.counted other i := by
  unfold recordGatedToolCredits counted
  by_cases same : other = toolName
  · subst same
    cases found : b.gatedToolCredits.get? other <;> simp [OrderedMap.get?_set]
  · simp [same, OrderedMap.get?_set_other same]

theorem counted_reserve : (b.reserveToolCredits toolName credits (some invocation)).counted other i =
    if other = toolName ∧ i = invocation then none else b.counted other i :=
  counted_deleteEstimate

theorem committed_deleteEstimate : (b.deleteEstimate toolName invocation).committedToolCredits =
    b.committedToolCredits - (b.counted toolName invocation).getD 0 := by
  unfold deleteEstimate counted committedToolCredits
  cases found : b.gatedToolCredits.get? toolName with
  | none => simp
  | some estimates =>
    have erased : (estimates.erase invocation).values.sum = estimates.values.sum - (estimates.get? invocation).getD 0 :=
      OrderedMap.sum_erase
    simp only [OrderedMap.sum_map_set, found, erased, Option.map_some, Option.getD_some, Option.bind_some]
    ring

theorem committed_reserve : (b.reserveToolCredits toolName credits (some invocation)).committedToolCredits =
    b.committedToolCredits + credits - (b.counted toolName invocation).getD 0 := by
  have queued : ((b.toolCreditsMap.get? toolName).getD []).sum = ((b.toolCreditsMap.get? toolName).map List.sum).getD 0 := by
    cases b.toolCreditsMap.get? toolName <;> rfl
  unfold reserveToolCredits
  rw [release_own, committed_deleteEstimate]
  unfold counted committedToolCredits
  simp only [OrderedMap.sum_map_set, List.sum_append, List.sum_singleton, queued]
  ring

theorem committed_record {symbol : Invocation} (fresh : b.counted toolName invocation = none) :
    (b.recordGatedToolCredits toolName credits (some invocation) symbol).committedToolCredits = b.committedToolCredits + credits := by
  unfold counted at fresh
  unfold recordGatedToolCredits committedToolCredits
  simp only [OrderedMap.sum_map_set, Option.getD_some, OrderedMap.sum_set, OrderedMap.count]
  cases found : b.gatedToolCredits.get? toolName with
  | none =>
    simp
    ring
  | some estimates =>
    rw [found, Option.bind_some] at fresh
    simp only [Option.map_some, Option.getD_some, fresh, Option.getD_none]
    ring

/-- The gate lets a call through only where the balance covers it beside all that is committed. -/
theorem gateCredits_ok {terms : Terms} {usdCost : ℚ} {symbol : Invocation} {b' : ToolBuilder Invocation}
    (enforced : terms.enforced = true) (passed : b.gateCredits terms toolName usdCost (some invocation) symbol = .ok b') :
    b.committedToolCredits + terms.usdToCredits usdCost ≤ terms.balance ∧
      b' = b.recordGatedToolCredits toolName (terms.usdToCredits usdCost) (some invocation) symbol := by
  unfold gateCredits validateCredits at passed
  rw [if_pos enforced] at passed
  dsimp only at passed
  split at passed
  · cases passed
  · rename_i covered
    cases passed
    exact ⟨by linarith, rfl⟩

end Lemmas
end ToolBuilder

/-! ### One turn -/

/-- A call is gated once and settled at most once; what it was charged outlives it. -/
inductive Phase where
  | called
  | refused
  | gated (estimate : ℚ)
  | settled (charge : ℚ)
  | ended (charge : ℚ)

def Phase.estimate : Phase → Option ℚ
  | .gated estimate => some estimate
  | _ => none

def Phase.charge : Phase → ℚ
  | .settled charge | .ended charge => charge
  | _ => 0

def Phase.isOver : Phase → Prop
  | .ended _ => True
  | _ => False

structure Call where
  toolName : GatedTool
  phase : Phase

/-- The estimate a call should be counted with, under its own tool's name and no other. -/
def Call.inFlight (toolName : GatedTool) (call : Call) : Option ℚ :=
  if toolName = call.toolName then call.phase.estimate else none

structure Turn (Invocation : Type) where
  builder : ToolBuilder Invocation
  calls : OrderedMap Invocation Call

def Turn.start : Turn Invocation := ⟨⟨∅, ∅⟩, ∅⟩

/-- What happens between two awaits. A call may end from any phase, whether it returns or throws. -/
inductive Event (Invocation : Type) where
  | call (invocation : Invocation) (toolName : GatedTool)
  | gate (invocation : Invocation) (usdCost : ℚ)
  | settle (invocation : Invocation) (credits : ℚ)
  | finish (invocation : Invocation)

def Event.invocation : Event Invocation → Invocation
  | .call invocation _ | .gate invocation _ | .settle invocation _ | .finish invocation => invocation

def Event.charge : Event Invocation → ℚ
  | .settle _ credits => credits
  | _ => 0

def settledCharges (events : List (Event Invocation)) : ℚ := (events.map Event.charge).sum

/-- `trackGatedCalls` runs a tool under its own fresh invocation, and deletes what it still has there when the tool ends. -/
def Turn.step (terms : Terms) (turn : Turn Invocation) : Event Invocation → Option (Turn Invocation)
  | .call i toolName =>
    match turn.calls.get? i with
    | none => some { turn with calls := turn.calls.set i ⟨toolName, .called⟩ }
    | some _ => none
  | .gate i usdCost =>
    match turn.calls.get? i with
    | some ⟨toolName, .called⟩ =>
      match turn.builder.gateCredits terms toolName usdCost (some i) i with
      | .ok builder => some ⟨builder, turn.calls.set i ⟨toolName, .gated (terms.usdToCredits usdCost)⟩⟩
      | .error _ => some { turn with calls := turn.calls.set i ⟨toolName, .refused⟩ }
    | _ => none
  | .settle i credits =>
    match turn.calls.get? i with
    | some ⟨toolName, .gated estimate⟩ =>
      if credits ≤ estimate then
        some ⟨turn.builder.settleCredits terms toolName credits (some i), turn.calls.set i ⟨toolName, .settled credits⟩⟩
      else none
    | _ => none
  | .finish i =>
    match turn.calls.get? i with
    | none | some ⟨_, .ended _⟩ => none
    | some ⟨toolName, phase⟩ => some ⟨turn.builder.deleteEstimate toolName i, turn.calls.set i ⟨toolName, .ended phase.charge⟩⟩

inductive Run (terms : Terms) : List (Event Invocation) → Turn Invocation → Prop where
  | start : Run terms [] Turn.start
  | step {events turn event next} : Run terms events turn → turn.step terms event = some next → Run terms (events ++ [event]) next

theorem Run.replay {terms : Terms} {events later : List (Event Invocation)} {turn last : Turn Invocation} (run : Run terms events turn)
    (replayed : later.foldlM (Turn.step terms) turn = some last) : Run terms (events ++ later) last := by
  induction later generalizing events turn with
  | nil =>
    cases replayed
    rwa [List.append_nil]
  | cons event rest ih =>
    obtain ⟨next, moved, continued⟩ := Option.bind_eq_some_iff.mp replayed
    rw [List.append_cons]
    exact ih (run.step moved) continued

namespace Turn
variable {terms : Terms} {turn next : Turn Invocation} {event : Event Invocation} {events : List (Event Invocation)}

def inFlight (turn : Turn Invocation) : ℚ := (turn.calls.values.map fun call => call.phase.estimate.getD 0).sum

def charges (turn : Turn Invocation) : ℚ := (turn.calls.values.map fun call => call.phase.charge).sum

/-- Each step moves one call to its next phase, and the builder's books with it. -/
inductive Moves (terms : Terms) (turn : Turn Invocation) : Event Invocation → Turn Invocation → Prop where
  | call {i toolName} (fresh : turn.calls.get? i = none) :
      Moves terms turn (.call i toolName) { turn with calls := turn.calls.set i ⟨toolName, .called⟩ }
  | gate {i toolName usdCost} (found : turn.calls.get? i = some ⟨toolName, .called⟩)
      (covered : turn.builder.committedToolCredits + terms.usdToCredits usdCost ≤ terms.balance) :
      Moves terms turn (.gate i usdCost) ⟨turn.builder.recordGatedToolCredits toolName (terms.usdToCredits usdCost) (some i) i,
        turn.calls.set i ⟨toolName, .gated (terms.usdToCredits usdCost)⟩⟩
  | refuse {i toolName usdCost} (found : turn.calls.get? i = some ⟨toolName, .called⟩) :
      Moves terms turn (.gate i usdCost) { turn with calls := turn.calls.set i ⟨toolName, .refused⟩ }
  | settle {i toolName estimate credits} (found : turn.calls.get? i = some ⟨toolName, .gated estimate⟩)
      (afforded : credits ≤ estimate) :
      Moves terms turn (.settle i credits) ⟨turn.builder.reserveToolCredits toolName credits (some i),
        turn.calls.set i ⟨toolName, .settled credits⟩⟩
  | finish {i toolName phase} (found : turn.calls.get? i = some ⟨toolName, phase⟩) :
      Moves terms turn (.finish i) ⟨turn.builder.deleteEstimate toolName i,
        turn.calls.set i ⟨toolName, .ended phase.charge⟩⟩

theorem step_moves (enforced : terms.enforced = true) (h : turn.step terms event = some next) : Moves terms turn event next := by
  cases event with
  | call i toolName =>
    simp only [step] at h
    split at h
    · cases h
      exact .call ‹_›
    · cases h
  | gate i usdCost =>
    simp only [step] at h
    split at h
    · rename_i toolName found
      split at h
      · rename_i builder passed
        cases h
        obtain ⟨covered, rfl⟩ := ToolBuilder.gateCredits_ok enforced passed
        exact .gate found covered
      · cases h
        exact .refuse found
    · cases h
  | settle i credits =>
    simp only [step] at h
    split at h
    · rename_i toolName estimate found
      split at h
      · cases h
        unfold ToolBuilder.settleCredits
        rw [if_pos enforced]
        exact .settle found ‹_›
      · cases h
    · cases h
  | finish i =>
    simp only [step] at h
    split at h
    · cases h
    · cases h
    · cases h
      exact .finish ‹_›

/-- The builder counts exactly the calls in flight, each once, and never more than the balance in all. -/
structure Balanced (terms : Terms) (events : List (Event Invocation)) (turn : Turn Invocation) : Prop where
  within : turn.builder.committedToolCredits ≤ terms.balance
  total : turn.builder.committedToolCredits = settledCharges events + turn.inFlight
  settled : settledCharges events = turn.charges
  exact : ∀ toolName i, turn.builder.counted toolName i = (turn.calls.get? i).bind (Call.inFlight toolName)
  priced : ∀ i call, turn.calls.get? i = some call → 0 ≤ call.phase.estimate.getD 0

section Step
variable {builder : ToolBuilder Invocation} {i j : Invocation} {call old : Call} {toolName : GatedTool}

theorem inFlight_set : Turn.inFlight ⟨builder, turn.calls.set i call⟩ = turn.inFlight -
    ((turn.calls.get? i).map fun old => old.phase.estimate.getD 0).getD 0 + call.phase.estimate.getD 0 :=
  OrderedMap.sum_map_set _ _ _ _

theorem charges_set : Turn.charges ⟨builder, turn.calls.set i call⟩ = turn.charges -
    ((turn.calls.get? i).map fun old => old.phase.charge).getD 0 + call.phase.charge :=
  OrderedMap.sum_map_set _ _ _ _

omit [DecidableEq Invocation] in
theorem settledCharges_concat : settledCharges (events ++ [event]) = settledCharges events + event.charge := by
  simp [settledCharges]

theorem counted_elsewhere (move : Moves terms turn event next) (other : j ≠ event.invocation) :
    next.builder.counted toolName j = turn.builder.counted toolName j ∧ next.calls.get? j = turn.calls.get? j := by
  cases move <;> refine ⟨?_, OrderedMap.get?_set_other other⟩
  case call | refuse => rfl
  case gate => exact ToolBuilder.counted_record.trans (if_neg fun same => other same.2)
  case settle => exact ToolBuilder.counted_reserve.trans (if_neg fun same => other same.2)
  case finish => exact ToolBuilder.counted_deleteEstimate.trans (if_neg fun same => other same.2)

theorem Balanced.own {phase : Phase} (sound : Balanced terms events turn) (found : turn.calls.get? i = some ⟨toolName, phase⟩) :
    turn.builder.counted toolName i = phase.estimate := by
  rw [sound.exact, found]
  exact if_pos rfl

theorem total_move (sound : Balanced terms events turn) (move : Moves terms turn event next) :
    next.builder.committedToolCredits = turn.builder.committedToolCredits + event.charge + (next.inFlight - turn.inFlight) ∧
      next.charges = turn.charges + event.charge := by
  cases move with
  | call fresh => simp [inFlight_set, charges_set, fresh, Phase.estimate, Phase.charge, Event.charge]
  | gate found =>
    have fresh := sound.own found
    simp [inFlight_set, charges_set, found, ToolBuilder.committed_record fresh, Phase.estimate, Phase.charge, Event.charge]
  | refuse found => simp [inFlight_set, charges_set, found, Phase.estimate, Phase.charge, Event.charge]
  | settle found =>
    have own := sound.own found
    simp only [inFlight_set, charges_set, found, ToolBuilder.committed_reserve, own, Phase.estimate, Phase.charge, Event.charge,
      Option.map_some, Option.getD_some, Option.getD_none]
    constructor <;> ring
  | finish found =>
    have own := sound.own found
    simp only [inFlight_set, charges_set, found, ToolBuilder.committed_deleteEstimate, own, Phase.estimate, Phase.charge,
      Event.charge, Option.map_some, Option.getD_some, Option.getD_none]
    constructor <;> ring

theorem within_move (sound : Balanced terms events turn) (move : Moves terms turn event next) :
    next.builder.committedToolCredits ≤ terms.balance := by
  have within := sound.within
  cases move with
  | call | refuse => exact within
  | gate found covered => rwa [ToolBuilder.committed_record (sound.own found)]
  | settle found afforded =>
    rw [ToolBuilder.committed_reserve, sound.own found]
    simp only [Phase.estimate, Option.getD_some]
    linarith
  | finish found =>
    have priced := sound.priced _ _ found
    rw [ToolBuilder.committed_deleteEstimate, sound.own found]
    linarith

theorem exact_move (sound : Balanced terms events turn) (move : Moves terms turn event next) :
    ∃ call, next.calls.get? event.invocation = some call ∧ 0 ≤ call.phase.estimate.getD 0 ∧
      ∀ name, next.builder.counted name event.invocation = call.inFlight name := by
  cases move <;> refine ⟨_, OrderedMap.get?_set_self, ?_, fun name => ?_⟩
  case call.refine_1 | refuse.refine_1 | settle.refine_1 | finish.refine_1 => exact le_rfl
  case gate.refine_1 => exact zero_le_one.trans (le_max_left _ _)
  case call.refine_2 fresh => simp [Event.invocation, sound.exact, fresh, Call.inFlight, Phase.estimate]
  case refuse.refine_2 found => simp [Event.invocation, sound.exact, found, Call.inFlight, Phase.estimate]
  case gate.refine_2 found _ =>
    simp +contextual [Event.invocation, ToolBuilder.counted_record, sound.exact, found, Call.inFlight, Phase.estimate]
  case settle.refine_2 found _ =>
    simp +contextual [Event.invocation, ToolBuilder.counted_reserve, sound.exact, found, Call.inFlight, Phase.estimate]
  case finish.refine_2 found =>
    simp +contextual [Event.invocation, ToolBuilder.counted_deleteEstimate, sound.exact, found, Call.inFlight, Phase.estimate]

theorem balanced_step (sound : Balanced terms events turn) (move : Moves terms turn event next) :
    Balanced terms (events ++ [event]) next := by
  obtain ⟨committed, charged⟩ := total_move sound move
  obtain ⟨call, moved, priced, counted⟩ := exact_move sound move
  have elsewhere {j : Invocation} (name : GatedTool) (other : j ≠ event.invocation) :
      next.builder.counted name j = turn.builder.counted name j ∧ next.calls.get? j = turn.calls.get? j :=
    counted_elsewhere move other
  refine ⟨within_move sound move, ?_, ?_, fun name j => ?_, fun j other found => ?_⟩
  · rw [committed, sound.total, settledCharges_concat]
    ring
  · rw [charged, settledCharges_concat, sound.settled]
  · by_cases same : j = event.invocation
    · subst same
      rw [moved, counted, Option.bind_some]
    · obtain ⟨kept, unmoved⟩ := elsewhere name same
      rw [kept, unmoved, sound.exact]
  · by_cases same : j = event.invocation
    · subst same
      cases moved.symm.trans found
      exact priced
    · obtain ⟨_, unmoved⟩ := elsewhere .edit_image same
      exact sound.priced j other (unmoved ▸ found)

end Step

theorem run_balanced (enforced : terms.enforced = true) (held : 0 ≤ terms.balance) (run : Run terms events turn) :
    Balanced terms events turn := by
  induction run with
  | start =>
    exact {
      within := by simpa [start, ToolBuilder.committedToolCredits] using held
      total := rfl
      settled := rfl
      exact := fun _ _ => rfl
      priced := fun _ _ found => nomatch found }
  | step run moved ih => exact balanced_step ih (step_moves enforced moved)

omit [DecidableEq Invocation] in
theorem inFlight_over (ended : ∀ call ∈ turn.calls.values, call.phase.isOver) : turn.inFlight = 0 := by
  refine List.sum_eq_zero fun credits member => ?_
  obtain ⟨⟨toolName, phase⟩, listed, rfl⟩ := List.mem_map.mp member
  cases phase with
  | ended => rfl
  | called | refused | gated | settled => cases ended _ listed

/--
In every interleaving of a turn's gated calls, what is committed stays within the balance the turn began with, which the
turn's own hold has left nonnegative: the charges so far and one estimate for each call between its gate and its settlement
or end. What one call does never changes the estimate of another, and once all have ended only the charges are left.
-/
theorem commits_within_balance (enforced : terms.enforced = true) (held : 0 ≤ terms.balance) (run : Run terms events turn) :
    turn.builder.committedToolCredits ≤ terms.balance ∧
      turn.builder.committedToolCredits = settledCharges events + turn.inFlight ∧
      (∀ toolName i, turn.builder.counted toolName i = (turn.calls.get? i).bind (Call.inFlight toolName)) ∧
      (∀ event next, turn.step terms event = some next → ∀ toolName i, i ≠ event.invocation →
        next.builder.counted toolName i = turn.builder.counted toolName i) ∧
      ((∀ call ∈ turn.calls.values, call.phase.isOver) → turn.builder.committedToolCredits = settledCharges events) := by
  have sound := run_balanced enforced held run
  refine ⟨sound.within, sound.total, sound.exact, fun event next moved toolName i other => ?_, fun ended => ?_⟩
  · exact (counted_elsewhere (step_moves enforced moved) other).1
  · rw [sound.total, inFlight_over ended, add_zero]

end Turn

/-! Two clips of one tool, of which the second ends first, and a third call the balance no longer covers. -/
namespace OutOfOrder

def terms : Terms := ⟨true, true, none, some 10, 1⟩

def events : List (Event Nat) :=
  [.call 0 .audio_generation, .call 1 .audio_generation, .gate 0 4, .gate 1 5, .settle 1 3, .finish 1,
    .call 2 .edit_image, .gate 2 4, .finish 2]

theorem replayed : (events.foldlM (Turn.step terms) Turn.start).isSome := by decide +kernel

def last : Turn Nat := (events.foldlM (Turn.step terms) Turn.start).get replayed

theorem run : Run terms events last := Run.replay .start (Option.some_get replayed).symm

/-- The first clip is still counted in full, though a later clip of its tool settled and ended before it. -/
theorem first_clip_kept : last.builder.committedToolCredits ≤ 10 ∧ last.builder.counted .audio_generation 0 = some 4 := by
  have committed := Turn.commits_within_balance (by rfl) (by decide : (0 : ℚ) ≤ terms.balance) run
  exact ⟨committed.1, (committed.2.2.1 _ _).trans (by decide +kernel)⟩

end OutOfOrder

end Bike4Mind.ToolCredits
