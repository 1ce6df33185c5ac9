import Bike4Mind.History.Window
import Mathlib.Algebra.BigOperators.Group.List.Basic
import Mathlib.Data.Rat.Cast.Order
import Mathlib.Data.List.Basic

/-! The window of replayed turns: what it keeps of a session, and how its start moves as the session grows. -/

namespace Bike4Mind.History
open Texts Collections

/-- The quests before the current one, or the current one alone on a session's first turn. -/
def priorQuests (session : Session) (request : HistoryRequest) : List ChatHistoryItem :=
  withoutCurrent request.excludeCurrentPrompt session.quests

/-- Whether the session's summary leaves a quest out. -/
def uncovered (session : Session) (item : ChatHistoryItem) : Bool :=
  (truthy session.contextSummaryUpToQuestId).all fun boundary => newerThan boundary item

/-- A window of turns, or all of them. -/
def Usable (historyCount : Option Int) : Prop := isUnlimitedHistory historyCount = true ∨ ∀ count ∈ historyCount, 0 < count

/-! ### Lists that keep their last entry -/

section Last
variable {α : Type} {l : List α}

theorem drop_keeps_last {k : Nat} (short : k ≤ l.length - 1) : (l.drop k).getLast? = l.getLast? := by
  rw [List.getLast?_drop]
  split
  · have none : l = [] := List.eq_nil_of_length_eq_zero (by omega)
    rw [none]
    rfl
  · rfl

theorem filter_keeps_last {p : α → Bool} {x : α} (last : l.getLast? = some x) (passes : p x = true) :
    (l.filter p).getLast? = some x := by
  obtain ⟨front, rfl⟩ := List.getLast?_eq_some_iff.mp last
  rw [List.filter_append, List.filter_singleton, passes]
  exact List.getLast?_append_cons _ _ _

/-- Where an order only grows along a list, what lies beyond a point of it is an end of the list. -/
theorem filter_suffix {p : α → Bool} (later : l.Pairwise fun a b => p a = true → p b = true) : l.filter p <:+ l := by
  induction l with
  | nil => exact List.suffix_refl _
  | cons x rest ih =>
    obtain ⟨after, later⟩ := List.pairwise_cons.mp later
    rw [List.filter_cons]
    split
    · rename_i passes
      rw [List.filter_eq_self.mpr fun y member => after y member passes]
    · exact (ih later).trans (List.suffix_cons _ _)

end Last

/-! ### The fetch -/

section Fetched
variable {session : Session} {request : HistoryRequest}

theorem fetch_limit_positive (usable : Usable request.historyCount) : 0 < resolveHistoryFetchLimit request.historyCount := by
  unfold resolveHistoryFetchLimit
  split
  · exact Nat.succ_pos _
  · rename_i limited
    cases count : request.historyCount with
    | none => exact Nat.succ_pos _
    | some count' =>
      rcases usable with unlimited | counts
      · exact absurd unlimited limited
      · have positive := counts count' count
        show 0 < count'.toNat
        omega

theorem fetchedItems_eq (usable : Usable request.historyCount) : fetchedItems session request =
    (priorQuests session request).drop ((priorQuests session request).length - resolveHistoryFetchLimit request.historyCount) := by
  have positive := fetch_limit_positive usable
  have recent : (getMostRecentChatHistory session (resolveHistoryFetchLimit request.historyCount + 1)).reverse =
      session.quests.drop (session.quests.length - (resolveHistoryFetchLimit request.historyCount + 1)) := by
    rw [getMostRecentChatHistory, List.take_reverse, List.reverse_reverse]
  unfold fetchedItems priorQuests
  rw [recent]
  generalize resolveHistoryFetchLimit request.historyCount = limit at positive ⊢
  unfold withoutCurrent
  by_cases several : 1 < session.quests.length
  · rw [if_pos (Or.inl several), if_pos (Or.inl (by rw [List.length_drop]; omega)), List.length_dropLast]
    rw [show session.quests.length - 1 - limit = session.quests.length - (limit + 1) by omega]
    exact List.dropLast_drop_eq_drop_dropLast _ _
  · have whole : session.quests.length - (limit + 1) = 0 := by omega
    rw [whole, List.drop_zero]
    split
    · rw [List.length_dropLast, show session.quests.length - 1 - limit = 0 by omega, List.drop_zero]
    · rw [show session.quests.length - limit = 0 by omega, List.drop_zero]

theorem fetched_length (usable : Usable request.historyCount) : (fetchedItems session request).length =
    min (resolveHistoryFetchLimit request.historyCount) (priorQuests session request).length := by
  rw [fetchedItems_eq usable, List.length_drop]
  omega

/-- The window drops turns from the front of what was fetched, and never all. -/
theorem windowed_drops : ∃ dropCount ≤ (fetchedItems session request).length - 1,
    (windowed session request).chatHistoryItems = (fetchedItems session request).drop dropCount := by
  unfold windowed
  dsimp only
  split
  · exact ⟨0, Nat.zero_le _, rfl⟩
  · exact ⟨_, Nat.min_le_right _ _, rfl⟩

theorem summarized_items : (summarized session request).chatHistoryItems =
    (windowed session request).chatHistoryItems.filter (uncovered session) := by
  unfold summarized Window.newer uncovered
  cases truthy session.contextSummaryUpToQuestId with
  | none =>
    show _ = (windowed session request).chatHistoryItems.filter fun _ => true
    rw [List.filter_true]
  | some boundary => rfl

end Fetched

/-! ### The budget -/

section Budget
variable {estimate : ChatHistoryItem → Nat} {budget : ℚ}

theorem keepFromIndex_le (length used : Nat) (items : List ChatHistoryItem) : keepFromIndex estimate budget length used items ≤ length - 1 := by
  induction items generalizing used with
  | nil => exact Nat.zero_le _
  | cons item older ih =>
    unfold keepFromIndex
    dsimp only
    split
    · rename_i stops
      omega
    · exact ih _

/-- The walk stops at a turn exactly when the turns do not fit together. -/
theorem keepFromIndex_pos {length : Nat} (several : 1 < length) {used : Nat} {items : List ChatHistoryItem} (some : items ≠ []) :
    0 < keepFromIndex estimate budget length used items ↔ budget < ((used + (items.map estimate).sum : Nat) : ℚ) := by
  induction items generalizing used with
  | nil => exact absurd rfl some
  | cons item older ih =>
    unfold keepFromIndex
    dsimp only
    rw [List.map_cons, List.sum_cons, ← Nat.add_assoc]
    have grows : ((used + estimate item : Nat) : ℚ) ≤ ((used + estimate item + (older.map estimate).sum : Nat) : ℚ) :=
      Nat.cast_le.mpr (Nat.le_add_right _ _)
    split
    · rename_i stops
      constructor
      · intro _
        exact lt_of_lt_of_le stops.1 grows
      · intro _
        exact Nat.succ_pos _
    · rename_i fits
      by_cases last : older = []
      · subst last
        constructor
        · intro found
          exact absurd found (Nat.lt_irrefl 0)
        · intro inside
          exact absurd ⟨inside, by show 0 < length - 1; omega⟩ fits
      · exact ih last

theorem snapped_le {step windowStartIndex length rawTrim : Nat} (inside : rawTrim ≤ length - 1) :
    snapped step windowStartIndex length rawTrim ≤ length - 1 := by
  have below := @gridBelow_le step (windowStartIndex + rawTrim)
  unfold snapped
  dsimp only
  split
  · assumption
  · split
    · omega
    · exact inside

theorem bounded_drops (window : Window) (limit : Nat) : ∃ keepFrom ≤ window.chatHistoryItems.length - 1,
    (window.bounded estimate budget limit).1 = window.chatHistoryItems.drop keepFrom := by
  unfold Window.bounded
  dsimp only
  have raw := @keepFromIndex_le estimate budget window.chatHistoryItems.length 0 window.chatHistoryItems.reverse
  split
  · split
    · refine ⟨_, ?_, rfl⟩
      cases window.windowStartIndex with
      | none => exact raw
      | some windowStartIndex => exact snapped_le raw
    · exact ⟨0, Nat.zero_le _, rfl⟩
  · exact ⟨0, Nat.zero_le _, rfl⟩

/-- Turns are reported as excluded exactly under token pressure, whatever the snap does. -/
theorem bounded_pressure (window : Window) (limit : Nat) (positive : 0 < budget) : 0 < (window.bounded estimate budget limit).2 ↔
    1 < window.chatHistoryItems.length ∧ budget < ((window.chatHistoryItems.map estimate).sum : ℚ) := by
  unfold Window.bounded
  dsimp only
  by_cases several : 1 < window.chatHistoryItems.length
  · have backwards : window.chatHistoryItems.reverse ≠ [] := by
      intro none
      rw [List.reverse_eq_nil_iff.mp none] at several
      exact absurd several (by decide)
    have walk := @keepFromIndex_pos estimate budget _ several 0 _ backwards
    rw [Nat.zero_add, List.map_reverse, List.sum_reverse] at walk
    rw [if_pos ⟨positive, several⟩, ← walk]
    split
    · rename_i trims
      exact ⟨fun _ => ⟨several, trims⟩, fun _ => lt_of_lt_of_le trims (Nat.le_max_left _ _)⟩
    · rename_i fits
      exact ⟨fun none => absurd none (Nat.lt_irrefl 0), fun both => absurd both.2 fits⟩
  · rw [if_neg fun both => several both.2]
    exact ⟨fun none => absurd none (Nat.lt_irrefl 0), fun both => absurd both.1 several⟩

end Budget

/-! ### One session -/

section Session
variable (estimate : ChatHistoryItem → Nat) (session : Session) (request : HistoryRequest)

/-- What the replayed turns are to the quests of the session. -/
structure KeepsNewest : Prop where
  suffix : (fetchAndProcessPreviousMessages session request estimate).chatHistoryItems <:+ priorQuests session request
  uncovered : (fetchAndProcessPreviousMessages session request estimate).chatHistoryItems <:+
    (priorQuests session request).filter (uncovered session)
  bounded : isUnlimitedHistory request.historyCount = false →
    (fetchAndProcessPreviousMessages session request estimate).chatHistoryItems.length ≤ resolveHistoryFetchLimit request.historyCount
  newest : ∀ item : ChatHistoryItem, (priorQuests session request).getLast? = some item → History.uncovered session item = true →
    (fetchAndProcessPreviousMessages session request estimate).chatHistoryItems.getLast? = some item

/-- Turns are reported as excluded when those the window and the summary left do not fit the budget, and only then. -/
def TellsPressure : Prop :=
  ∀ budget : ℚ, request.verbatimTokenBudget = some budget → 0 < budget →
    (0 < (fetchAndProcessPreviousMessages session request estimate).excludedOlderQuestCount ↔
      1 < (summarized session request).chatHistoryItems.length ∧
        budget < (((summarized session request).chatHistoryItems.map estimate).sum : ℚ))

variable {estimate session request}

theorem fetch_eq (usable : Usable request.historyCount) : fetchAndProcessPreviousMessages session request estimate =
    let window := summarized session request
    let trimmed := request.verbatimTokenBudget.elim (window.chatHistoryItems, 0) fun budget =>
      window.bounded estimate budget (resolveHistoryFetchLimit request.historyCount)
    { messages := convertedMessages request.model request.includeReplyChoices trimmed.1
      chatHistoryItems := trimmed.1
      excludedOlderQuestCount := trimmed.2
      oldestIncludedQuestId := trimmed.1.head?.map ChatHistoryItem.id } := by
  unfold fetchAndProcessPreviousMessages
  refine if_neg fun refused => ?_
  rw [Bool.and_eq_true, Bool.not_eq_true', Option.any_eq_true] at refused
  obtain ⟨limited, count, here, none⟩ := refused
  rcases usable with unlimited | counts
  · rw [unlimited] at limited
    cases limited
  · exact absurd (counts count here) (not_lt.mpr (of_decide_eq_true none))

theorem kept_drops (usable : Usable request.historyCount) : ∃ keepFrom ≤ (summarized session request).chatHistoryItems.length - 1,
    (fetchAndProcessPreviousMessages session request estimate).chatHistoryItems =
      (summarized session request).chatHistoryItems.drop keepFrom := by
  rw [fetch_eq usable]
  cases request.verbatimTokenBudget with
  | none => exact ⟨0, Nat.zero_le _, rfl⟩
  | some budget => exact bounded_drops _ _

theorem windowed_suffix (usable : Usable request.historyCount) :
    (windowed session request).chatHistoryItems <:+ priorQuests session request := by
  obtain ⟨dropCount, _, same⟩ := @windowed_drops session request
  rw [same, fetchedItems_eq usable]
  exact (List.drop_suffix _ _).trans (List.drop_suffix _ _)

theorem uncovered_suffix (increasing : session.quests.Pairwise fun a b => a.id < b.id) :
    (priorQuests session request).filter (uncovered session) <:+ priorQuests session request := by
  have inside : (priorQuests session request).Sublist session.quests := by
    unfold priorQuests withoutCurrent
    split
    · exact List.dropLast_sublist _
    · exact List.Sublist.refl _
  refine filter_suffix ((increasing.sublist inside).imp fun {a b} order => ?_)
  unfold uncovered
  cases truthy session.contextSummaryUpToQuestId with
  | none => exact id
  | some boundary =>
    rw [Option.all_some, Option.all_some, newerThan, newerThan, decide_eq_true_iff, decide_eq_true_iff]
    intro past
    exact List.lt_trans past order

theorem keeps_newest (increasing : session.quests.Pairwise fun a b => a.id < b.id) (usable : Usable request.historyCount) :
    KeepsNewest estimate session request := by
  obtain ⟨keepFrom, short, kept⟩ := @kept_drops estimate session request usable
  have ends : (fetchAndProcessPreviousMessages session request estimate).chatHistoryItems <:+
      (priorQuests session request).filter (uncovered session) := by
    rw [kept, summarized_items]
    exact (List.drop_suffix _ _).trans ((windowed_suffix usable).filter _)
  refine ⟨ends.trans (uncovered_suffix increasing), ends, ?_, ?_⟩
  · intro _
    obtain ⟨dropCount, _, same⟩ := @windowed_drops session request
    have fetched := @fetched_length session request usable
    calc (fetchAndProcessPreviousMessages session request estimate).chatHistoryItems.length
        ≤ (summarized session request).chatHistoryItems.length := by
          rw [kept, List.length_drop]
          exact Nat.sub_le _ _
      _ ≤ (windowed session request).chatHistoryItems.length := by
          rw [summarized_items]
          exact List.length_filter_le _ _
      _ ≤ (fetchedItems session request).length := by
          rw [same, List.length_drop]
          exact Nat.sub_le _ _
      _ ≤ resolveHistoryFetchLimit request.historyCount := by
          rw [fetched]
          exact Nat.min_le_left _ _
  · intro item last open'
    obtain ⟨dropCount, inside, same⟩ := @windowed_drops session request
    have positive := fetch_limit_positive usable
    have fetchedLast : (fetchedItems session request).getLast? = some item := by
      rw [fetchedItems_eq usable, drop_keeps_last (by omega), last]
    rw [kept, drop_keeps_last short, summarized_items]
    exact filter_keeps_last (by rw [same, drop_keeps_last inside, fetchedLast]) open'

theorem tells_pressure (usable : Usable request.historyCount) : TellsPressure estimate session request := by
  intro budget given positive
  rw [fetch_eq usable, given]
  exact bounded_pressure _ _ positive

end Session

/-! ### A session that grows -/

/-- The session on its turn `t`: the quests before it, and its own. -/
def sessionAt (quests : Nat → ChatHistoryItem) (t : Nat) : Session := { quests := (List.range (t + 1)).map quests }

/-- The request of turn `t`, with a count that agrees with the fetch. -/
def requestAt (request : HistoryRequest) (t : Nat) : HistoryRequest := { request with questCount := some (t + 1) }

section Growing
variable (estimate : ChatHistoryItem → Nat) (quests : Nat → ChatHistoryItem) (request : HistoryRequest)

def keptAt (t : Nat) : List ChatHistoryItem :=
  (fetchAndProcessPreviousMessages (sessionAt quests t) (requestAt request t) estimate).chatHistoryItems

/-- Where the window starts among the quests before the turn. -/
def startAt (t : Nat) : Nat := t - (keptAt estimate quests request t).length

/-- The start of the window moves forward, seldom, and leaves a window that is nearly full. -/
structure CacheStable : Prop where
  forward : ∀ t : Nat, startAt estimate quests request t ≤ startAt estimate quests request (t + 1)
  seldom : ∀ i j : Nat, i < j → startAt estimate quests request (i + 1) ≠ startAt estimate quests request i →
    startAt estimate quests request (j + 1) ≠ startAt estimate quests request j →
    historyWindowStep (resolveHistoryFetchLimit request.historyCount) ≤ j - i
  full : ∀ t : Nat, resolveHistoryFetchLimit request.historyCount < (sessionAt quests t).quests.length →
    resolveHistoryFetchLimit request.historyCount - historyWindowStep (resolveHistoryFetchLimit request.historyCount) + 1 ≤
      (keptAt estimate quests request t).length

end Growing

section WindowStart
variable {limit : Nat}

theorem step_positive (limit : Nat) : 0 < historyWindowStep limit := by
  unfold historyWindowStep HISTORY_WINDOW_STEP
  omega

theorem step_le (positive : 0 < limit) : historyWindowStep limit ≤ limit := by
  unfold historyWindowStep
  omega

/-- The start leaves at most `limit` quests, and more than `limit - step`. -/
theorem windowStart_bounds {t : Nat} (past : limit ≤ t) : t - limit ≤ resolveHistoryWindowStart t limit ∧
    resolveHistoryWindowStart t limit < t - limit + historyWindowStep limit := by
  have positive := step_positive limit
  unfold resolveHistoryWindowStart
  split
  · omega
  · exact ⟨le_gridAbove positive _, gridAbove_lt positive _⟩

theorem windowStart_mono (t : Nat) : resolveHistoryWindowStart t limit ≤ resolveHistoryWindowStart (t + 1) limit := by
  unfold resolveHistoryWindowStart
  split
  · exact Nat.zero_le _
  · rw [if_neg (by omega)]
    exact gridAbove_mono (by omega)

theorem windowStart_moves {t : Nat} (moves : resolveHistoryWindowStart (t + 1) limit ≠ resolveHistoryWindowStart t limit) :
    limit ≤ t ∧ historyWindowStep limit ∣ t - limit := by
  unfold resolveHistoryWindowStart at moves
  split at moves
  · rw [if_pos (by omega)] at moves
    exact absurd rfl moves
  · split at moves
    · have here : t - limit = 0 := by omega
      exact ⟨by omega, here ▸ Nat.dvd_zero _⟩
    · rw [show t + 1 - limit = t - limit + 1 by omega] at moves
      exact ⟨by omega, gridAbove_moves (step_positive limit) moves⟩

end WindowStart

section Growing
variable {estimate : ChatHistoryItem → Nat} {quests : Nat → ChatHistoryItem} {request : HistoryRequest}

theorem session_length (t : Nat) : (sessionAt quests t).quests.length = t + 1 := by
  rw [sessionAt, List.length_map, List.length_range]

theorem priorQuests_length {t : Nat} (later : 0 < t) : (priorQuests (sessionAt quests t) (requestAt request t)).length = t := by
  unfold priorQuests withoutCurrent
  rw [if_pos (Or.inl (by rw [session_length]; omega)), List.length_dropLast, session_length]
  rfl

/-- Without a budget and a summary, what is replayed is the window. -/
theorem kept_windowed (usable : Usable request.historyCount) (noBudget : request.verbatimTokenBudget = none) (t : Nat) :
    keptAt estimate quests request t = (windowed (sessionAt quests t) (requestAt request t)).chatHistoryItems := by
  unfold keptAt
  have none : (requestAt request t).verbatimTokenBudget = none := noBudget
  rw [@fetch_eq estimate _ (requestAt request t) usable]
  dsimp only
  rw [none, Option.elim_none, summarized_items]
  exact List.filter_eq_self.mpr fun item _ => rfl

theorem kept_length (limited : isUnlimitedHistory request.historyCount = false) (usable : Usable request.historyCount)
    (noBudget : request.verbatimTokenBudget = none) {t : Nat} (later : 0 < t) :
    (keptAt estimate quests request t).length =
      t - resolveHistoryWindowStart t (resolveHistoryFetchLimit request.historyCount) := by
  have positive := fetch_limit_positive usable
  have fetched : (fetchedItems (sessionAt quests t) (requestAt request t)).length =
      min (resolveHistoryFetchLimit request.historyCount) t := by
    have bound := @fetched_length (sessionAt quests t) (requestAt request t) usable
    rw [priorQuests_length later] at bound
    exact bound
  have recent : (getMostRecentChatHistory (sessionAt quests t) (resolveHistoryFetchLimit request.historyCount + 1)).length =
      min (resolveHistoryFetchLimit request.historyCount + 1) (t + 1) := by
    rw [getMostRecentChatHistory, List.length_take, List.length_reverse, session_length]
  rw [kept_windowed usable noBudget]
  unfold windowed
  have aligns : (!isUnlimitedHistory (requestAt request t).historyCount &&
      (decide (resolveHistoryFetchLimit (requestAt request t).historyCount <
        (getMostRecentChatHistory (sessionAt quests t) (resolveHistoryFetchLimit (requestAt request t).historyCount + 1)).length) ||
      (requestAt request t).verbatimTokenBudget.any (· ≠ 0))) = decide (resolveHistoryFetchLimit request.historyCount ≤ t) := by
    show (!isUnlimitedHistory request.historyCount && (decide (resolveHistoryFetchLimit request.historyCount <
      (getMostRecentChatHistory (sessionAt quests t) (resolveHistoryFetchLimit request.historyCount + 1)).length) ||
      request.verbatimTokenBudget.any (· ≠ 0))) = _
    rw [limited, noBudget, recent, Option.any_none, Bool.or_false, Bool.not_false, Bool.true_and, decide_eq_decide]
    omega
  have limitOf : resolveHistoryFetchLimit (requestAt request t).historyCount = resolveHistoryFetchLimit request.historyCount := rfl
  dsimp only
  rw [aligns, limitOf]
  clear aligns limitOf
  generalize resolveHistoryFetchLimit request.historyCount = limit at *
  by_cases long : limit ≤ t
  · obtain ⟨low, high⟩ := windowStart_bounds long
    have stepped := step_le positive
    rw [if_pos (decide_eq_true long)]
    show (List.drop _ _).length = _
    rw [List.length_drop, fetched, show max (t + 1 - 1) (min limit t) = t by omega]
    omega
  · rw [if_neg (by rw [decide_eq_true_iff]; exact long)]
    show (fetchedItems (sessionAt quests t) (requestAt request t)).length = _
    rw [fetched, resolveHistoryWindowStart, if_pos (by omega)]
    omega

theorem startAt_eq (limited : isUnlimitedHistory request.historyCount = false) (usable : Usable request.historyCount)
    (noBudget : request.verbatimTokenBudget = none) (t : Nat) :
    startAt estimate quests request t = resolveHistoryWindowStart t (resolveHistoryFetchLimit request.historyCount) := by
  rcases Nat.eq_zero_or_pos t with rfl | later
  · rw [startAt, Nat.zero_sub, resolveHistoryWindowStart, if_pos (Nat.zero_le _)]
  · have positive := fetch_limit_positive usable
    have inside : resolveHistoryWindowStart t (resolveHistoryFetchLimit request.historyCount) ≤ t := by
      have stepped := step_le positive
      rcases Nat.lt_or_ge t (resolveHistoryFetchLimit request.historyCount) with short | long
      · rw [resolveHistoryWindowStart, if_pos (Nat.le_of_lt short)]
        exact Nat.zero_le _
      · obtain ⟨_, high⟩ := windowStart_bounds long
        omega
    rw [startAt, kept_length limited usable noBudget later]
    omega

theorem cache_stable (limited : isUnlimitedHistory request.historyCount = false) (usable : Usable request.historyCount)
    (noBudget : request.verbatimTokenBudget = none) : CacheStable estimate quests request where
  forward t := by
    rw [startAt_eq limited usable noBudget, startAt_eq limited usable noBudget]
    exact windowStart_mono t
  seldom i j order movesI movesJ := by
    rw [startAt_eq limited usable noBudget, startAt_eq limited usable noBudget] at movesI movesJ
    obtain ⟨pastI, pointI⟩ := windowStart_moves movesI
    obtain ⟨pastJ, pointJ⟩ := windowStart_moves movesJ
    have apart := Nat.dvd_sub pointJ pointI
    rw [show j - resolveHistoryFetchLimit request.historyCount - (i - resolveHistoryFetchLimit request.historyCount) = j - i by omega]
      at apart
    exact Nat.le_of_dvd (by omega) apart
  full t long := by
    rw [session_length] at long
    have positive := fetch_limit_positive usable
    rw [kept_length limited usable noBudget (by omega)]
    obtain ⟨_, high⟩ := windowStart_bounds (Nat.le_of_lt_succ long)
    have stepped := step_le positive
    omega

end Growing

/-- With a limit, a positive budget, any summary and any estimates, the window is a suffix that tells token pressure and
whose start, when only the limit cuts it, moves along the step grid. -/
theorem history_window_steady (estimate : ChatHistoryItem → Nat) (request : HistoryRequest) (usable : Usable request.historyCount) :
    (∀ session : Session, session.quests.Pairwise (fun a b => a.id < b.id) →
      KeepsNewest estimate session request ∧ TellsPressure estimate session request) ∧
    (isUnlimitedHistory request.historyCount = false → request.verbatimTokenBudget = none →
      ∀ quests : Nat → ChatHistoryItem, CacheStable estimate quests request) :=
  ⟨fun _ increasing => ⟨keeps_newest increasing usable, tells_pressure usable⟩,
    fun limited noBudget _ => cache_stable limited usable noBudget⟩

def numbered (n : Nat) : ChatHistoryItem := { id := decimal (100 + n), prompt := ascii "and then?" }

theorem four_quests_steady :
    (KeepsNewest (fun _ => 3) { quests := [0, 1, 2, 3].map numbered, contextSummaryUpToQuestId := some (decimal 100) }
        { historyCount := some 2, questCount := some 4, verbatimTokenBudget := some 5 } ∧
      TellsPressure (fun _ => 3) { quests := [0, 1, 2, 3].map numbered, contextSummaryUpToQuestId := some (decimal 100) }
        { historyCount := some 2, questCount := some 4, verbatimTokenBudget := some 5 }) ∧
    CacheStable (fun _ => 3) numbered { historyCount := some 2, questCount := some 4 } := by
  have usable : Usable (some 2) := Or.inr fun count here => by
    cases here
    decide
  refine ⟨(history_window_steady (fun _ => 3) { historyCount := some 2, questCount := some 4, verbatimTokenBudget := some 5 } usable).1 _ ?_,
    (history_window_steady (fun _ => 3) { historyCount := some 2, questCount := some 4 } usable).2 rfl rfl numbered⟩
  show List.Pairwise _ [numbered 0, numbered 1, numbered 2, numbered 3]
  decide

/-- A budget of zero is no budget, and an unlimited history slides by one quest a turn. -/
theorem zero_budget_and_unlimited_slide :
    (¬ ∀ (estimate : ChatHistoryItem → Nat) (session : Session) (request : HistoryRequest) (budget : ℚ),
      session.quests.Pairwise (fun a b => a.id < b.id) → Usable request.historyCount → request.verbatimTokenBudget = some budget →
      (0 < (fetchAndProcessPreviousMessages session request estimate).excludedOlderQuestCount ↔
        1 < (summarized session request).chatHistoryItems.length ∧
          budget < (((summarized session request).chatHistoryItems.map estimate).sum : ℚ))) ∧
    ¬ ∀ (estimate : ChatHistoryItem → Nat) (quests : Nat → ChatHistoryItem) (request : HistoryRequest),
      Usable request.historyCount → request.verbatimTokenBudget = none → CacheStable estimate quests request := by
  constructor
  · intro always
    have increasing : [numbered 0, numbered 1, numbered 2].Pairwise fun a b => a.id < b.id := by decide
    have usable : Usable (some 2) := Or.inr fun count here => by
      cases here
      decide
    have told := always (fun _ => 3) { quests := [numbered 0, numbered 1, numbered 2] }
      { historyCount := some 2, questCount := some 3, verbatimTokenBudget := some 0 } 0 increasing usable rfl
    exact absurd (told.mpr (by decide +kernel)) (by decide +kernel)
  · intro always
    have stable := always (fun _ => 3) numbered { historyCount := some UNLIMITED_HISTORY_COUNT, questCount := none } (Or.inl rfl) rfl
    exact absurd (stable.seldom 15 16 (by decide) (by decide +kernel) (by decide +kernel)) (by decide)

end Bike4Mind.History
