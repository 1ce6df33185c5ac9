import Bike4Mind.Collections.Grid
import Bike4Mind.History.Replay
import Mathlib.Data.Rat.Defs

/-! The window of a session's turns that `fetchAndProcessPreviousMessages` replays. -/

namespace Bike4Mind.History
open Texts Collections

def UNLIMITED_HISTORY_COUNT : Int := -1

def DEFAULT_HISTORY_FETCH_LIMIT : Nat := 14

def HISTORY_WINDOW_STEP : Nat := 10

def isUnlimitedHistory (historyCount : Option Int) : Bool := historyCount = some UNLIMITED_HISTORY_COUNT

def resolveHistoryFetchLimit (historyCount : Option Int) : Nat :=
  if isUnlimitedHistory historyCount then DEFAULT_HISTORY_FETCH_LIMIT
  else historyCount.elim DEFAULT_HISTORY_FETCH_LIMIT Int.toNat

def historyWindowStep (limit : Nat) : Nat := min HISTORY_WINDOW_STEP (max 1 (limit / 2))

def resolveHistoryWindowStart (priorQuestCount limit : Nat) : Nat :=
  if priorQuestCount ≤ limit then 0 else gridAbove (historyWindowStep limit) (priorQuestCount - limit)

/-- A session: its quests, oldest first, and how far its summary reaches. -/
structure Session where
  quests : List ChatHistoryItem
  contextSummaryUpToQuestId : Option Text := none

/-- The newest quests of a session, newest first. -/
def getMostRecentChatHistory (session : Session) (limit : Nat) : List ChatHistoryItem := session.quests.reverse.take limit

/-- `questCount` is what the count query read: none where the repository has none or it failed. -/
structure HistoryRequest where
  historyCount : Option Int := none
  questCount : Option Nat
  verbatimTokenBudget : Option ℚ := none
  excludeCurrentPrompt : Bool := false
  model : Option Text := none
  includeReplyChoices : Bool := false

/-- The turns a request is left with, and where the first stands in its session when that is known. -/
structure Window where
  chatHistoryItems : List ChatHistoryItem
  windowStartIndex : Option Nat := none

structure PreviousMessages where
  messages : List IMessage
  /-- The turns that the messages replay. -/
  chatHistoryItems : List ChatHistoryItem
  excludedOlderQuestCount : Nat
  oldestIncludedQuestId : Option Text

/-! ### The three trims -/

/-- The turns without the current one, which stays only when it is alone and may. -/
def withoutCurrent (excludeCurrentPrompt : Bool) (chatHistoryItems : List ChatHistoryItem) : List ChatHistoryItem :=
  if 1 < chatHistoryItems.length ∨ excludeCurrentPrompt then chatHistoryItems.dropLast else chatHistoryItems

/-- The start of the window moved up to the step grid. -/
def aligned (limit questCount : Nat) (chatHistoryItems : List ChatHistoryItem) : Window :=
  -- floored at what was fetched, in case a concurrent write made the two reads disagree
  let priorQuestCount := max (questCount - 1) chatHistoryItems.length
  let windowStart := resolveHistoryWindowStart priorQuestCount limit
  let windowStartIndex := priorQuestCount - chatHistoryItems.length
  let dropCount := min (windowStart - windowStartIndex) (chatHistoryItems.length - 1)
  ⟨chatHistoryItems.drop dropCount, some (windowStartIndex + dropCount)⟩

/-- Whether the summary does not cover a turn yet. -/
def newerThan (boundary : Text) (item : ChatHistoryItem) : Bool := boundary < item.id

def Window.newer (window : Window) (boundary : Option Text) : Window :=
  match truthy boundary with
  | none => window
  | some boundary =>
    let filtered := window.chatHistoryItems.filter (newerThan boundary)
    ⟨filtered, window.windowStartIndex.map (· + (window.chatHistoryItems.length - filtered.length))⟩

section Budget
variable (estimate : ChatHistoryItem → Nat) (verbatimTokenBudget : ℚ)

/-- The walk from the newest turn: the index of the first turn that fits. The newest is never dropped. -/
def keepFromIndex (length : Nat) : (usedTokens : Nat) → (newestFirst : List ChatHistoryItem) → Nat
  | _, [] => 0
  | usedTokens, item :: older =>
    let usedTokens := usedTokens + estimate item
    if verbatimTokenBudget < usedTokens ∧ older.length < length - 1 then older.length + 1
    else keepFromIndex length usedTokens older

/-- The trim moved to the step grid: up when the newest turn stays, else down when that drops a turn. -/
def snapped (step windowStartIndex length rawTrim : Nat) : Nat :=
  let absoluteStart := windowStartIndex + rawTrim
  let snappedUp := gridAbove step absoluteStart - windowStartIndex
  let snappedDown := gridBelow step absoluteStart - windowStartIndex
  if snappedUp ≤ length - 1 then snappedUp else if 0 < snappedDown then snappedDown else rawTrim

/-- What is left of the turns under the budget, and how many were excluded. -/
def Window.bounded (window : Window) (limit : Nat) : List ChatHistoryItem × Nat :=
  let chatHistoryItems := window.chatHistoryItems
  if 0 < verbatimTokenBudget ∧ 1 < chatHistoryItems.length then
    let rawTrim := keepFromIndex estimate verbatimTokenBudget chatHistoryItems.length 0 chatHistoryItems.reverse
    if 0 < rawTrim then
      let keepFromIndex := window.windowStartIndex.elim rawTrim fun windowStartIndex =>
        snapped (historyWindowStep limit) windowStartIndex chatHistoryItems.length rawTrim
      -- never less than the trim before the snap: a zero reads as no token pressure
      (chatHistoryItems.drop keepFromIndex, max rawTrim keepFromIndex)
    else (chatHistoryItems, 0)
  else (chatHistoryItems, 0)

end Budget

section Fetch
variable (session : Session) (request : HistoryRequest)

/-- The turns fetched, before the window and the summary cut them. -/
def fetchedItems : List ChatHistoryItem :=
  withoutCurrent request.excludeCurrentPrompt
    (getMostRecentChatHistory session (resolveHistoryFetchLimit request.historyCount + 1)).reverse

def windowed : Window :=
  let limit := resolveHistoryFetchLimit request.historyCount
  let mayExceedWindow := limit < (getMostRecentChatHistory session (limit + 1)).length
  let aligns := !isUnlimitedHistory request.historyCount && (mayExceedWindow || request.verbatimTokenBudget.any (· ≠ 0))
  match if aligns then request.questCount else none with
  | none => ⟨fetchedItems session request, none⟩
  | some questCount => aligned limit questCount (fetchedItems session request)

/-- The turns left by the window and the summary. -/
def summarized : Window := (windowed session request).newer session.contextSummaryUpToQuestId

def fetchAndProcessPreviousMessages (estimate : ChatHistoryItem → Nat) : PreviousMessages :=
  if !isUnlimitedHistory request.historyCount && request.historyCount.any (· ≤ 0) then ⟨[], [], 0, none⟩
  else
    let limit := resolveHistoryFetchLimit request.historyCount
    let window := summarized session request
    let trimmed := request.verbatimTokenBudget.elim (window.chatHistoryItems, 0) fun budget => window.bounded estimate budget limit
    { messages := convertedMessages request.model request.includeReplyChoices trimmed.1
      chatHistoryItems := trimmed.1
      excludedOlderQuestCount := trimmed.2
      oldestIncludedQuestId := trimmed.1.head?.map ChatHistoryItem.id }

end Fetch
end Bike4Mind.History
