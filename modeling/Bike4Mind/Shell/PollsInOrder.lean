import Bike4Mind.Shell.SessionOutput
import Mathlib.Data.List.Chain

/-! A chain of polls reads the whole output of a session in order, up to what had left the buffer. -/

namespace Bike4Mind.Shell
open Collections Texts

/-! ### The whole output -/

/-- What the actions add to the output of the session at place `i`, once it is there. -/
def outputOf (i : Nat) (m : ShellSessionManager) : List ShellAction → Text
  | [] => []
  | action :: rest => (if i < m.objects.length then action.printed i else []) ++ outputOf i (m.step action) rest

theorem outputOf_concat {i : Nat} {m : ShellSessionManager} {actions : List ShellAction} {action : ShellAction} :
    outputOf i m (actions ++ [action]) =
      outputOf i m actions ++ if i < (m.run actions).objects.length then action.printed i else [] := by
  induction actions generalizing m with
  | nil => exact List.append_nil _
  | cons first rest ih =>
    rw [List.cons_append, outputOf, ih, outputOf, List.append_assoc]
    rfl

/-! ### What is under the ids -/

section Places
variable {m : ShellSessionManager} {i : Nat} {now : Time} {id : String}

/-- `m'` has the same sessions at the same places under the same ids. -/
def Placed (m m' : ShellSessionManager) : Prop := m'.objects.length = m.objects.length ∧ m'.sessions = m.sessions

theorem Placed.refl (m : ShellSessionManager) : Placed m m := ⟨rfl, rfl⟩

theorem Placed.trans {a b c : ShellSessionManager} (first : Placed a b) (second : Placed b c) : Placed a c :=
  ⟨second.1.trans first.1, second.2.trans first.2⟩

theorem append_placed {chunk : Text} : Placed m (m.append i chunk) := ⟨List.length_modify .., rfl⟩

theorem transition_placed {status : ShellSessionStatus} {exitCode : Option Int} : Placed m (m.transition i status exitCode now) :=
  ⟨List.length_modify .., rfl⟩

theorem signalGroup_placed {signal : GroupSignal} : Placed m (m.signalGroup i signal) := by
  unfold ShellSessionManager.signalGroup
  split
  · exact .refl m
  · exact ⟨rfl, rfl⟩

theorem terminate_placed {status : ShellSessionStatus} : Placed m (m.terminate i status now) :=
  transition_placed.trans signalGroup_placed

theorem ending_placed {status : ShellSessionStatus} {exitCode : Option Int} :
    Placed m (if (m.status? i).any isTerminal then m else m.transition i status exitCode now) := by
  split
  · exact .refl m
  · exact transition_placed

theorem killAll_placed : Placed m (m.killAll now) := by
  unfold ShellSessionManager.killAll
  generalize m.sessions.values = places
  induction places generalizing m with
  | nil => exact .refl m
  | cons i rest ih =>
    rw [List.foldl_cons]
    refine Placed.trans ?_ ih
    split
    · exact .refl m
    · exact terminate_placed

theorem writeStdin_placed {chars : Text} : Placed m (m.writeStdin id chars).2 := by
  unfold ShellSessionManager.writeStdin
  split
  · exact .refl m
  · dsimp only
    split
    · exact signalGroup_placed
    · exact .refl m

theorem escalate_placed : Placed m (m.escalate i) := by
  unfold ShellSessionManager.escalate
  split
  · exact signalGroup_placed
  · exact .refl m

theorem kill_placed : Placed m (m.kill id now).2 := by
  unfold ShellSessionManager.kill
  split
  · exact .refl m
  · exact terminate_placed

theorem markTimedOut_placed : Placed m (m.markTimedOut id now).2 := by
  unfold ShellSessionManager.markTimedOut
  split
  · exact .refl m
  · exact terminate_placed

theorem get?_of_erase {sessions : OrderedMap String Nat} {gone : String} (found : (sessions.erase gone).get? id = some i) :
    sessions.get? id = some i := by
  rw [OrderedMap.get?_erase] at found
  split at found
  · cases found
  · exact found

theorem get?_of_evictOldest {maxSessions : Nat} {sessions : OrderedMap String Nat} {oldest : List (String × Nat)}
    (found : (ShellSessionManager.evictOldest maxSessions sessions oldest).get? id = some i) : sessions.get? id = some i := by
  induction oldest generalizing sessions with
  | nil => exact found
  | cons entry rest ih =>
    unfold ShellSessionManager.evictOldest at found
    split at found
    · exact found
    · exact get?_of_erase (ih found)

theorem get?_of_erased {sessions : OrderedMap String Nat} {expired : List (String × Nat)}
    (found : (expired.foldl (fun sessions e => sessions.erase e.1) sessions).get? id = some i) : sessions.get? id = some i := by
  induction expired generalizing sessions with
  | nil => exact found
  | cons entry rest ih => exact get?_of_erase (ih found)

theorem get?_of_evictIfNeeded (found : (m.evictIfNeeded now).sessions.get? id = some i) : m.sessions.get? id = some i := by
  unfold ShellSessionManager.evictIfNeeded at found
  dsimp only at found
  split at found
  · exact get?_of_erased found
  · exact get?_of_erased (get?_of_evictOldest found)

theorem evictIfNeeded_objects : (m.evictIfNeeded now).objects = m.objects := by
  unfold ShellSessionManager.evictIfNeeded
  dsimp only
  split <;> rfl

/-- Only a new session comes to `m'`, at the next place, and only its id. -/
structure Grows (m m' : ShellSessionManager) : Prop where
  longer : m.objects.length ≤ m'.objects.length
  born : ∀ {i session}, m'.objects[i]? = some session → i < m.objects.length ∨
    i = m.objects.length ∧ (session.buffer = [] ∧ session.snapshot.totalOutputChars = 0) ∧ ∃ now, session.snapshot.id = sessionId (i + 1) now
  entries : ∀ {id i}, m'.sessions.get? id = some i → m.sessions.get? id = some i ∨
    ∃ session, m'.objects[i]? = some session ∧ session.snapshot.id = id

theorem Placed.grows {m m' : ShellSessionManager} (placed : Placed m m') : Grows m m' where
  longer := placed.1.ge
  born found := .inl (placed.1 ▸ (List.getElem?_eq_some_iff.mp found).choose)
  entries found := .inl (placed.2 ▸ found)

theorem spawn_grows {command cwd : String} {pid : Option Nat} {evictedAt namedAt startedAt : Time} :
    Grows m (m.spawn command cwd pid evictedAt namedAt startedAt).2 := by
  have objects : (m.evictIfNeeded evictedAt).objects = m.objects := evictIfNeeded_objects
  unfold ShellSessionManager.spawn
  dsimp only
  split
  · exact
      { longer := objects ▸ le_rfl
        born := fun found => .inl (objects ▸ (List.getElem?_eq_some_iff.mp found).choose)
        entries := fun found => .inl (get?_of_evictIfNeeded found) }
  · rw [objects]
    refine ⟨?_, fun {i session} found => ?_, fun {id i} found => ?_⟩
    · show m.objects.length ≤ (m.objects ++ [_]).length
      rw [List.length_append]
      omega
    · replace found : (m.objects ++ [_])[i]? = some session := found
      rcases List.getElem?_eq_some_iff.mp found with ⟨inside, _⟩
      rw [List.length_append, List.length_singleton] at inside
      rcases Nat.lt_succ_iff_lt_or_eq.mp inside with old | rfl
      · exact .inl old
      · rw [List.getElem?_concat_length] at found
        cases found
        exact .inr ⟨rfl, ⟨rfl, rfl⟩, namedAt, rfl⟩
    · replace found : ((m.evictIfNeeded evictedAt).sessions.set _ _).get? id = some i := found
      rw [OrderedMap.get?_set] at found
      split at found
      · rename_i own
        cases found
        exact .inr ⟨_, List.getElem?_concat_length, own.symm⟩
      · exact .inl (get?_of_evictIfNeeded found)

theorem step_grows {action : ShellAction} : Grows m (m.step action) := by
  cases action with
  | spawn command cwd pid evictedAt namedAt startedAt => exact spawn_grows
  | data i decoded => exact append_placed.grows
  | exit i => exact Placed.grows ⟨List.length_modify .., rfl⟩
  | close i tail exitCode now =>
    have flushed : Placed m (if tail = [] then m else m.append i tail) := by
      split
      · exact .refl m
      · exact append_placed
    exact (flushed.trans ending_placed).grows
  | error i message now => exact (append_placed.trans ending_placed).grows
  | stdinError i code message =>
    refine Placed.grows ?_
    show Placed m (if code = "EPIPE" then m else _)
    split
    · exact .refl m
    · exact append_placed
  | escalate i => exact escalate_placed.grows
  | writeStdin id chars => exact writeStdin_placed.grows
  | kill id now => exact kill_placed.grows
  | markTimedOut id now => exact markTimedOut_placed.grows
  | killAll now => exact killAll_placed.grows

end Places

/-! ### Where a run leads -/

/-- After `actions` from a fresh manager: the ids are numbered, and each session has its whole output. -/
structure Reached (options : ShellSessionManagerOptions) (actions : List ShellAction) (m : ShellSessionManager) : Prop where
  run : m = ShellSessionManager.run { options } actions
  limit : m.options = options
  numbered : ∀ {i session}, m.objects[i]? = some session → ∃ now, session.snapshot.id = sessionId (i + 1) now
  entries : ∀ {id i}, m.sessions.get? id = some i → ∃ session, m.objects[i]? = some session ∧ session.snapshot.id = id
  printed : ∀ {i session}, m.objects[i]? = some session →
    Printed options.maxOutputChars (outputOf i { options := options } actions) session
  unborn : ∀ {i}, m.objects.length ≤ i → outputOf i { options := options } actions = []

namespace Reached
variable {options : ShellSessionManagerOptions} {actions : List ShellAction} {m : ShellSessionManager}

theorem place_eq (reached : Reached options actions m) {i j : Nat} {a b : InternalSession} (first : m.objects[i]? = some a)
    (second : m.objects[j]? = some b) (same : a.snapshot.id = b.snapshot.id) : i = j := by
  obtain ⟨now, named⟩ := reached.numbered first
  obtain ⟨now', named'⟩ := reached.numbered second
  exact Nat.succ.inj (sessionId_inj (named.symm.trans (same.trans named')))

theorem start : Reached options [] { options } where
  run := rfl
  limit := rfl
  numbered found := by cases found
  entries found := by cases found
  printed found := by cases found
  unborn _ := rfl

theorem step (reached : Reached options actions m) (action : ShellAction) : Reached options (actions ++ [action]) (m.step action) := by
  have adds : Adds (fun i => action.printed i) m (m.step action) := step_adds
  have grows : Grows m (m.step action) := step_grows
  have absent : ∀ {i}, m.objects.length ≤ i → outputOf i { options } (actions ++ [action]) = [] := by
    intro i outside
    rw [outputOf_concat, ← reached.run, if_neg (by omega), reached.unborn outside]
    rfl
  -- A session of the next state is an old one, which has printed, or the one that `spawn` made.
  have older : ∀ {i session}, i < m.objects.length → (m.step action).objects[i]? = some session →
      ∃ before, m.objects[i]? = some before ∧ Prints options.maxOutputChars (action.printed i) before session := by
    intro i session inside found
    obtain ⟨after, found', prints⟩ := adds.sessions (List.getElem?_eq_getElem inside)
    cases found.symm.trans found'
    exact ⟨_, List.getElem?_eq_getElem inside, reached.limit ▸ prints⟩
  refine ⟨?_, adds.options.trans reached.limit, ?_, ?_, ?_, fun outside => absent (grows.longer.trans outside)⟩
  · rw [reached.run, ShellSessionManager.run, ShellSessionManager.run, List.foldl_concat]
  · intro i session found
    rcases grows.born found with inside | ⟨_, _, named⟩
    · obtain ⟨before, there, prints⟩ := older inside found
      exact prints.id ▸ reached.numbered there
    · exact named
  · intro id i found
    rcases grows.entries found with before | fresh
    · obtain ⟨session, there, named⟩ := reached.entries before
      obtain ⟨session', there', prints⟩ := adds.sessions there
      exact ⟨session', there', prints.id.trans named⟩
    · exact fresh
  · intro i session found
    rcases grows.born found with inside | ⟨last, ⟨buffer, total⟩, _⟩
    · obtain ⟨before, there, prints⟩ := older inside found
      rw [outputOf_concat, ← reached.run, if_pos inside]
      exact prints.output (reached.printed there)
    · rw [absent last.ge]
      exact ⟨buffer.trans List.drop_nil.symm, total⟩

end Reached

/-! ### Polls -/

inductive ShellEvent where
  | act (action : ShellAction)
  | poll

/-- One answer of `getOutput`, what it was asked, and the whole output of the session at that moment. -/
structure Poll where
  since : Nat
  slice : ShellOutputSlice
  printed : Text

/-- A caller that polls the session `id`, first from 0 and then from the offset of the last answer. -/
structure Watch where
  manager : ShellSessionManager
  actions : List ShellAction := []
  since : Nat := 0
  polls : List Poll := []

def Watch.step (options : ShellSessionManagerOptions) (id : String) (w : Watch) : ShellEvent → Watch
  | .act action => { w with manager := w.manager.step action, actions := w.actions ++ [action] }
  | .poll =>
    match w.manager.getOutput id (some w.since), w.manager.sessions.get? id with
    | some slice, some i => { w with since := slice.offset, polls := w.polls ++ [⟨w.since, slice, outputOf i { options } w.actions⟩] }
    | _, _ => w

def watch (options : ShellSessionManagerOptions) (id : String) (events : List ShellEvent) : Watch :=
  events.foldl (Watch.step options id) ⟨{ options }, [], 0, []⟩

namespace Poll

/-- Where in the output of the session the answer begins. -/
def start (poll : Poll) : Nat := poll.slice.offset - poll.slice.output.length

/-- The answer is the output from its start up to its offset: from the cursor, unless what follows the cursor has left the buffer. -/
structure Exact (maxOutputChars : Nat) (poll : Poll) : Prop where
  offset : poll.slice.offset = poll.printed.length
  segment : poll.slice.output = poll.printed.drop poll.start
  after : poll.since ≤ poll.start
  whole : poll.slice.truncated = false → poll.start = poll.since
  missing : poll.slice.truncated = true → poll.since < poll.start ∧ poll.start = poll.printed.length - maxOutputChars

structure Follows (earlier later : Poll) : Prop where
  since : later.since = earlier.slice.offset
  apart : earlier.slice.offset ≤ later.start
  grown : earlier.printed <+: later.printed
  ended : isTerminal earlier.slice.status = true → later.slice.status = earlier.slice.status

/-- Untruncated answers in a chain are the whole output from its first cursor. -/
theorem gathered {maxOutputChars : Nat} {polls : List Poll} {printed : Text} (exact : ∀ poll ∈ polls, poll.Exact maxOutputChars)
    (chain : polls.IsChain Follows) (first : ∀ poll ∈ polls.head?, poll.since = printed.length ∧ printed <+: poll.printed)
    (complete : ∀ poll ∈ polls, poll.slice.truncated = false) :
    printed ++ polls.flatMap (·.slice.output) = polls.getLast?.elim printed Poll.printed := by
  induction polls generalizing printed with
  | nil => exact List.append_nil printed
  | cons poll rest ih =>
    obtain ⟨since, ⟨more, grown⟩⟩ := first poll rfl
    have answer := exact poll List.mem_cons_self
    have joined : printed ++ poll.slice.output = poll.printed := by
      rw [answer.segment, answer.whole (complete poll List.mem_cons_self), since, ← grown, List.drop_left]
    have next : ∀ later ∈ rest.head?, later.since = poll.printed.length ∧ poll.printed <+: later.printed := by
      intro later member
      have follows := (List.isChain_cons.mp chain).1 later member
      exact ⟨follows.since.trans answer.offset, follows.grown⟩
    have step := ih (fun p member => exact p (List.mem_cons_of_mem _ member)) (List.isChain_cons.mp chain).2 next
      fun p member => complete p (List.mem_cons_of_mem _ member)
    rw [List.flatMap_cons, ← List.append_assoc, joined, step]
    rw [List.getLast?_cons]
    cases rest.getLast? with
    | none => rfl
    | some last => rfl

end Poll

theorem getOutput_exact {m : ShellSessionManager} {id : String} {i since maxOutputChars : Nat} {session : InternalSession}
    {output : Text} {slice : ShellOutputSlice} (place : m.sessions.get? id = some i) (found : m.objects[i]? = some session)
    (printed : Printed maxOutputChars output session) (seen : since ≤ output.length) (answer : m.getOutput id (some since) = some slice) :
    Poll.Exact maxOutputChars ⟨since, slice, output⟩ ∧ slice.status = session.snapshot.status := by
  unfold ShellSessionManager.getOutput at answer
  rw [place, Option.bind_some, found] at answer
  dsimp only [Option.getD_some] at answer
  rw [printed.total, printed.buffer, retained_length] at answer
  cases answer
  have text : (retained maxOutputChars output).drop (max since (output.length - maxOutputChars) - (output.length - maxOutputChars)) =
      output.drop (max since (output.length - maxOutputChars)) := by
    unfold retained
    rw [List.drop_drop]
    congr 1
    omega
  have start : Poll.start ⟨since, ⟨(retained maxOutputChars output).drop
      (max since (output.length - maxOutputChars) - (output.length - maxOutputChars)), output.length,
      decide (since < output.length - maxOutputChars), session.snapshot.status, session.snapshot.exitCode⟩, output⟩ =
      max since (output.length - maxOutputChars) := by
    unfold Poll.start
    dsimp only
    rw [text, List.length_drop]
    omega
  refine ⟨⟨rfl, ?_, ?_, ?_, ?_⟩, rfl⟩
  · rw [start]
    exact text
  · rw [start]
    exact Nat.le_max_left ..
  · intro whole
    rw [start]
    have near : ¬since < output.length - maxOutputChars := of_decide_eq_false whole
    exact Nat.max_eq_left (Nat.not_lt.mp near)
  · intro cut
    rw [start]
    have gone : since < output.length - maxOutputChars := of_decide_eq_true cut
    rw [Nat.max_eq_right gone.le]
    exact ⟨gone, rfl⟩

/-- The polls so far are exact and in a chain, and the last one is no further than its session. -/
structure Chained (options : ShellSessionManagerOptions) (id : String) (w : Watch) : Prop where
  reached : Reached options w.actions w.manager
  exact : ∀ poll ∈ w.polls, poll.Exact options.maxOutputChars
  chain : w.polls.IsChain Poll.Follows
  first : ∀ poll ∈ w.polls.head?, poll.since = 0
  cursor : w.since = w.polls.getLast?.elim 0 (·.slice.offset)
  current : ∀ poll ∈ w.polls.getLast?, ∃ i session, w.manager.objects[i]? = some session ∧ session.snapshot.id = id ∧
    poll.printed <+: outputOf i { options } w.actions ∧
      (isTerminal poll.slice.status = true → session.snapshot.status = poll.slice.status)

theorem act_chained {options : ShellSessionManagerOptions} {id : String} {w : Watch} (chained : Chained options id w)
    (action : ShellAction) : Chained options id (w.step options id (.act action)) where
  reached := chained.reached.step action
  exact := chained.exact
  chain := chained.chain
  first := chained.first
  cursor := chained.cursor
  current poll last := by
    obtain ⟨i, session, found, named, grown, ended⟩ := chained.current poll last
    have adds : Adds (fun i => action.printed i) w.manager (w.manager.step action) := step_adds
    obtain ⟨session', found', prints⟩ := adds.sessions found
    refine ⟨i, session', found', prints.id.trans named, ?_, fun terminal => ?_⟩
    · show poll.printed <+: outputOf i { options } (w.actions ++ [action])
      rw [outputOf_concat]
      exact grown.trans (List.prefix_append ..)
    · have same := ended terminal
      exact (prints.ended (same ▸ terminal)).trans same

theorem poll_chained {options : ShellSessionManagerOptions} {id : String} {w : Watch} (chained : Chained options id w) :
    Chained options id (w.step options id .poll) := by
  unfold Watch.step
  dsimp only
  split
  · rename_i slice i answer place
    obtain ⟨session, found, named⟩ := chained.reached.entries place
    have printed := chained.reached.printed found
    -- The last answer, if there is one, came from this session.
    have last : ∀ poll ∈ w.polls.getLast?, poll.printed <+: outputOf i { options } w.actions ∧
        (isTerminal poll.slice.status = true → session.snapshot.status = poll.slice.status) := by
      intro poll member
      obtain ⟨j, other, there, named', rest⟩ := chained.current poll member
      cases chained.reached.place_eq there found (named'.trans named.symm)
      cases there.symm.trans found
      exact rest
    have seen : w.since ≤ (outputOf i { options } w.actions).length := by
      rw [chained.cursor]
      cases ending : w.polls.getLast? with
      | none => exact Nat.zero_le _
      | some poll =>
        have before := chained.exact poll (List.mem_of_getLast? ending)
        exact before.offset.le.trans (last poll ending).1.length_le
    obtain ⟨exact, status⟩ := getOutput_exact place found printed seen answer
    refine ⟨chained.reached, ?_, ?_, ?_, ?_, ?_⟩
    · intro poll member
      rcases List.mem_append.mp member with old | new
      · exact chained.exact poll old
      · cases List.mem_singleton.mp new
        exact exact
    · refine List.isChain_append.mpr ⟨chained.chain, List.isChain_singleton _, ?_⟩
      intro poll member later own
      cases own
      have since : w.since = poll.slice.offset := by
        rw [chained.cursor, Option.mem_def.mp member]
        rfl
      refine ⟨since, since ▸ exact.after, (last poll member).1, fun terminal => ?_⟩
      exact status.trans ((last poll member).2 terminal)
    · intro poll member
      cases polls : w.polls with
      | nil =>
        rw [polls] at member
        cases member
        have cursor := chained.cursor
        rwa [polls] at cursor
      | cons head rest =>
        rw [polls] at member
        exact chained.first poll (by rw [polls]; exact member)
    · rw [List.getLast?_concat]
      rfl
    · intro poll member
      rw [List.getLast?_concat] at member
      cases member
      exact ⟨i, session, found, named, List.prefix_rfl, fun _ => status.symm⟩
  · exact chained

theorem watch_chained (options : ShellSessionManagerOptions) (id : String) (events : List ShellEvent) :
    Chained options id (watch options id events) := by
  have whole : ∀ w, Chained options id w → Chained options id (events.foldl (Watch.step options id) w) := by
    induction events with
    | nil => exact fun w chained => chained
    | cons event rest ih =>
      intro w chained
      refine ih _ ?_
      cases event with
      | act action => exact act_chained chained action
      | poll => exact poll_chained chained
  refine whole _ ⟨.start, ?_, .nil, ?_, rfl, ?_⟩
  · exact fun _ member => by cases member
  · exact fun _ member => by cases member
  · exact fun _ member => by cases member

/-- Each poll is exact and begins where the one before ended, untruncated polls add up to all that was printed, and no ended session
changes its status. -/
theorem polls_lose_nothing (options : ShellSessionManagerOptions) (id : String) (events : List ShellEvent) :
    ((∀ poll ∈ (watch options id events).polls, poll.Exact options.maxOutputChars) ∧
      (watch options id events).polls.IsChain Poll.Follows ∧
      (∀ poll ∈ (watch options id events).polls.head?, poll.since = 0) ∧
      ((∀ poll ∈ (watch options id events).polls, poll.slice.truncated = false) →
        (watch options id events).polls.flatMap (·.slice.output) = (watch options id events).polls.getLast?.elim [] Poll.printed)) ∧
    ∀ (m : ShellSessionManager) (actions : List ShellAction) (i : Nat) (status : ShellSessionStatus),
      m.status? i = some status → isTerminal status = true → (m.run actions).status? i = some status := by
  have chained := watch_chained options id events
  refine ⟨⟨chained.exact, chained.chain, chained.first, fun complete => ?_⟩, fun m actions i status => run_ended actions⟩
  have first : ∀ poll ∈ (watch options id events).polls.head?, poll.since = ([] : Text).length ∧ [] <+: poll.printed :=
    fun poll member => ⟨chained.first poll member, List.nil_prefix⟩
  exact Poll.gathered chained.exact chained.chain first complete

end Bike4Mind.Shell
