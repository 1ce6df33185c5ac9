import Bike4Mind.Shell.ShellSessions
import Mathlib.Data.List.Basic

/-! What each step adds to the output of a session, and that a session ends once. -/

namespace Bike4Mind.Shell
open Collections Texts

/-! ### Ids name one session -/

theorem base36_alphanumeric (n : Nat) : '-' ∉ base36 n := by
  have letters : ∀ d < 36, digit36 d ≠ '-' := by decide
  unfold base36
  split
  · simp
  · intro inside
    obtain ⟨d, member, same⟩ := List.mem_map.mp (List.mem_reverse.mp inside)
    exact letters d (Nat.digits_lt_base (by omega) member) same

def undigit36 (c : Char) : Nat := "0123456789abcdefghijklmnopqrstuvwxyz".toList.idxOf c

theorem base36_value (n : Nat) : Nat.ofDigits 36 ((base36 n).reverse.map undigit36) = n := by
  have undone : ∀ d < 36, undigit36 (digit36 d) = d := by decide
  unfold base36
  split
  · rename_i zero
    rw [zero]
    decide
  · rw [List.reverse_reverse, List.map_map]
    have same : (Nat.digits 36 n).map (undigit36 ∘ digit36) = Nat.digits 36 n := by
      refine (List.map_congr_left fun d member => ?_).trans (List.map_id _)
      exact undone d (Nat.digits_lt_base (by omega) member)
    rw [same, Nat.ofDigits_digits]

theorem sessionId_inj {n n' : Nat} {now now' : Time} (same : sessionId n now = sessionId n' now') : n = n' := by
  have chars := congrArg String.toList same
  unfold sessionId at chars
  simp only [String.toList_ofList, List.append_assoc] at chars
  -- The sequence number ends at the first dash after "sh-".
  have read : ∀ (k : Nat) (rest : List Char), (base36 k ++ '-' :: rest).takeWhile (· ≠ '-') = base36 k := by
    intro k rest
    have plain : ∀ c ∈ base36 k, decide (c ≠ '-') = true := by
      intro c member
      refine decide_eq_true fun dash => ?_
      exact base36_alphanumeric k (dash ▸ member)
    rw [List.takeWhile_append_of_pos plain]
    simp
  have front : base36 n = base36 n' := by
    rw [← read n (intBase36 now), List.append_cancel_left chars, read]
  rw [← base36_value n, front, base36_value]

/-! ### What a step does to a session -/

/-- The text that an action adds to the output of session `i`. -/
def ShellAction.printed (i : Nat) : ShellAction → Text
  | .data j decoded => if j = i then decoded else []
  | .close j tail _ _ => if j = i then tail else []
  | .error j message _ => if j = i then ShellSessionManager.shellError message else []
  | .stdinError j code message => if j = i ∧ code ≠ "EPIPE" then ShellSessionManager.stdinError message else []
  | _ => []

/-- The last `maxOutputChars` characters. -/
def retained (maxOutputChars : Nat) (output : Text) : Text := output.drop (output.length - maxOutputChars)

theorem retained_length {maxOutputChars : Nat} {output : Text} :
    output.length - (retained maxOutputChars output).length = output.length - maxOutputChars := by
  unfold retained
  rw [List.length_drop]
  omega

theorem retained_append {maxOutputChars : Nat} {output chunk : Text} :
    retained maxOutputChars (retained maxOutputChars output ++ chunk) = retained maxOutputChars (output ++ chunk) := by
  unfold retained
  rw [← List.drop_append_of_le_length (Nat.sub_le output.length maxOutputChars), List.drop_drop]
  congr 1
  simp only [List.length_drop, List.length_append]
  omega

/-- The session counts all of `output` and retains its end. -/
structure Printed (maxOutputChars : Nat) (output : Text) (session : InternalSession) : Prop where
  buffer : session.buffer = retained maxOutputChars output
  total : session.snapshot.totalOutputChars = output.length

/-- The session has printed `text` more, and if it had ended, it has the same end. -/
structure Prints (maxOutputChars : Nat) (text : Text) (session session' : InternalSession) : Prop where
  id : session'.snapshot.id = session.snapshot.id
  output : ∀ {output}, Printed maxOutputChars output session → Printed maxOutputChars (output ++ text) session'
  ended : isTerminal session.snapshot.status = true → session'.snapshot.status = session.snapshot.status

namespace Prints
variable {maxOutputChars : Nat} {a b c : InternalSession}

theorem quiet (id : b.snapshot.id = a.snapshot.id) (buffer : b.buffer = a.buffer)
    (total : b.snapshot.totalOutputChars = a.snapshot.totalOutputChars)
    (ended : isTerminal a.snapshot.status = true → b.snapshot.status = a.snapshot.status) : Prints maxOutputChars [] a b where
  id := id
  output printed := by
    rw [List.append_nil]
    exact ⟨buffer.trans printed.buffer, total.trans printed.total⟩
  ended := ended

theorem refl (session : InternalSession) : Prints maxOutputChars [] session session := quiet rfl rfl rfl fun _ => rfl

theorem trans {text text' : Text} (first : Prints maxOutputChars text a b) (second : Prints maxOutputChars text' b c) :
    Prints maxOutputChars (text ++ text') a c where
  id := second.id.trans first.id
  output printed := by
    rw [← List.append_assoc]
    exact second.output (first.output printed)
  ended terminal := (second.ended (by rw [first.ended terminal]; exact terminal)).trans (first.ended terminal)

theorem append (chunk : Text) (session : InternalSession) :
    Prints maxOutputChars chunk session (session.append maxOutputChars chunk) where
  id := rfl
  output {output} printed := by
    have buffer : (session.append maxOutputChars chunk).buffer = retained maxOutputChars (session.buffer ++ chunk) := by
      unfold InternalSession.append retained
      dsimp only
      split
      · rfl
      · rw [Nat.sub_eq_zero_of_le (by omega), List.drop_zero]
    refine ⟨by rw [buffer, printed.buffer, retained_append], ?_⟩
    show session.snapshot.totalOutputChars + chunk.length = _
    rw [printed.total, List.length_append]
  ended _ := rfl

theorem transition {status : ShellSessionStatus} {exitCode : Option Int} {now : Time}
    (running : isTerminal a.snapshot.status = false) : Prints maxOutputChars [] a (a.transition status exitCode now) :=
  quiet rfl rfl rfl fun terminal => by rw [running] at terminal; cases terminal

end Prints

/-- Each session of `m` is there in `m'`, having printed its part of `printed`. -/
structure Adds (printed : Nat → Text) (m m' : ShellSessionManager) : Prop where
  options : m'.options = m.options
  sessions : ∀ {i session}, m.objects[i]? = some session →
    ∃ session', m'.objects[i]? = some session' ∧ Prints m.options.maxOutputChars (printed i) session session'

def silent : Nat → Text := fun _ => []

namespace Adds
variable {a b c : ShellSessionManager} {p : Nat → Text}

theorem of_objects (options : b.options = a.options) (objects : b.objects = a.objects) : Adds silent a b :=
  ⟨options, fun {_ session} found => ⟨session, objects ▸ found, .refl session⟩⟩

theorem refl (m : ShellSessionManager) : Adds silent m m := of_objects rfl rfl

theorem trans {q : Nat → Text} (first : Adds p a b) (second : Adds q b c) : Adds (fun i => p i ++ q i) a c := by
  refine ⟨second.options.trans first.options, fun found => ?_⟩
  obtain ⟨mid, found, kept⟩ := first.sessions found
  obtain ⟨last, found, kept'⟩ := second.sessions found
  exact ⟨last, found, kept.trans (first.options ▸ kept')⟩

theorem of_eq {q : Nat → Text} (adds : Adds p a b) (same : ∀ i, p i = q i) : Adds q a b := funext same ▸ adds

theorem then_silent (first : Adds p a b) (second : Adds silent b c) : Adds p a c :=
  (first.trans second).of_eq fun _ => List.append_nil _

theorem modify {i : Nat} {text : Text} {f : InternalSession → InternalSession}
    (prints : ∀ {session}, a.objects[i]? = some session → Prints a.options.maxOutputChars text session (f session)) :
    Adds (fun j => if i = j then text else []) a { a with objects := a.objects.modify i f } := by
  refine ⟨rfl, fun {j session} found => ?_⟩
  show ∃ session', (a.objects.modify i f)[j]? = some session' ∧ _
  rw [List.getElem?_modify, found]
  by_cases own : i = j
  · subst own
    exact ⟨f session, by simp, by rw [if_pos rfl]; exact prints found⟩
  · exact ⟨session, by simp [own], by rw [if_neg own]; exact .refl session⟩

end Adds

section Steps
variable {m : ShellSessionManager} {i : Nat} {now : Time} {id : String}

theorem append_adds {chunk : Text} : Adds (fun j => if i = j then chunk else []) m (m.append i chunk) :=
  Adds.modify fun _ => .append chunk _

theorem signalGroup_silent {signal : GroupSignal} : Adds silent m (m.signalGroup i signal) := by
  unfold ShellSessionManager.signalGroup
  split
  · exact .refl m
  · exact .of_objects rfl rfl

theorem transition_silent {status : ShellSessionStatus} {exitCode : Option Int} (running : (m.status? i).any isTerminal = false) :
    Adds silent m (m.transition i status exitCode now) := by
  have quiet : Adds (fun j => if i = j then [] else []) m
      { m with objects := m.objects.modify i (InternalSession.transition status exitCode now) } := by
    refine Adds.modify fun {session} found => .transition ?_
    unfold ShellSessionManager.status? at running
    rwa [found, Option.map_some, Option.any_some] at running
  exact (quiet.of_eq fun _ => ite_self _).then_silent (.of_objects rfl rfl)

theorem terminate_silent {status : ShellSessionStatus} (running : (m.status? i).any isTerminal = false) :
    Adds silent m (m.terminate i status now) :=
  (transition_silent running).then_silent signalGroup_silent

theorem running?_live (found : m.running? id = some i) : (m.status? i).any isTerminal = false := by
  obtain ⟨_, running⟩ := Option.filter_eq_some_iff.mp found
  unfold ShellSessionManager.isTerminalEntry at running
  simpa using running

theorem kill_silent : Adds silent m (m.kill id now).2 := by
  unfold ShellSessionManager.kill
  split
  · exact .refl m
  · exact terminate_silent (running?_live ‹_›)

theorem markTimedOut_silent : Adds silent m (m.markTimedOut id now).2 := by
  unfold ShellSessionManager.markTimedOut
  split
  · exact .refl m
  · exact terminate_silent (running?_live ‹_›)

theorem killAll_silent : Adds silent m (m.killAll now) := by
  unfold ShellSessionManager.killAll
  generalize m.sessions.values = places
  induction places generalizing m with
  | nil => exact .refl m
  | cons i rest ih =>
    rw [List.foldl_cons]
    refine Adds.then_silent ?_ ih
    split
    · exact .refl m
    · rename_i running
      exact terminate_silent (Bool.eq_false_iff.mpr running)

theorem writeStdin_silent {chars : Text} : Adds silent m (m.writeStdin id chars).2 := by
  unfold ShellSessionManager.writeStdin
  split
  · exact .refl m
  · dsimp only
    split
    · exact signalGroup_silent
    · exact .refl m

theorem escalate_silent : Adds silent m (m.escalate i) := by
  unfold ShellSessionManager.escalate
  split
  · exact signalGroup_silent
  · exact .refl m

theorem onExit_silent : Adds silent m (m.onExit i) := by
  have quiet : Adds (fun j => if i = j then [] else []) m (m.onExit i) :=
    Adds.modify fun _ => .quiet rfl rfl rfl fun _ => rfl
  exact quiet.of_eq fun _ => ite_self _

theorem evictIfNeeded_silent : Adds silent m (m.evictIfNeeded now) := by
  unfold ShellSessionManager.evictIfNeeded
  dsimp only
  split
  · exact .of_objects rfl rfl
  · exact .of_objects rfl rfl

theorem spawn_silent {command cwd : String} {pid : Option Nat} {evictedAt namedAt startedAt : Time} :
    Adds silent m (m.spawn command cwd pid evictedAt namedAt startedAt).2 := by
  unfold ShellSessionManager.spawn
  dsimp only
  split
  · exact evictIfNeeded_silent
  · refine evictIfNeeded_silent.then_silent ⟨rfl, fun {i session} found => ⟨session, ?_, .refl session⟩⟩
    exact (List.getElem?_append_left (List.getElem?_eq_some_iff.mp found).choose).trans found

theorem ending_silent {status : ShellSessionStatus} {exitCode : Option Int} :
    Adds silent m (if (m.status? i).any isTerminal then m else m.transition i status exitCode now) := by
  split
  · exact .refl m
  · rename_i running
    exact transition_silent (Bool.eq_false_iff.mpr running)

end Steps

theorem step_adds {m : ShellSessionManager} {action : ShellAction} : Adds (fun i => action.printed i) m (m.step action) := by
  cases action with
  | spawn command cwd pid evictedAt namedAt startedAt => exact spawn_silent
  | data i decoded => exact append_adds
  | exit i => exact onExit_silent
  | close i tail exitCode now =>
    have flushed : Adds (fun j => if i = j then tail else []) m (if tail = [] then m else m.append i tail) := by
      split
      · rename_i nothing
        subst nothing
        exact (Adds.refl m).of_eq fun _ => (ite_self _).symm
      · exact append_adds
    exact flushed.then_silent ending_silent
  | error i message now => exact append_adds.then_silent ending_silent
  | stdinError i code message =>
    show Adds (fun j => if i = j ∧ code ≠ "EPIPE" then _ else []) m (if code = "EPIPE" then m else _)
    split
    · rename_i swallowed
      exact (Adds.refl m).of_eq fun _ => (if_neg fun own => own.2 swallowed).symm
    · rename_i reported
      exact append_adds.of_eq fun _ => if_congr (and_iff_left reported).symm rfl rfl
  | escalate i => exact escalate_silent
  | writeStdin id chars => exact writeStdin_silent
  | kill id now => exact kill_silent
  | markTimedOut id now => exact markTimedOut_silent
  | killAll now => exact killAll_silent

theorem run_ended {m : ShellSessionManager} (actions : List ShellAction) {i : Nat} {status : ShellSessionStatus}
    (read : m.status? i = some status) (terminal : isTerminal status = true) : (m.run actions).status? i = some status := by
  induction actions generalizing m with
  | nil => exact read
  | cons action rest ih =>
    obtain ⟨session, found, rfl⟩ := Option.map_eq_some_iff.mp read
    have adds : Adds (fun i => action.printed i) m (m.step action) := step_adds
    obtain ⟨session', found', prints⟩ := adds.sessions found
    exact ih (Option.map_eq_some_iff.mpr ⟨session', found', prints.ended terminal⟩)

end Bike4Mind.Shell
