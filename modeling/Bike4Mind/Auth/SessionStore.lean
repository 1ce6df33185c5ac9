import Bike4Mind.Auth.RotateSession

/-!
The session collection under any number of `rotateSession` calls, a clock that only moves forward, and
the other writers of a row: sign-outs and the removal of expired rows. The log is history.
-/

namespace Bike4Mind.Auth
open Concurrency

/-- A row as a conditional write found it and left it. -/
structure Update where
  before : AuthSession
  after : AuthSession
  deriving DecidableEq

structure Entry (ι : Type) where
  worker : ι
  op : SessionOp
  update : Option Update

/-- `secrets` are all that have ever been generated, those of the stored sessions among them. -/
structure SessionStore (ι : Type) where
  sessions : String → Option AuthSession
  clock : Time
  secrets : List String
  /-- Newest first. -/
  log : List (Entry ι) := []

/-- How the outside world settles one await. A rejected write may have been applied all the same. -/
inductive SessionChoice where
  | resolves
  | generates (secret : RefreshSecret)
  | finds (user : Option User)
  | ends (connections : List String)
  | rejects (error : JsError) (applied : Bool)

def SessionChoice.rejected : SessionChoice → Bool
  | .rejects .. => true
  | _ => false

/-- A date or a random secret is not awaited, and cannot be refused. -/
def SessionOp.synchronous : SessionOp → Bool
  | .now | .generateRefreshSecret => true
  | _ => false

/-- The operation neither writes a row nor brings a secret into being. -/
def SessionOp.steady : SessionOp → Bool
  | .generateRefreshSecret | .findOneAndUpdate .. => false
  | _ => true

namespace SessionStore
variable {ι : Type}

def value (s : SessionStore ι) : (op : SessionOp) → SessionChoice → Option op.Value
  | .now, .resolves => some s.clock
  | .generateRefreshSecret, .generates secret => if secret.value ∈ s.secrets then none else some secret
  | .findBySid sid, .resolves => some (s.sessions sid)
  | .findOneAndUpdate sid write, .resolves => some (write.update (s.sessions sid))
  | .findUser _, .finds user => some user
  | .endConnections _, .ends connections => some connections
  | .removePushTokens _, .resolves | .audit _, .resolves | .audited, .resolves => some ()
  | _, _ => none

def record (s : SessionStore ι) (i : ι) (op : SessionOp) (update : Option Update) : SessionStore ι :=
  { s with log := ⟨i, op, update⟩ :: s.log }

def applyUpdate (s : SessionStore ι) (i : ι) (sid : String) (write : SessionWrite) : SessionStore ι :=
  match (s.sessions sid).filter fun row => write.filter row with
  | some before => { s with sessions := Function.update s.sessions sid (some (write.set before)) }.record i
      (.findOneAndUpdate sid write) (some ⟨before, write.set before⟩)
  | none => s.record i (.findOneAndUpdate sid write) none

def apply (s : SessionStore ι) (i : ι) : SessionOp → SessionStore ι
  | .findOneAndUpdate sid write => s.applyUpdate i sid write
  | op => s.record i op none

def generated (s : SessionStore ι) : SessionChoice → SessionStore ι
  | .generates secret => { s with secrets := secret.value :: s.secrets }
  | _ => s

def exec (i : ι) (s : SessionStore ι) (op : SessionOp) : SessionChoice → Option (Except JsError op.Value × SessionStore ι)
  | .rejects error applied =>
    if op.synchronous then none
    else some (.error error, if applied then s.apply i op else s.record i op none)
  | x => (s.value op x).map fun v => (.ok v, (s.apply i op).generated x)

inductive Move where
  | tick (elapsed : Nat)
  | revoke (sid : String)
  | expire (sid : String)

def revoked (s : SessionStore ι) (sid : String) : SessionStore ι :=
  { s with sessions := Function.update s.sessions sid (SessionWrite.update (s.sessions sid) (.revokeBySid s.clock) |>.or (s.sessions sid)) }

def move (s : SessionStore ι) : Move → Option (SessionStore ι)
  | .tick elapsed => some { s with clock := s.clock + elapsed }
  | .revoke sid => some (s.revoked sid)
  | .expire sid =>
    if (s.sessions sid).any (·.expiresAt ≤ s.clock) then some { s with sessions := Function.update s.sessions sid none }
    else none

/-! ### What one operation does -/

/-- The whole effect of an operation on the collection. -/
inductive Performs (i : ι) (s : SessionStore ι) : (op : SessionOp) → Except JsError op.Value → SessionStore ι → Prop
  | steady {op reply} (steady : op.steady = true) : Performs i s op reply (s.record i op none)
  | generated {secret : RefreshSecret} (fresh : secret.value ∉ s.secrets) :
      Performs i s .generateRefreshSecret (.ok secret)
        { s.record i .generateRefreshSecret none with secrets := secret.value :: s.secrets }
  | missed {sid write} (unmatched : write.update (s.sessions sid) = none) :
      Performs i s (.findOneAndUpdate sid write) (.ok none) (s.record i (.findOneAndUpdate sid write) none)
  | failed {sid write e} : Performs i s (.findOneAndUpdate sid write) (.error e) (s.record i (.findOneAndUpdate sid write) none)
  | landed {sid write before reply} (stored : s.sessions sid = some before) (matched : write.filter before = true)
      (replied : reply = .ok (some (write.set before)) ∨ ∃ e, reply = .error e) :
      Performs i s (.findOneAndUpdate sid write) reply
        ({ s with sessions := Function.update s.sessions sid (some (write.set before)) }.record i
          (.findOneAndUpdate sid write) (some ⟨before, write.set before⟩))

variable {i : ι} {s s' : SessionStore ι} {op : SessionOp} {x : SessionChoice}

theorem applyUpdate_performs {sid : String} {write : SessionWrite} {reply : Except JsError (Option AuthSession)}
    (replied : reply = .ok (write.update (s.sessions sid)) ∨ ∃ e, reply = .error e) :
    Performs i s (.findOneAndUpdate sid write) reply (s.applyUpdate i sid write) := by
  unfold applyUpdate
  cases found : (s.sessions sid).filter fun row => write.filter row with
  | none =>
    have missed : write.update (s.sessions sid) = none := by rw [SessionWrite.update, found, Option.map_none]
    rw [missed] at replied
    rcases replied with rfl | ⟨e, rfl⟩
    · exact .missed missed
    · exact .failed
  | some before =>
    have updated : write.update (s.sessions sid) = some (write.set before) := by
      rw [SessionWrite.update, found, Option.map_some]
    rw [updated] at replied
    obtain ⟨stored, matched⟩ := Option.filter_eq_some_iff.mp found
    exact .landed stored matched replied

theorem exec_performs {reply : Except JsError op.Value} (executed : exec i s op x = some (reply, s')) :
    Performs i s op reply s' := by
  cases op with
  | generateRefreshSecret =>
    cases x with
    | generates secret =>
      simp only [exec, value, Option.map_eq_some_iff] at executed
      obtain ⟨v, drawn, same⟩ := executed
      split at drawn
      · cases drawn
      · rename_i fresh
        cases drawn
        cases same
        exact .generated fresh
    | resolves | finds | ends => cases executed
    | rejects error applied => simp [exec, SessionOp.synchronous] at executed
  | findOneAndUpdate sid write =>
    cases x with
    | resolves =>
      simp only [exec, value, Option.map_some, Option.some.injEq, Prod.mk.injEq] at executed
      obtain ⟨rfl, rfl⟩ := executed
      exact applyUpdate_performs (Or.inl rfl)
    | rejects error landed =>
      simp only [exec, SessionOp.synchronous, Bool.false_eq_true, ↓reduceIte, Option.some.injEq, Prod.mk.injEq] at executed
      obtain ⟨rfl, rfl⟩ := executed
      cases landed with
      | true => exact applyUpdate_performs (Or.inr ⟨error, rfl⟩)
      | false => exact .failed
    | generates | finds | ends => cases executed
  | now => cases x <;> first | (cases executed; exact .steady rfl) | cases executed
  | _ =>
    cases x with
    | rejects error landed =>
      simp only [exec, SessionOp.synchronous, Bool.false_eq_true, ↓reduceIte, Option.some.injEq, Prod.mk.injEq] at executed
      obtain ⟨rfl, rfl⟩ := executed
      cases landed <;> exact .steady rfl
    | _ => first | (cases executed; exact .steady rfl) | cases executed

/-- A promise rejects because the outside world rejected it. -/
theorem exec_error {e : JsError} (executed : exec i s op x = some (.error e, s')) :
    x.rejected = true ∧ op.synchronous = false := by
  cases x with
  | rejects error applied =>
    refine ⟨rfl, ?_⟩
    by_contra synchronous
    simp [exec, synchronous] at executed
  | _ => simp [exec] at executed

theorem exec_now {reply : Except JsError Time} (executed : exec i s .now x = some (reply, s')) : reply = .ok s.clock := by
  cases x <;> first | (cases executed; rfl) | cases executed

theorem exec_find {sid : String} {found : Option AuthSession}
    (executed : exec i s (.findBySid sid) x = some (.ok found, s')) : found = s.sessions sid := by
  cases x <;> first | (cases executed; rfl) | cases executed

theorem move_cases {move : Move} (moved : s.move move = some s') : s'.log = s.log ∧ s'.secrets = s.secrets ∧
    ∀ sid stored, s'.sessions sid = some stored → ∃ before, s.sessions sid = some before ∧
      (stored = before ∨ before.revokedAt = none ∧ stored = { before with revokedAt := some s.clock }) := by
  cases move with
  | tick elapsed =>
    cases moved
    exact ⟨rfl, rfl, fun sid stored here => ⟨stored, here, Or.inl rfl⟩⟩
  | revoke at' =>
    cases moved
    refine ⟨rfl, rfl, fun sid stored here => ?_⟩
    by_cases same : sid = at'
    · subst same
      simp only [revoked, Function.update_self] at here
      rcases Option.or_eq_some_iff.mp here with updated | ⟨_, kept⟩
      · obtain ⟨before, present, matched, rfl⟩ := SessionWrite.update_some updated
        exact ⟨before, present, Or.inr ⟨SessionWrite.filter_unrevoked matched, rfl⟩⟩
      · exact ⟨stored, kept, Or.inl rfl⟩
    · simp only [revoked, Function.update_of_ne same] at here
      exact ⟨stored, here, Or.inl rfl⟩
  | expire at' =>
    simp only [move] at moved
    split at moved
    · cases moved
      refine ⟨rfl, rfl, fun sid stored here => ?_⟩
      by_cases same : sid = at'
      · subst same
        simp only [Function.update_self] at here
        cases here
      · simp only [Function.update_of_ne same] at here
        exact ⟨stored, here, Or.inl rfl⟩
    · cases moved

end SessionStore

/-! ### Sessions at the start -/

/-- A stored session and the secret that was issued with it. -/
structure IssuedSession where
  sid : String
  secret : String
  row : AuthSession

def IssuedSession.stored (session : IssuedSession) (hash : SecretHash) : AuthSession :=
  { session.row with refreshTokenHash := hash.digest session.secret }

def issuedRow (hash : SecretHash) (issued : List IssuedSession) (sid : String) : Option AuthSession :=
  (issued.find? (·.sid == sid)).map (·.stored hash)

section Runs
variable {ι : Type}

abbrev SessionConfig (ι : Type) := Config ι (SessionStore ι) SessionOp SessionOp.Value JsError RotateSessionResult

def rotations (ι : Type) : Semantics ι (SessionStore ι) SessionOp SessionOp.Value JsError SessionChoice SessionStore.Move where
  exec := SessionStore.exec
  env := SessionStore.move

/-- Calls alone with the collection: no other writer, and nothing moves but the clock. -/
def rotationsAlone (ι : Type) : Semantics ι (SessionStore ι) SessionOp SessionOp.Value JsError SessionChoice Nat where
  exec := SessionStore.exec
  env s elapsed := s.move (.tick elapsed)

/-- Every call about to start on the stored sessions. -/
def presenting (adapters : RotateSessionAdapters) (issued : List IssuedSession) (clock : Time) (tokens : ι → String) :
    SessionConfig ι where
  store := { sessions := issuedRow adapters.hash issued, clock := clock, secrets := issued.map (·.secret) }
  threads i := rotateSession adapters (tokens i)

theorem issuedRow_known {hash : SecretHash} {issued : List IssuedSession} {sid : String} {row : AuthSession}
    (stored : issuedRow hash issued sid = some row) : ∃ secret ∈ issued.map (·.secret), row.refreshTokenHash = hash.digest secret := by
  obtain ⟨session, found, rfl⟩ := Option.map_eq_some_iff.mp stored
  exact ⟨session.secret, List.mem_map_of_mem (List.mem_of_find?_eq_some found), rfl⟩

end Runs
end Bike4Mind.Auth
