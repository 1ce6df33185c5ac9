import Bike4Mind.Auth.ReplayBounds

/-!
A burst of calls that all present the current secret of a live session, with nobody else at work on the
row. One of them rotates it and the others coalesce behind the winner, until the replay allowance is spent.
-/

namespace Bike4Mind.Auth
open Concurrency

inductive BurstPhase where
  | asking
  | reading (row : AuthSession)
  | racing
  | armed (secret : RefreshSecret)
  | lost
  | late
  | won (secret : RefreshSecret)
  | claimed
  | capped
  -- A reply that no burst brings about.
  | astray

def BurstPhase.won? : BurstPhase → Option RefreshSecret
  | .won secret => some secret
  | _ => none

theorem won_some {p : BurstPhase} {secret : RefreshSecret} : p.won? = some secret ↔ p = .won secret := by
  cases p <;> simp [BurstPhase.won?]

def BurstPhase.awaitsDate : BurstPhase → Bool
  | .reading _ => true
  | _ => false

section Protocol
variable (adapters : RotateSessionAdapters) (session : IssuedSession)

/-- The row after the burst's rotation, whoever won it and however often it was replayed since. -/
structure Superseded (row : AuthSession) : Prop where
  previous : row.previousRefreshTokenHash = some (adapters.hash.digest session.secret)
  current : row.refreshTokenHash ≠ adapters.hash.digest session.secret
  userId : row.userId = session.row.userId
  impersonatedBy : row.impersonatedBy = session.row.impersonatedBy
  impersonationExpiresAt : row.impersonationExpiresAt = session.row.impersonationExpiresAt
  revokedAt : row.revokedAt = session.row.revokedAt
  expiresAt : session.row.expiresAt ≤ row.expiresAt

/-- The replies a call can get in a burst, given where it stands. -/
def Expected (p : BurstPhase) : (op : SessionOp) → Except JsError op.Value → Prop
  | .now, .ok at' => isAuthSessionActive session.row at' = true ∧ ∀ row, p = .reading row →
      Superseded adapters session row → isReplayable row (adapters.hash.digest session.secret) at' = true
  | .generateRefreshSecret, .ok secret => secret.value ≠ session.secret
  | .findBySid sid, .ok found => sid = session.sid → ∃ row, found = some row ∧
      (p ≠ .lost ∧ row = session.stored adapters.hash ∨ Superseded adapters session row)
  | .findUser _, .ok user => user ≠ none
  | .findOneAndUpdate .., .ok _ | .removePushTokens _, .ok _ | .endConnections _, _ | .audit _, _ | .audited, _ => True
  | _, .error _ => False

/-- The rotation that a call which read the current row sends. -/
structure Rotation (secret : RefreshSecret) (params : RotateHash) : Prop where
  expected : params.expectedCurrentHash = adapters.hash.digest session.secret
  next : params.nextHash = adapters.hash.digest secret.value
  expiry : session.row.expiresAt ≤ params.newExpiresAt

inductive Bursts : Protocol BurstPhase SessionOp SessionOp.Value JsError
  | strays {p op reply} (odd : ¬ Expected adapters session p op reply) : Bursts p op reply .astray
  | strayed {op reply} : Bursts .astray op reply .astray
  | steady {p op reply} (steady : op.steady = true) (dated : p.awaitsDate = false) : Bursts p op reply p
  | found {p row} (unread : p = .asking ∨ p = .lost) : Bursts p (.findBySid session.sid) (.ok (some row)) (.reading row)
  | current {at'} : Bursts (.reading (session.stored adapters.hash)) .now (.ok at') .racing
  | behind {row at'} (superseded : Superseded adapters session row) : Bursts (.reading row) .now (.ok at') .late
  | armed {secret} : Bursts .racing .generateRefreshSecret (.ok secret) (.armed secret)
  | won {secret params now row} (rotation : Rotation adapters session secret params) :
      Bursts (.armed secret) (.findOneAndUpdate session.sid (.rotateHash params now)) (.ok (some row)) (.won secret)
  | beaten {secret params now} (rotation : Rotation adapters session secret params)
      (dated : isAuthSessionActive session.row now = true) :
      Bursts (.armed secret) (.findOneAndUpdate session.sid (.rotateHash params now)) (.ok none) .lost
  | claimed {now row} :
      Bursts .late (.findOneAndUpdate session.sid (.registerReplayUse adapters.maxReplayUses now)) (.ok (some row)) .claimed
  | capped {now} :
      Bursts .late (.findOneAndUpdate session.sid (.registerReplayUse adapters.maxReplayUses now)) (.ok none) .capped

/-- How a call of the burst ends. -/
def BurstEnded (r : Except JsError RotateSessionResult) (q : BurstPhase) : Prop :=
  q = .astray ∨ match r with
    | .ok (.rotated _ refreshToken) => ∃ secret, q = .won secret ∧ refreshToken = buildRefreshToken session.sid secret.value
    | .ok (.coalesced _) => q = .claimed
    | .error e => q = .capped ∧ e = tooManyAttempts

end Protocol

section Programs
variable {adapters : RotateSessionAdapters} {session : IssuedSession} {α : Type} {p : BurstPhase}

theorem astray_follows {program : SessionCalls RotateSessionResult} :
    Follows (Bursts adapters session) (BurstEnded session) program .astray := by
  induction program with
  | pure a | throw e => exact Or.inl rfl
  | await op next ih => exact fun reply => ⟨.astray, .strayed, ih reply⟩

theorem await_follows (op : SessionOp) {next : Except JsError op.Value → SessionCalls RotateSessionResult}
    (expected : ∀ reply, Expected adapters session p op reply →
      ∃ q, Bursts adapters session p op reply q ∧ Follows (Bursts adapters session) (BurstEnded session) (next reply) q) :
    Follows (Bursts adapters session) (BurstEnded session) (.await op next) p := by
  intro reply
  by_cases odd : Expected adapters session p op reply
  · exact expected reply odd
  · exact ⟨.astray, .strays odd, astray_follows⟩

theorem resolve_follows {op : SessionOp} {f : op.Value → SessionCalls RotateSessionResult}
    (honest : ∀ e, ¬ Expected adapters session p op (.error e))
    (resolved : ∀ v, Expected adapters session p op (.ok v) →
      ∃ q, Bursts adapters session p op (.ok v) q ∧ Follows (Bursts adapters session) (BurstEnded session) (f v) q) :
    Follows (Bursts adapters session) (BurstEnded session) ((Program.perform op).bind f) p := by
  refine await_follows op fun reply expected => ?_
  cases reply with
  | error e => exact (honest e expected).elim
  | ok v => exact resolved v expected

/-- A session of the burst, as a call may have first read it. -/
structure Kin (session : IssuedSession) (row : AuthSession) : Prop where
  userId : row.userId = session.row.userId
  active : ∀ at', isAuthSessionActive session.row at' = true → isAuthSessionActive row at' = true

theorem Superseded.kin {row : AuthSession} (superseded : Superseded adapters session row) : Kin session row := by
  refine ⟨superseded.userId, fun at' active => ?_⟩
  simp only [isAuthSessionActive, superseded.impersonatedBy, superseded.impersonationExpiresAt, superseded.revokedAt,
    Bool.and_eq_true, decide_eq_true_eq] at active ⊢
  exact ⟨⟨active.1.1, lt_of_lt_of_le active.1.2 superseded.expiresAt⟩, active.2⟩

theorem kin_stored : Kin session (session.stored adapters.hash) := ⟨rfl, fun _ active => active⟩

theorem coalesce_bursts {row : AuthSession} {base : RotateSessionResultBase} :
    Follows (Bursts adapters session) (BurstEnded session) (coalesce adapters session.sid row base) .late := by
  refine await_follows .now fun reply expected => ?_
  rcases reply with e | now
  · exact expected.elim
  · refine ⟨_, .steady rfl rfl, ?_⟩
    refine await_follows (.findOneAndUpdate session.sid (.registerReplayUse adapters.maxReplayUses now)) fun reply expected => ?_
    rcases reply with e | (_ | claimed)
    · exact expected.elim
    · refine ⟨_, .capped, fun told => ⟨_, .steady rfl rfl, ?_⟩⟩
      cases told <;> exact fun heard => ⟨_, .steady rfl rfl, by cases heard <;> exact Or.inr ⟨rfl, rfl⟩⟩
    · exact ⟨_, .claimed, Or.inr rfl⟩

theorem finish_bursts {row : AuthSession} {secret : Option RefreshSecret} (kin : Kin session row) (dated : p.awaitsDate = false)
    (rest : ∀ user, Follows (Bursts adapters session) (BurstEnded session) (match secret with
      | none => coalesce adapters session.sid row (resultBase adapters session.sid row user)
      | some secret => .pure (.rotated (resultBase adapters session.sid row user)
          (buildRefreshToken session.sid secret.value))) p) :
    Follows (Bursts adapters session) (BurstEnded session) (finish adapters session.sid row secret) p := by
  unfold finish
  refine resolve_follows (fun _ expected => expected) fun found expected => ⟨_, .steady rfl dated, ?_⟩
  cases found with
  | none => exact (expected rfl).elim
  | some user =>
    show Follows _ _ ((assertImpersonationLive row).bind _) p
    unfold assertImpersonationLive
    split
    · refine await_follows .now fun reply expected => ⟨_, .steady rfl dated, ?_⟩
      rcases reply with e | now
      · exact expected.elim
      · show Follows _ _ (Program.bind (ite _ _ _) _) p
        rw [kin.active now expected.1]
        cases secret <;> exact rest user
    · cases secret <;> exact rest user

theorem finish_coalesces_bursts {row : AuthSession} (kin : Kin session row) :
    Follows (Bursts adapters session) (BurstEnded session) (finish adapters session.sid row none) .late :=
  finish_bursts kin rfl fun _ => coalesce_bursts

theorem finish_rotates_bursts {row : AuthSession} {secret : RefreshSecret} (kin : Kin session row) :
    Follows (Bursts adapters session) (BurstEnded session) (finish adapters session.sid row (some secret)) (.won secret) :=
  finish_bursts kin rfl fun _ => Or.inr ⟨secret, rfl, rfl⟩

theorem rotationLost_bursts {row : AuthSession} (kin : Kin session row) :
    Follows (Bursts adapters session) (BurstEnded session)
      (rotationLost adapters session.sid row (adapters.hash.digest session.secret)) .lost := by
  unfold rotationLost
  refine resolve_follows (fun _ expected => expected) fun found expected => ?_
  obtain ⟨current, rfl, ⟨unlost, _⟩ | superseded⟩ := expected rfl
  · exact (unlost rfl).elim
  · refine ⟨_, .found (Or.inr rfl), resolve_follows (fun _ expected => expected) fun after expected => ⟨_, .behind superseded, ?_⟩⟩
    have live : isLive (some current) after = some current :=
      Option.filter_eq_some_iff.mpr ⟨rfl, superseded.kin.active after expected.1⟩
    have replayable := expected.2 current rfl superseded
    simp only [live, replayable, ↓reduceIte]
    exact finish_coalesces_bursts kin

theorem rotate_bursts {now : Time} :
    Follows (Bursts adapters session) (BurstEnded session)
      (rotate adapters session.sid (session.stored adapters.hash) (adapters.hash.digest session.secret) now) .racing := by
  unfold rotate
  refine resolve_follows (fun _ expected => expected) fun nextSecret expected => ⟨_, .armed, ?_⟩
  refine await_follows .now fun reply expected => ⟨_, .steady rfl rfl, ?_⟩
  rcases reply with e | at'
  · exact expected.elim
  · have rotation : Rotation adapters session nextSecret ⟨adapters.hash.digest session.secret,
        adapters.hash.digest nextSecret.value, now + adapters.replayWindowMs, slideExpiresAt (session.stored adapters.hash) now⟩ :=
      ⟨rfl, rfl, expiresAt_le_slide (session.stored adapters.hash) now⟩
    have dated := expected.1
    refine await_follows (.findOneAndUpdate session.sid (.rotateHash _ at')) fun reply expected => ?_
    rcases reply with e | (_ | row)
    · exact expected.elim
    · exact ⟨_, .beaten rotation dated, rotationLost_bursts kin_stored⟩
    · exact ⟨_, .won rotation, finish_rotates_bursts kin_stored⟩

theorem superseded_replayable {sid hash : String} {row : AuthSession} {now : Time} (replayable : isReplayable row hash now = true) :
    superseded adapters sid row hash now = finish adapters sid row none := by
  have held := replayable
  simp only [isReplayable, Bool.and_eq_true, beq_iff_eq] at held
  have filled : truthy (some hash) = true := by rw [held.1.2]; exact held.1.1
  simp [superseded, replayable, filled, held.1.2.symm]

theorem rotateSession_bursts {token : String} (presented : parseRefreshToken token = some ⟨session.sid, session.secret⟩) :
    Follows (Bursts adapters session) (BurstEnded session) (rotateSession adapters token) .asking := by
  unfold rotateSession
  simp only [presented]
  refine resolve_follows (fun _ expected => expected) fun found expected => ?_
  obtain ⟨row, rfl, ⟨_, rfl⟩ | overtaken⟩ := expected rfl
  · refine ⟨_, .found (Or.inl rfl), resolve_follows (fun _ expected => expected) fun now expected => ⟨_, .current, ?_⟩⟩
    have live : isLive (some (session.stored adapters.hash)) now = some (session.stored adapters.hash) :=
      Option.filter_eq_some_iff.mpr ⟨rfl, expected.1⟩
    rw [live]
    show Follows _ _ (ite _ _ _) _
    have same : ¬ adapters.hash.digest session.secret ≠ (session.stored adapters.hash).refreshTokenHash := fun differ => differ rfl
    rw [if_neg same]
    exact rotate_bursts
  · refine ⟨_, .found (Or.inl rfl), resolve_follows (fun _ expected => expected) fun now expected => ⟨_, .behind overtaken, ?_⟩⟩
    have live : isLive (some row) now = some row :=
      Option.filter_eq_some_iff.mpr ⟨rfl, overtaken.kin.active now expected.1⟩
    rw [live]
    show Follows _ _ (ite _ _ _) _
    rw [if_pos (Ne.symm overtaken.current), superseded_replayable (expected.2 row rfl overtaken)]
    exact finish_coalesces_bursts overtaken.kin

end Programs

/-! ### The row during a burst -/

section Invariant
variable {ι : Type} [DecidableEq ι] {adapters : RotateSessionAdapters} {session : IssuedSession}
variable {s s' : SessionStore ι} {ph : ι → BurstPhase} {i : ι} {p q : BurstPhase}

/-- When the replay window closes that the entry opened. -/
def Entry.closes? (sid : String) (e : Entry ι) : Option Time :=
  match e.landed? sid with
  | some (.rotateHash params _) => some params.replayExpiresAt
  | some (.recoverRotateHash params _) => some params.replayExpiresAt
  | _ => none

/-- The database answers, and the user is there. The audit sink and the end of connections may fail. -/
def SessionOp.answered : SessionOp → SessionChoice → Bool
  | .findUser _, .finds user => user.isSome
  | .endConnections _, _ | .audit _, _ | .audited, _ => true
  | _, x => !x.rejected

/-- The call's step is before the expiry, and inside the replay window that the burst's rotation opened. -/
def InWindow (adapters : RotateSessionAdapters) (session : IssuedSession) (_ : ι) (s : SessionStore ι) (op : SessionOp)
    (x : SessionChoice) : Prop :=
  isAuthSessionActive (session.stored adapters.hash) s.clock = true ∧
    (∀ e ∈ s.log, ∀ closes ∈ e.closes? session.sid, s.clock < closes) ∧ op.answered x = true

instance {ι : Type} {adapters : RotateSessionAdapters} {session : IssuedSession} {i : ι} {s : SessionStore ι} {op : SessionOp}
    {x : SessionChoice} : Decidable (InWindow adapters session i s op x) :=
  inferInstanceAs (Decidable (_ ∧ _ ∧ _))

/-- The call has seen no rotation. -/
def BurstPhase.Unaware (stored : AuthSession) : BurstPhase → Prop
  | .asking | .racing | .armed _ => True
  | .reading row => row = stored
  | _ => False

structure Unrotated (adapters : RotateSessionAdapters) (session : IssuedSession) (s : SessionStore ι)
    (ph : ι → BurstPhase) : Prop where
  stored : s.sessions session.sid = some (session.stored adapters.hash)
  unaware : ∀ i, (ph i).Unaware (session.stored adapters.hash)

/-- The row's replay window is one that the log shows. -/
def Windowed (adapters : RotateSessionAdapters) (session : IssuedSession) (s : SessionStore ι) (row : AuthSession) : Prop :=
  Superseded adapters session row ∧ ∃ e ∈ s.log, ∃ closes ∈ e.closes? session.sid, row.graceExpiresAt = some closes

structure Rotated (adapters : RotateSessionAdapters) (session : IssuedSession) (winner : ι) (secret : RefreshSecret)
    (row : AuthSession) (s : SessionStore ι) (ph : ι → BurstPhase) : Prop where
  stored : s.sessions session.sid = some row
  windowed : Windowed adapters session s row
  hash : row.refreshTokenHash = adapters.hash.digest secret.value
  won : ph winner = .won secret
  single : ∀ i secret', ph i = .won secret' → i = winner
  reading : ∀ i row', ph i = .reading row' → row' = session.stored adapters.hash ∨ Windowed adapters session s row'
  uses : ∃ n, row.replayUses = some n ∧ n ≤ adapters.maxReplayUses ∧
    ∀ calls : Finset ι, (∀ i ∈ calls, ph i = .claimed) → calls.card ≤ n

structure Burst (adapters : RotateSessionAdapters) (session : IssuedSession) (s : SessionStore ι) (ph : ι → BurstPhase) : Prop where
  course : ∀ i, ph i ≠ .astray
  issued : session.secret ∈ s.secrets
  fresh : ∀ i secret, ph i = .armed secret → secret.value ≠ session.secret
  unrevoked : ∀ e ∈ s.log, ∀ sid now, e.op ≠ .findOneAndUpdate sid (.revokeBySid now)
  state : Unrotated adapters session s ph ∨ ∃ winner secret row, Rotated adapters session winner secret row s ph

theorem stored_not_superseded : ¬ Superseded adapters session (session.stored adapters.hash) :=
  fun superseded => superseded.current rfl

omit [DecidableEq ι] in
theorem Windowed.later {row : AuthSession} (windowed : Windowed adapters session s row) (log : ∀ e ∈ s.log, e ∈ s'.log) :
    Windowed adapters session s' row := by
  obtain ⟨superseded, e, member, closes⟩ := windowed
  exact ⟨superseded, e, log e member, closes⟩

omit [DecidableEq ι] in
theorem Windowed.replayable {row : AuthSession} (windowed : Windowed adapters session s row)
    (within : ∀ e ∈ s.log, ∀ closes ∈ e.closes? session.sid, s.clock < closes) :
    isReplayable row (adapters.hash.digest session.secret) s.clock = true := by
  obtain ⟨superseded, e, member, closes, opened, grace⟩ := windowed
  have open' := within e member closes opened
  simp [isReplayable, superseded.previous, truthy_some (adapters.hash.filled session.secret), grace, open']

omit [DecidableEq ι] in
theorem burst_expected {op : SessionOp} {x : SessionChoice} {reply : Except JsError op.Value} (burst : Burst adapters session s ph)
    (meets : InWindow adapters session i s op x) (executed : SessionStore.exec i s op x = some (reply, s')) :
    Expected adapters session (ph i) op reply := by
  obtain ⟨active, within, answered⟩ := meets
  have honest : ∀ e, reply = .error e → x.rejected = true := by
    rintro e rfl
    exact (SessionStore.exec_error executed).1
  cases op with
  | now =>
    rw [SessionStore.exec_now executed]
    refine ⟨active, fun row phase superseded => ?_⟩
    rcases burst.state with unrotated | ⟨winner, secret, stored, rotated⟩
    · have unaware := unrotated.unaware i
      rw [phase] at unaware
      exact (stored_not_superseded (unaware ▸ superseded)).elim
    · rcases rotated.reading i row phase with same | windowed
      · exact (stored_not_superseded (same ▸ superseded)).elim
      · exact windowed.replayable within
  | generateRefreshSecret =>
    cases reply with
    | error e => cases (SessionStore.exec_error executed).2
    | ok secret =>
      cases SessionStore.exec_performs executed with
      | steady steady => cases steady
      | generated fresh => exact fun same => fresh (same ▸ burst.issued)
  | findBySid sid =>
    cases reply with
    | error e => simp [SessionOp.answered, honest e rfl] at answered
    | ok found =>
      rintro rfl
      rw [SessionStore.exec_find executed]
      rcases burst.state with unrotated | ⟨winner, secret, row, rotated⟩
      · refine ⟨_, unrotated.stored, Or.inl ⟨fun lost => ?_, rfl⟩⟩
        have unaware := unrotated.unaware i
        rw [lost] at unaware
        exact unaware
      · exact ⟨row, rotated.stored, Or.inr rotated.windowed.1⟩
  | findUser userId =>
    cases reply with
    | error e =>
      have rejected := honest e rfl
      cases x with
      | rejects => cases answered
      | _ => cases rejected
    | ok user =>
      cases x with
      | finds user =>
        cases executed
        rintro rfl
        cases answered
      | _ => cases executed
  | findOneAndUpdate | removePushTokens =>
    cases reply with
    | error e => simp [SessionOp.answered, honest e rfl] at answered
    | ok => trivial
  | endConnections | audit | audited => cases reply <;> trivial

section Steps
variable {op : SessionOp} {e : Entry ι}

theorem rotated_still {winner : ι} {secret : RefreshSecret} {row : AuthSession}
    (rotated : Rotated adapters session winner secret row s ph) (sessions : s'.sessions = s.sessions)
    (log : ∀ e ∈ s.log, e ∈ s'.log) (won : q.won? = (ph i).won?)
    (reading : ∀ row', q = .reading row' → row' = session.stored adapters.hash ∨ Windowed adapters session s row')
    (claimed : q = .claimed → ph i = .claimed) : Rotated adapters session winner secret row s' (Function.update ph i q) where
  stored := sessions ▸ rotated.stored
  windowed := rotated.windowed.later log
  hash := rotated.hash
  won := by
    by_cases own : winner = i
    · subst own
      rw [Function.update_self]
      exact won_some.mp (won.trans (won_some.mpr rotated.won))
    · rw [Function.update_of_ne own]
      exact rotated.won
  single k secret' phase := by
    rcases updated phase with ⟨rfl, mine⟩ | ⟨_, phase⟩
    · exact rotated.single k secret' (won_some.mp (won.symm.trans (won_some.mpr mine)))
    · exact rotated.single k secret' phase
  reading k row' phase := by
    rcases updated phase with ⟨rfl, mine⟩ | ⟨_, phase⟩
    · exact (reading row' mine).imp_right fun windowed => windowed.later log
    · exact (rotated.reading k row' phase).imp_right fun windowed => windowed.later log
  uses := by
    obtain ⟨n, uses, within, counted⟩ := rotated.uses
    refine ⟨n, uses, within, fun calls all => counted calls fun k member => ?_⟩
    have phase := all k member
    rcases updated phase with ⟨rfl, mine⟩ | ⟨_, phase⟩
    · exact claimed mine
    · exact phase

theorem unrotated_still (unrotated : Unrotated adapters session s ph) (sessions : s'.sessions = s.sessions)
    (unaware : q.Unaware (session.stored adapters.hash)) : Unrotated adapters session s' (Function.update ph i q) where
  stored := sessions ▸ unrotated.stored
  unaware := by
    rw [Function.forall_update_iff ph fun _ phase => phase.Unaware (session.stored adapters.hash)]
    exact ⟨unaware, fun k _ => unrotated.unaware k⟩

theorem burst_next (burst : Burst adapters session s ph) (course : q ≠ .astray)
    (log : s'.log = e :: s.log) (unrevoked : ∀ sid now, e.op ≠ .findOneAndUpdate sid (.revokeBySid now))
    (secrets : ∀ secret ∈ s.secrets, secret ∈ s'.secrets)
    (fresh : ∀ secret, q = .armed secret → secret.value ≠ session.secret)
    (state : Unrotated adapters session s' (Function.update ph i q) ∨
      ∃ winner secret row, Rotated adapters session winner secret row s' (Function.update ph i q)) :
    Burst adapters session s' (Function.update ph i q) where
  course k phase := by
    rcases updated phase with ⟨rfl, mine⟩ | ⟨_, phase⟩
    · exact course mine
    · exact burst.course k phase
  issued := secrets _ burst.issued
  fresh k secret phase := by
    rcases updated phase with ⟨rfl, mine⟩ | ⟨_, phase⟩
    · exact fresh secret mine
    · exact burst.fresh k secret phase
  unrevoked := by
    rw [log]
    exact List.forall_mem_cons.mpr ⟨unrevoked, burst.unrevoked⟩
  state := state

theorem rotated_won {params : RotateHash} {now : Time} {before : AuthSession} {secret : RefreshSecret}
    (burst : Burst adapters session s ph) (phase : ph i = .armed secret) (rotation : Rotation adapters session secret params)
    (stored : s.sessions session.sid = some before) (matched : SessionWrite.filter before (.rotateHash params now) = true)
    (sessions : s'.sessions session.sid = some (SessionWrite.set before (.rotateHash params now)))
    (log : s'.log = ⟨i, .findOneAndUpdate session.sid (.rotateHash params now),
      some ⟨before, SessionWrite.set before (.rotateHash params now)⟩⟩ :: s.log) :
    Rotated adapters session i secret (SessionWrite.set before (.rotateHash params now)) s' (Function.update ph i (.won secret)) := by
  simp only [SessionWrite.filter, Bool.and_eq_true, beq_iff_eq] at matched
  have current := matched.1.1.trans rotation.expected
  rcases burst.state with unrotated | ⟨winner, secret', row, rotated⟩
  · cases stored.symm.trans unrotated.stored
    have fresh := burst.fresh i secret phase
    have unwon : ∀ k, (Function.update ph i (.won secret) k).Unaware (session.stored adapters.hash) ∨ k = i := by
      intro k
      by_cases own : k = i
      · exact Or.inr own
      · rw [Function.update_of_ne own]
        exact Or.inl (unrotated.unaware k)
    have superseded : Superseded adapters session
        (SessionWrite.set (session.stored adapters.hash) (.rotateHash params now)) := by
      refine ⟨congrArg some rotation.expected, fun same => ?_, rfl, rfl, rfl, rfl, rotation.expiry⟩
      exact fresh (adapters.hash.injective (rotation.next.symm.trans same))
    refine ⟨sessions, ⟨superseded, ?_⟩, rotation.next, by rw [Function.update_self], fun k secret' here => ?_,
      fun k row' here => ?_, 0, rfl, Nat.zero_le _, fun calls all => ?_⟩
    · rw [log]
      exact ⟨_, List.mem_cons_self, params.replayExpiresAt, by simp [Entry.closes?, Entry.landed?], rfl⟩
    · rcases unwon k with unaware | own
      · rw [here] at unaware
        exact unaware.elim
      · exact own
    · rcases unwon k with unaware | own
      · rw [here] at unaware
        exact Or.inl unaware
      · subst own
        rw [Function.update_self] at here
        cases here
    · rw [Nat.le_zero, Finset.card_eq_zero, Finset.eq_empty_iff_forall_notMem]
      intro k member
      have here := all k member
      rcases unwon k with unaware | own
      · rw [here] at unaware
        exact unaware
      · subst own
        rw [Function.update_self] at here
        cases here
  · cases stored.symm.trans rotated.stored
    exact (rotated.windowed.1.current current).elim

theorem rotated_claimed {winner : ι} {secret : RefreshSecret} {row : AuthSession} {now : Time}
    (rotated : Rotated adapters session winner secret row s ph) (phase : ph i = .late)
    (matched : SessionWrite.filter row (.registerReplayUse adapters.maxReplayUses now) = true)
    (sessions : s'.sessions session.sid = some (SessionWrite.set row (.registerReplayUse adapters.maxReplayUses now)))
    (log : ∀ e ∈ s.log, e ∈ s'.log) :
    Rotated adapters session winner secret (SessionWrite.set row (.registerReplayUse adapters.maxReplayUses now)) s'
      (Function.update ph i .claimed) := by
  obtain ⟨n, uses, within, counted⟩ := rotated.uses
  have room : n < adapters.maxReplayUses := by
    simp only [SessionWrite.filter, Bool.and_eq_true, SessionWrite.below, uses] at matched
    simpa using matched.2
  have superseded := rotated.windowed.1
  have windowed := rotated.windowed.later log
  refine ⟨sessions, ⟨⟨superseded.previous, superseded.current, superseded.userId, superseded.impersonatedBy,
    superseded.impersonationExpiresAt, superseded.revokedAt, superseded.expiresAt⟩, windowed.2⟩, rotated.hash, ?_,
    fun k secret' here => ?_, fun k row' here => ?_, n + 1, by simp [SessionWrite.set, uses], room, fun calls all => ?_⟩
  · rw [Function.update_of_ne]
    · exact rotated.won
    · rintro rfl
      cases phase.symm.trans rotated.won
  · rcases updated here with ⟨rfl, mine⟩ | ⟨_, here⟩
    · cases mine
    · exact rotated.single k secret' here
  · rcases updated here with ⟨rfl, mine⟩ | ⟨_, here⟩
    · cases mine
    · exact (rotated.reading k row' here).imp_right fun windowed => windowed.later log
  · have others := counted (calls.erase i) fun k member => by
      obtain ⟨own, member⟩ := Finset.mem_erase.mp member
      have here := all k member
      rwa [Function.update_of_ne own] at here
    have one := Finset.pred_card_le_card_erase (s := calls) (a := i)
    omega

theorem burst_step {x : SessionChoice} {reply : Except JsError op.Value} (burst : Burst adapters session s ph)
    (meets : InWindow adapters session i s op x) (executed : SessionStore.exec i s op x = some (reply, s'))
    (step : Bursts adapters session (ph i) op reply q) : Burst adapters session s' (Function.update ph i q) := by
  have expected := burst_expected burst meets executed
  have performs := SessionStore.exec_performs executed
  have kept : ∀ {op : SessionOp} {q : BurstPhase}, q.won? = (ph i).won? →
      (∀ row', q = .reading row' → row' = session.stored adapters.hash ∨ Windowed adapters session s row') →
      (q = .claimed → ph i = .claimed) →
      ((ph i).Unaware (session.stored adapters.hash) → q.Unaware (session.stored adapters.hash)) →
      Unrotated adapters session (s.record i op none) (Function.update ph i q) ∨
        ∃ winner secret row, Rotated adapters session winner secret row (s.record i op none) (Function.update ph i q) := by
    intro op q won reading claimed unaware
    rcases burst.state with unrotated | ⟨winner, secret, row, rotated⟩
    · exact Or.inl (unrotated_still unrotated rfl (unaware (unrotated.unaware i)))
    · exact Or.inr ⟨winner, secret, row, rotated_still rotated rfl (fun e member => List.mem_cons_of_mem _ member) won reading claimed⟩
  generalize phase : ph i = p at step expected kept
  cases step with
  | strays odd => exact (odd expected).elim
  | strayed => exact (burst.course i phase).elim
  | steady steady dated =>
    cases performs with
    | steady =>
      refine burst_next burst (phase ▸ burst.course i) rfl (fun sid now same => ?_) (fun _ member => member)
        (fun secret armed => burst.fresh i secret (phase.trans armed)) (kept rfl (fun row' reading => ?_) id id)
      · cases same
        cases steady
      · rw [reading] at dated
        cases dated
    | _ => cases steady
  | @found p row unread =>
    have found := SessionStore.exec_find executed
    cases performs
    refine burst_next burst (fun h => by cases h) rfl (fun _ _ h => by cases h) (fun _ member => member) (fun _ h => by cases h) ?_
    rcases burst.state with unrotated | ⟨winner, secret, row', rotated⟩
    · cases found.trans unrotated.stored
      exact Or.inl (unrotated_still unrotated rfl rfl)
    · cases found.trans rotated.stored
      refine Or.inr ⟨winner, secret, row, rotated_still rotated rfl (fun e member => List.mem_cons_of_mem _ member) ?_ ?_ (fun h => by cases h)⟩
      · rw [phase]
        rcases unread with rfl | rfl <;> rfl
      · rintro row' same
        cases same
        exact Or.inr rotated.windowed
  | current =>
    cases performs
    exact burst_next burst (fun h => by cases h) rfl (fun _ _ h => by cases h) (fun _ member => member) (fun _ h => by cases h)
      (kept rfl (fun _ h => by cases h) (fun h => by cases h) fun _ => trivial)
  | behind superseded =>
    cases performs
    refine burst_next burst (fun h => by cases h) rfl (fun _ _ h => by cases h) (fun _ member => member) (fun _ h => by cases h)
      (kept rfl (fun _ h => by cases h) (fun h => by cases h) fun unaware => ?_)
    exact (stored_not_superseded (unaware ▸ superseded)).elim
  | @armed secret =>
    cases performs with
    | steady steady => cases steady
    | generated fresh =>
      refine burst_next burst (fun h => by cases h) rfl (fun _ _ h => by cases h) (fun _ member => List.mem_cons_of_mem _ member) (fun secret' same => ?_) ?_
      · cases same
        exact expected
      · rcases burst.state with unrotated | ⟨winner, secret', row, rotated⟩
        · exact Or.inl (unrotated_still unrotated rfl trivial)
        · refine Or.inr ⟨winner, secret', row, rotated_still rotated rfl (fun e member => List.mem_cons_of_mem _ member) ?_ (fun _ h => by cases h) (fun h => by cases h)⟩
          rw [phase]
          rfl
  | @won secret params now _ rotation =>
    cases performs with
    | steady steady => cases steady
    | @landed _ _ before _ stored matched =>
      refine burst_next burst (fun h => by cases h) rfl (fun _ _ h => by cases h) (fun _ member => member) (fun _ h => by cases h) (Or.inr ⟨i, secret, SessionWrite.set before (.rotateHash params now), ?_⟩)
      exact rotated_won burst phase rotation stored matched (Function.update_self ..) rfl
  | @beaten secret params now rotation dated =>
    cases performs with
    | steady steady => cases steady
    | landed stored matched replied => rcases replied with same | ⟨e, same⟩ <;> cases same
    | missed unmatched =>
      refine burst_next burst (fun h => by cases h) rfl (fun _ _ h => by cases h) (fun _ member => member) (fun _ h => by cases h) ?_
      rcases burst.state with unrotated | ⟨winner, secret, row, rotated⟩
      · have matched : SessionWrite.filter (session.stored adapters.hash) (.rotateHash params now) = true := by
          simp only [isAuthSessionActive, Bool.and_eq_true] at dated
          simp only [SessionWrite.filter, IssuedSession.stored, rotation.expected, beq_self_eq_true, Bool.true_and, Bool.and_eq_true]
          exact dated.1
        simp [SessionWrite.update, unrotated.stored, matched] at unmatched
      · refine Or.inr ⟨winner, secret, row, rotated_still rotated rfl (fun e member => List.mem_cons_of_mem _ member) ?_ (fun _ h => by cases h) (fun h => by cases h)⟩
        rw [phase]
        rfl
  | claimed =>
    cases performs with
    | steady steady => cases steady
    | landed stored matched =>
      refine burst_next burst (fun h => by cases h) rfl (fun _ _ h => by cases h) (fun _ member => member) (fun _ h => by cases h) ?_
      rcases burst.state with unrotated | ⟨winner, secret, row, rotated⟩
      · have unaware := unrotated.unaware i
        rw [phase] at unaware
        exact unaware.elim
      · cases stored.symm.trans rotated.stored
        exact Or.inr ⟨winner, secret, _, rotated_claimed rotated phase matched
          (Function.update_self ..) fun e member => List.mem_cons_of_mem _ member⟩
  | capped =>
    cases performs with
    | steady steady => cases steady
    | missed unmatched =>
      exact burst_next burst (fun h => by cases h) rfl (fun _ _ h => by cases h) (fun _ member => member) (fun _ h => by cases h)
        (kept rfl (fun _ h => by cases h) (fun h => by cases h) fun unaware => unaware)
    | landed stored matched replied => rcases replied with same | ⟨e, same⟩ <;> cases same

end Steps

theorem burst_preserves : Preserves (rotationsAlone ι) (Bursts adapters session) (InWindow adapters session)
    (Burst adapters session) where
  env burst moved := by
    cases moved
    exact ⟨burst.course, burst.issued, burst.fresh, burst.unrevoked, burst.state.imp
      (fun unrotated => ⟨unrotated.stored, unrotated.unaware⟩)
      fun ⟨winner, secret, row, rotated⟩ => ⟨winner, secret, row, rotated.stored, rotated.windowed, rotated.hash, rotated.won,
        rotated.single, rotated.reading, rotated.uses⟩⟩
  step burst meets executed step := burst_step burst meets executed step

omit [DecidableEq ι] in
theorem burst_start {clock : Time} {tokens : ι → String} :
    Burst adapters session (presenting adapters [session] clock tokens).store (fun _ => .asking) where
  course _ phase := by cases phase
  issued := List.mem_singleton_self _
  fresh _ _ phase := by cases phase
  unrevoked := List.forall_mem_nil _
  state := Or.inl ⟨by simp [presenting, issuedRow], fun _ => trivial⟩

end Invariant

/-! ### Every burst -/

section Runs
variable {ι : Type} [DecidableEq ι]

/-- What a burst comes to, at any moment; `settled` is of the moment when every call has returned. -/
structure BenignBurst (adapters : RotateSessionAdapters) (session : IssuedSession) (c : SessionConfig ι) : Prop where
  unrevoked : ∀ e ∈ c.store.log, ∀ sid now, e.op ≠ .findOneAndUpdate sid (.revokeBySid now)
  single : ∀ i j base base' refreshToken refreshToken', c.threads i = .pure (.rotated base refreshToken) →
    c.threads j = .pure (.rotated base' refreshToken') → i = j
  coalesced : ∀ calls : Finset ι, (∀ i ∈ calls, ∃ base, c.threads i = .pure (.coalesced base)) →
    calls.card ≤ adapters.maxReplayUses
  refused : ∀ i e, c.threads i = .throw e → ∃ message, e = .tooManyRequests message
  settled : (∀ i, (c.threads i).settled = true) → ∃ i base secret row,
    c.threads i = .pure (.rotated base (buildRefreshToken session.sid secret)) ∧
    c.store.sessions session.sid = some row ∧ row.refreshTokenHash = adapters.hash.digest secret ∧
    row.previousRefreshTokenHash = some (adapters.hash.digest session.secret) ∧ row.revokedAt = none

/-- However the calls of a burst interleave, the session comes out of it alive and rotated once. -/
theorem burst_spares_session [Nonempty ι] {adapters : RotateSessionAdapters} {session : IssuedSession} {clock : Time}
    {tokens : ι → String} {sched : List (Action ι SessionChoice Nat)} {c : SessionConfig ι}
    (live : isAuthSessionActive (session.stored adapters.hash) clock = true)
    (presented : ∀ i, parseRefreshToken (tokens i) = some ⟨session.sid, session.secret⟩)
    (ran : (rotationsAlone ι).run (presenting adapters [session] clock tokens) sched = some c)
    (inside : (rotationsAlone ι).Meets (InWindow adapters session) (presenting adapters [session] clock tokens) sched) :
    BenignBurst adapters session c := by
  have start : Tracked (Bursts adapters session) (BurstEnded session) (Burst adapters session)
      (presenting adapters [session] clock tokens) :=
    ⟨fun _ => .asking, burst_start, fun i => rotateSession_bursts (presented i)⟩
  obtain ⟨ph, burst, follows⟩ := run_invariant burst_preserves start inside ran
  have ended : ∀ i r, (c.threads i = match r with | .ok a => .pure a | .error e => .throw e) → BurstEnded session r (ph i) := by
    intro i r thread
    have here := follows i
    rw [thread] at here
    cases r <;> exact here
  have rotated : ∀ i base refreshToken, c.threads i = .pure (.rotated base refreshToken) →
      ∃ secret, ph i = .won secret ∧ refreshToken = buildRefreshToken session.sid secret.value :=
    fun i base refreshToken thread => (ended i (.ok _) thread).resolve_left (burst.course i)
  have coalesced : ∀ i base, c.threads i = .pure (.coalesced base) → ph i = .claimed :=
    fun i base thread => (ended i (.ok _) thread).resolve_left (burst.course i)
  have refused : ∀ i e, c.threads i = .throw e → ph i = .capped ∧ e = tooManyAttempts :=
    fun i e thread => (ended i (.error e) thread).resolve_left (burst.course i)
  have unrevoked : session.row.revokedAt = none := by
    simp only [isAuthSessionActive, Bool.and_eq_true, Option.isNone_iff_eq_none] at live
    exact live.1.1
  refine ⟨burst.unrevoked, ?_, ?_, fun i e thread => ⟨_, (refused i e thread).2⟩, ?_⟩
  · intro i j base base' refreshToken refreshToken' first second
    obtain ⟨secret, won, _⟩ := rotated i base refreshToken first
    obtain ⟨secret', won', _⟩ := rotated j base' refreshToken' second
    rcases burst.state with unrotated | ⟨winner, _, _, state⟩
    · have unaware := unrotated.unaware i
      rw [won] at unaware
      exact unaware.elim
    · exact (state.single i secret won).trans (state.single j secret' won').symm
  · intro calls returned
    have claimed : ∀ i ∈ calls, ph i = .claimed := fun i member => by
      obtain ⟨base, thread⟩ := returned i member
      exact coalesced i base thread
    rcases burst.state with unrotated | ⟨winner, _, _, state⟩
    · have none : calls = ∅ := by
        rw [Finset.eq_empty_iff_forall_notMem]
        intro i member
        have unaware := unrotated.unaware i
        rw [claimed i member] at unaware
        exact unaware
      rw [none]
      exact Nat.zero_le _
    · obtain ⟨n, _, within, counted⟩ := state.uses
      exact (counted calls claimed).trans within
  · intro settled
    rcases burst.state with unrotated | ⟨winner, secret, row, state⟩
    · obtain ⟨i⟩ := ‹Nonempty ι›
      have unaware := unrotated.unaware i
      have done := settled i
      cases thread : c.threads i with
      | pure result =>
        cases result with
        | rotated base refreshToken =>
          obtain ⟨secret, won, _⟩ := rotated i base refreshToken thread
          rw [won] at unaware
          exact unaware.elim
        | coalesced base =>
          rw [coalesced i base thread] at unaware
          exact unaware.elim
      | throw e =>
        rw [(refused i e thread).1] at unaware
        exact unaware.elim
      | await op next =>
        rw [thread] at done
        cases done
    · have done := settled winner
      have superseded := state.windowed.1
      cases thread : c.threads winner with
      | pure result =>
        cases result with
        | rotated base refreshToken =>
          obtain ⟨secret', won, rfl⟩ := rotated winner base refreshToken thread
          cases state.won.symm.trans won
          exact ⟨winner, base, secret.value, row, thread, state.stored, state.hash, superseded.previous,
            superseded.revokedAt.trans unrevoked⟩
        | coalesced base => cases state.won.symm.trans (coalesced winner base thread)
      | throw e => cases state.won.symm.trans (refused winner e thread).1
      | await op next =>
        rw [thread] at done
        cases done

end Runs

namespace ThreeTabs
open TwoTabs

def other : RefreshSecret := ⟨"other", by decide, by decide⟩

/-- The first two tabs race for the row; the third comes later. -/
def burst : List (Action (Fin 3) SessionChoice Nat) :=
  [.resume 0 .resolves, .resume 1 .resolves, .resume 0 .resolves, .resume 1 .resolves,
    .resume 0 (.generates fresh), .resume 1 (.generates spare), .resume 0 .resolves, .resume 1 .resolves,
    .resume 0 .resolves, .resume 0 (.finds (some user)), .env 400, .resume 1 .resolves, .resume 1 .resolves,
    .resume 1 .resolves, .resume 1 (.finds (some user)), .resume 2 .resolves, .resume 2 .resolves,
    .resume 2 (.finds (some user)), .resume 1 .resolves, .resume 1 .resolves, .resume 2 .resolves, .resume 2 .resolves,
    .resume 2 (.rejects (.error "sink down") false), .resume 2 .resolves]

def outcome (c : SessionConfig (Fin 3)) : Option RotateSessionResult × Option RotateSessionResult × Bool :=
  ((c.threads 0).result?, (c.threads 1).result?, (c.threads 0).settled && (c.threads 1).settled && (c.threads 2).settled)

end ThreeTabs

open TwoTabs ThreeTabs in
/-- With an allowance of one replay, one tab rotates, one coalesces and one is told to try again. -/
theorem three_tabs_keep_the_session : ∃ c base secret row,
    (rotationsAlone (Fin 3)).run (presenting adapters [session] 10 (fun _ => "tab.old")) burst = some c ∧
    (∃ i, c.threads i = .pure (.rotated base (buildRefreshToken "tab" secret))) ∧
    c.store.sessions "tab" = some row ∧ row.refreshTokenHash = "#" ++ secret ∧ row.revokedAt = none ∧
    (∀ e ∈ c.store.log, ∀ sid now, e.op ≠ .findOneAndUpdate sid (.revokeBySid now)) ∧
    ∀ e, c.threads 2 = .throw e → ∃ message, e = .tooManyRequests message := by
  have ran : ((rotationsAlone (Fin 3)).run (presenting adapters [session] 10 (fun _ => "tab.old")) burst).map outcome =
      some (some (.rotated base "tab.new"), some (.coalesced base), true) := by decide
  obtain ⟨c, ran, outcome⟩ := Option.map_eq_some_iff.mp ran
  simp only [ThreeTabs.outcome, Prod.mk.injEq, Bool.and_eq_true] at outcome
  obtain ⟨_, _, ⟨first, second⟩, third⟩ := outcome
  have settled : ∀ i, (c.threads i).settled = true := by
    intro i
    match i with
    | 0 => exact first
    | 1 => exact second
    | 2 => exact third
  have benign := burst_spares_session (by decide) (fun _ => by decide) ran (by decide)
  obtain ⟨i, base, secret, row, thread, stored, current, _, unrevoked⟩ := benign.settled settled
  exact ⟨c, base, secret, row, ran, ⟨i, thread⟩, stored, current, unrevoked, benign.unrevoked, benign.refused 2⟩

end Bike4Mind.Auth
