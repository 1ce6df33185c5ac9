import Bike4Mind.Auth.SessionStore

/-!
What one `rotateSession` call may do to a row, in which order: at most one secret at a time is held back
for the write that starts its generation, and a call that started one returns that secret or none.
-/

namespace Bike4Mind.Auth
open Concurrency

/-- Where a call stands: the row it first read, with a secret generated and not yet sent, or how its write
of a hash or of the replay allowance went. -/
inductive RotationPhase where
  | working (read : Option (String × AuthSession)) (secret : Option RefreshSecret)
  | advanced (sid : String) (secret : RefreshSecret)
  | unknown
  | claimed (sid : String)
  | uncounted

namespace RotationPhase

/-- A replay's allowance write is the last thing a coalesced call awaits. -/
def returned : RotationPhase → Bool
  | .claimed _ | .uncounted => true
  | _ => false

/-- The call may have started a generation. -/
def started : RotationPhase → Bool
  | .advanced .. | .unknown => true
  | _ => false

end RotationPhase

/-- The write starts the generation of `secret`, on the strength of the session the call first read. -/
def Starts (adapters : RotateSessionAdapters) (session : AuthSession) (secret : RefreshSecret) : SessionWrite → Prop
  | .rotateHash params _ => params.expectedCurrentHash = session.refreshTokenHash ∧
      params.nextHash = adapters.hash.digest secret.value ∧ ∃ at', params.newExpiresAt = slideExpiresAt session at'
  | .recoverRotateHash params _ => params.nextHash = adapters.hash.digest secret.value ∧
      params.maxRecoveries = adapters.maxRecoveries
  | _ => False

theorem Starts.nextHash {adapters : RotateSessionAdapters} {session : AuthSession} {secret : RefreshSecret} {write : SessionWrite}
    (starts : Starts adapters session secret write) : write.nextHash? = some (adapters.hash.digest secret.value) := by
  cases write with
  | rotateHash params now => exact congrArg some starts.2.1
  | recoverRotateHash params now => exact congrArg some starts.1
  | _ => exact starts.elim

inductive Rotates (adapters : RotateSessionAdapters) : Protocol RotationPhase SessionOp SessionOp.Value JsError
  | steady {p op reply} (steady : op.steady = true) (running : p.returned = false) : Rotates adapters p op reply p
  | found {sid session} :
      Rotates adapters (.working none none) (.findBySid sid) (.ok (some session)) (.working (some (sid, session)) none)
  | generated {read secret} :
      Rotates adapters (.working read none) .generateRefreshSecret (.ok secret) (.working read (some secret))
  -- A date or a secret that cannot be had: no run gets here.
  | impossible {p op e} (synchronous : op.synchronous = true) (unstarted : p.started = false) (running : p.returned = false) :
      Rotates adapters p op (.error e) .uncounted
  | revoked {p sid now reply} (running : p.returned = false) :
      Rotates adapters p (.findOneAndUpdate sid (.revokeBySid now)) reply p
  | claimed {read sid now row} :
      Rotates adapters (.working read none) (.findOneAndUpdate sid (.registerReplayUse adapters.maxReplayUses now))
        (.ok (some row)) (.claimed sid)
  | refused {read sid now} :
      Rotates adapters (.working read none) (.findOneAndUpdate sid (.registerReplayUse adapters.maxReplayUses now))
        (.ok none) (.working read none)
  | unreached {read sid now e} :
      Rotates adapters (.working read none) (.findOneAndUpdate sid (.registerReplayUse adapters.maxReplayUses now))
        (.error e) .uncounted
  | advanced {sid session secret write row} (starts : Starts adapters session secret write) :
      Rotates adapters (.working (some (sid, session)) (some secret)) (.findOneAndUpdate sid write) (.ok (some row))
        (.advanced sid secret)
  | missed {sid session secret write} (starts : Starts adapters session secret write) :
      Rotates adapters (.working (some (sid, session)) (some secret)) (.findOneAndUpdate sid write) (.ok none)
        (.working (some (sid, session)) none)
  | failed {sid session secret write e} (starts : Starts adapters session secret write) :
      Rotates adapters (.working (some (sid, session)) (some secret)) (.findOneAndUpdate sid write) (.error e) .unknown

/-- A call that returns a refresh token started the generation of its secret; a coalesced one started none. -/
def RotationEnded : Except JsError RotateSessionResult → RotationPhase → Prop
  | .ok (.rotated base refreshToken), q =>
    ∃ secret, q = .advanced base.sid secret ∧ parseRefreshToken refreshToken = some ⟨base.sid, secret.value⟩
  | .ok (.coalesced base), q => q = .claimed base.sid ∨ q = .uncounted
  | .error _, q => ∀ sid, q ≠ .claimed sid

section Programs
variable {α β : Type} {adapters : RotateSessionAdapters} {sid : String} {session : AuthSession} {p : RotationPhase}

theorem unclaimed {e : JsError} (running : p.returned = false) : RotationEnded (.error e) p := by
  rintro sid rfl
  cases running

theorem claimed_coalesced {program : SessionCalls RotateSessionResult}
    (follows : Follows (Rotates adapters) RotationEnded program (.claimed sid)) :
    ∃ base, program = .pure (.coalesced base) ∧ base.sid = sid := by
  cases program with
  | pure result =>
    cases result with
    | rotated base refreshToken =>
      obtain ⟨secret, phase, _⟩ := follows
      cases phase
    | coalesced base =>
      rcases follows with phase | phase <;> cases phase
      exact ⟨base, rfl, rfl⟩
  | throw e => exact (follows sid rfl).elim
  | await op next =>
    obtain ⟨q, step, _⟩ := follows (.error (.error ""))
    cases step with
    | steady _ running | revoked running | impossible _ _ running => cases running

theorem steady_then {post : Except JsError β → RotationPhase → Prop} {program : SessionCalls α} {f : α → SessionCalls β}
    (steady : Only (fun op => op.steady = true) program) (running : p.returned = false)
    (resolved : ∀ a, Follows (Rotates adapters) post (f a) p) (rejected : ∀ e, post (.error e) p) :
    Follows (Rotates adapters) post (program.bind f) p := by
  refine follows_bind (steady.follows (fun op reply steady => .steady steady running) ?_)
  rintro (e | a)
  · exact rejected e
  · exact resolved a

theorem call_steady {op : SessionOp} (steady : op.steady = true) : Only (fun op => op.steady = true) (call op) :=
  only_perform steady

theorem emit_steady {type : RotateSessionAuditType} {metadata : Option AuditMetadata} :
    Only (fun op => op.steady = true) (emit sid session type metadata) :=
  only_tryCatch (only_perform rfl) fun _ => trivial

theorem recorded_steady : Only (fun op => op.steady = true) recorded :=
  only_tryCatch (only_perform rfl) fun _ => trivial

theorem endRealtimeConnections_steady : Only (fun op => op.steady = true) (endRealtimeConnections sid) :=
  only_tryCatch (only_perform rfl) fun _ => trivial

theorem assertImpersonationLive_steady : Only (fun op => op.steady = true) (assertImpersonationLive session) := by
  unfold assertImpersonationLive
  split
  · refine only_bind (only_perform rfl) fun now => ?_
    split <;> trivial
  · trivial

theorem revokeAsTheft_follows {reason : ReuseRevokeReason} (running : p.returned = false) :
    Follows (Rotates adapters) RotationEnded (revokeAsTheft sid session reason) p := by
  unfold revokeAsTheft revokeBySid
  refine follows_bind (steady_then (call_steady rfl) running (fun now => ?_) (fun _ => unclaimed running))
  refine follows_then (fun revoked => ⟨p, .revoked running, ?_⟩) (fun _ => ⟨p, .revoked running, unclaimed running⟩)
  refine steady_then (call_steady rfl) running (fun _ => ?_) (fun _ => unclaimed running)
  refine steady_then endRealtimeConnections_steady running (fun _ => ?_) (fun _ => unclaimed running)
  refine steady_then (call_steady rfl) running (fun now => ?_) (fun _ => unclaimed running)
  refine steady_then emit_steady running (fun _ => ?_) (fun _ => unclaimed running)
  exact steady_then recorded_steady running (fun _ => unclaimed running) (fun _ => unclaimed running)

theorem coalesce_follows {base : RotateSessionResultBase} {read : Option (String × AuthSession)} (same : base.sid = sid) :
    Follows (Rotates adapters) RotationEnded (coalesce adapters sid session base) (.working read none) := by
  unfold coalesce claimReplay registerReplayUse
  refine follows_bind (follows_tryCatch (follows_bind (follows_then (fun now => ⟨_, .steady rfl rfl, ?_⟩)
    (fun _ => ⟨_, .impossible rfl rfl rfl, Or.inr rfl⟩))))
  intro reply
  rcases reply with e | (_ | row)
  · exact ⟨_, .unreached, Or.inr rfl⟩
  · refine ⟨_, .refused, ?_⟩
    refine steady_then emit_steady rfl (fun _ => ?_) (fun _ => unclaimed rfl)
    exact steady_then recorded_steady rfl (fun _ => unclaimed rfl) (fun _ => unclaimed rfl)
  · exact ⟨_, .claimed, Or.inl (by rw [same])⟩

theorem finish_coalesces {read : Option (String × AuthSession)} :
    Follows (Rotates adapters) RotationEnded (finish adapters sid session none) (.working read none) := by
  unfold finish
  refine follows_then (fun found => ⟨_, .steady rfl rfl, ?_⟩) (fun _ => ⟨_, .steady rfl rfl, unclaimed rfl⟩)
  cases found with
  | none => exact unclaimed rfl
  | some user => exact steady_then assertImpersonationLive_steady rfl (fun _ => coalesce_follows rfl) (fun _ => unclaimed rfl)

theorem finish_rotates {secret : RefreshSecret} (sidFilled : sid.toList ≠ []) (sidUndotted : '.' ∉ sid.toList) :
    Follows (Rotates adapters) (fun r q => RotationEnded r q ∧ q = .advanced sid secret)
      (finish adapters sid session (some secret)) (.advanced sid secret) := by
  unfold finish
  refine follows_then (fun found => ⟨_, .steady rfl rfl, ?_⟩) (fun _ => ⟨_, .steady rfl rfl, unclaimed rfl, rfl⟩)
  cases found with
  | none => exact ⟨unclaimed rfl, rfl⟩
  | some user =>
    refine steady_then assertImpersonationLive_steady rfl (fun _ => ?_) (fun _ => ⟨unclaimed rfl, rfl⟩)
    exact ⟨⟨secret, rfl, parse_build sidFilled sidUndotted secret.filled secret.undotted⟩, rfl⟩

variable {presentedHash : String}

theorem recoveryLost_follows {read : Option (String × AuthSession)} :
    Follows (Rotates adapters) RotationEnded (recoveryLost adapters sid session presentedHash) (.working read none) := by
  unfold recoveryLost
  refine steady_then (call_steady rfl) rfl (fun current => ?_) (fun _ => unclaimed rfl)
  refine steady_then (call_steady rfl) rfl (fun after => ?_) (fun _ => unclaimed rfl)
  cases live : isLive current after with
  | none => exact unclaimed rfl
  | some current =>
    dsimp only
    split
    · exact finish_coalesces
    · split
      · refine steady_then emit_steady rfl (fun _ => ?_) (fun _ => unclaimed rfl)
        exact steady_then recorded_steady rfl (fun _ => unclaimed rfl) (fun _ => unclaimed rfl)
      · exact revokeAsTheft_follows rfl

theorem recover_follows (sidFilled : sid.toList ≠ []) (sidUndotted : '.' ∉ sid.toList) :
    Follows (Rotates adapters) RotationEnded (recover adapters sid session presentedHash)
      (.working (some (sid, session)) none) := by
  unfold recover recoverRotateHash
  refine follows_then (fun nextSecret => ⟨_, .generated, ?_⟩) (fun _ => ⟨_, .impossible rfl rfl rfl, nofun⟩)
  refine steady_then (call_steady rfl) rfl (fun sent => ?_) (fun _ => unclaimed rfl)
  refine follows_bind (steady_then (call_steady rfl) rfl (fun now => ?_) (fun _ => unclaimed rfl))
  intro reply
  rcases reply with e | (_ | row)
  · exact ⟨_, .failed ⟨rfl, rfl⟩, unclaimed (e := e) rfl⟩
  · exact ⟨_, .missed ⟨rfl, rfl⟩, recoveryLost_follows⟩
  · refine ⟨_, .advanced ⟨rfl, rfl⟩, ?_⟩
    refine steady_then emit_steady rfl (fun _ => ?_) (fun _ => unclaimed rfl)
    refine follows_bind (follows_mono (finish_rotates sidFilled sidUndotted) ?_)
    rintro (e | result) q ⟨ended, rfl⟩
    · exact unclaimed rfl
    · exact steady_then recorded_steady rfl (fun _ => ended) (fun _ => unclaimed rfl)

theorem rotationLost_follows (sidFilled : sid.toList ≠ []) (sidUndotted : '.' ∉ sid.toList) :
    Follows (Rotates adapters) RotationEnded (rotationLost adapters sid session presentedHash)
      (.working (some (sid, session)) none) := by
  unfold rotationLost
  refine steady_then (call_steady rfl) rfl (fun current => ?_) (fun _ => unclaimed rfl)
  refine steady_then (call_steady rfl) rfl (fun after => ?_) (fun _ => unclaimed rfl)
  cases live : isLive current after with
  | none => exact unclaimed rfl
  | some current =>
    dsimp only
    split
    · exact finish_coalesces
    · split
      · exact recover_follows sidFilled sidUndotted
      · exact revokeAsTheft_follows rfl

theorem rotate_follows {now : Time} (current : presentedHash = session.refreshTokenHash) (sidFilled : sid.toList ≠ [])
    (sidUndotted : '.' ∉ sid.toList) :
    Follows (Rotates adapters) RotationEnded (rotate adapters sid session presentedHash now)
      (.working (some (sid, session)) none) := by
  unfold rotate rotateHash
  refine follows_then (fun nextSecret => ⟨_, .generated, ?_⟩) (fun _ => ⟨_, .impossible rfl rfl rfl, nofun⟩)
  refine follows_bind (steady_then (call_steady rfl) rfl (fun at' => ?_) (fun _ => unclaimed rfl))
  refine follows_perform fun reply => ?_
  rcases reply with e | (_ | row)
  · exact ⟨_, .failed ⟨current, rfl, now, rfl⟩, unclaimed (e := e) rfl⟩
  · exact ⟨_, .missed ⟨current, rfl, now, rfl⟩, rotationLost_follows sidFilled sidUndotted⟩
  · refine ⟨_, .advanced ⟨current, rfl, now, rfl⟩, ?_⟩
    exact follows_mono (finish_rotates sidFilled sidUndotted) fun r q ended => ended.1

theorem superseded_follows {now : Time} (sidFilled : sid.toList ≠ []) (sidUndotted : '.' ∉ sid.toList) :
    Follows (Rotates adapters) RotationEnded (superseded adapters sid session presentedHash now)
      (.working (some (sid, session)) none) := by
  unfold superseded
  split
  · exact revokeAsTheft_follows rfl
  · split
    · exact finish_coalesces
    · exact recover_follows sidFilled sidUndotted

theorem rotateSession_follows {token : String} :
    Follows (Rotates adapters) RotationEnded (rotateSession adapters token) (.working none none) := by
  unfold rotateSession
  cases parsed : parseRefreshToken token with
  | none => exact unclaimed rfl
  | some token =>
    obtain ⟨sidFilled, sidUndotted⟩ := parsed_sid parsed
    refine follows_then (fun session => ?_) (fun _ => ⟨_, .steady rfl rfl, unclaimed rfl⟩)
    cases session with
    | none => exact ⟨_, .steady rfl rfl, steady_then (call_steady rfl) rfl (fun _ => unclaimed rfl) (fun _ => unclaimed rfl)⟩
    | some session =>
      refine ⟨_, .found, steady_then (call_steady rfl) rfl (fun now => ?_) (fun _ => unclaimed rfl)⟩
      cases live : isLive (some session) now with
      | none => exact unclaimed rfl
      | some live' =>
        obtain ⟨same, _⟩ := Option.filter_eq_some_iff.mp live
        cases same
        dsimp only
        split
        · exact superseded_follows sidFilled sidUndotted
        · rename_i current
          exact rotate_follows (not_not.mp current) sidFilled sidUndotted

end Programs
end Bike4Mind.Auth
