import Bike4Mind.Concurrency.Protocol
import Bike4Mind.Auth.AuthSession

/-!
`rotateSession` over its awaits. A `new Date()` and a generated secret are operations too, so that the
clock moves and other calls run between any two of them. A repository method reads its date before it
sends its update.
-/

namespace Bike4Mind.Auth
open Concurrency

structure User where
  id : String
  tokenVersion : Option Nat := none
  deriving DecidableEq

/-! ### Audit events -/

inductive RotateSessionAuditType where
  | sessionReuseRevoked
  | sessionRecovered
  | refreshReplayCapped
  | refreshRecoveryCapped
  deriving DecidableEq

inductive ReuseRevokeReason where
  | unrecognizedSecret
  | chainAdvancedDuringRotation
  | chainAdvancedDuringRecovery
  deriving DecidableEq

structure ReuseForensics where
  reason : ReuseRevokeReason
  msSinceLastUse : Int
  msSinceReplayWindowClosed : Option Int
  sessionAgeMs : Int
  recoveries : Nat
  createdVia : String
  issuedIp : Option String
  issuedUserAgent : Option String
  deriving DecidableEq

inductive AuditMetadata where
  | reuse (forensics : ReuseForensics)
  | terminal (terminal : Bool)
  deriving DecidableEq

structure RotateSessionAuditEvent where
  type : RotateSessionAuditType
  sid : String
  userId : String
  metadata : Option AuditMetadata := none
  deriving DecidableEq

def describeReuse (session : AuthSession) (reason : ReuseRevokeReason) (now : Time) : ReuseForensics where
  reason := reason
  msSinceLastUse := now - session.lastUsedAt
  msSinceReplayWindowClosed := session.graceExpiresAt.map (now - ·)
  sessionAgeMs := now - session.createdAt
  recoveries := session.recoveries.getD 0
  createdVia := session.createdVia
  issuedIp := session.device.ip
  issuedUserAgent := session.device.userAgent

/-! ### Awaited operations -/

/-- `audit` calls the sink and `audited` awaits the promise it returned. -/
inductive SessionOp where
  | now
  | generateRefreshSecret
  | findBySid (sid : String)
  | findOneAndUpdate (sid : String) (write : SessionWrite)
  | removePushTokens (sid : String)
  | findUser (userId : String)
  | endConnections (sid : String)
  | audit (event : RotateSessionAuditEvent)
  | audited

abbrev SessionOp.Value : SessionOp → Type
  | .now => Time
  | .generateRefreshSecret => RefreshSecret
  | .findBySid _ | .findOneAndUpdate .. => Option AuthSession
  | .findUser _ => Option User
  | .endConnections _ => List String
  | .removePushTokens _ | .audit _ | .audited => Unit

abbrev SessionCalls (α : Type) := Program SessionOp SessionOp.Value JsError α

abbrev call (op : SessionOp) : SessionCalls op.Value := .perform op

/-! ### The repository -/

def rotateHash (sid : String) (params : RotateHash) : SessionCalls (Option AuthSession) := do
  let now ← call .now
  call (.findOneAndUpdate sid (.rotateHash params now))

def recoverRotateHash (sid : String) (params : RecoverRotateHash) : SessionCalls (Option AuthSession) := do
  let now ← call .now
  call (.findOneAndUpdate sid (.recoverRotateHash params now))

def registerReplayUse (sid : String) (maxUses : Nat) : SessionCalls (Option AuthSession) := do
  let now ← call .now
  call (.findOneAndUpdate sid (.registerReplayUse maxUses now))

/-- Push tokens are pruned even when the row was already revoked. -/
def revokeBySid (sid : String) : SessionCalls (Option AuthSession) := do
  let now ← call .now
  let revoked ← call (.findOneAndUpdate sid (.revokeBySid now))
  call (.removePushTokens sid)
  return revoked

/-! ### Rotation -/

structure Impersonation where
  impersonatedBy : Option String
  impersonationExpiresAt : Option Time
  deriving DecidableEq

structure AccessTokenPayload where
  sid : String
  impersonation : Option Impersonation
  deriving DecidableEq

structure RotateSessionAdapters where
  hash : SecretHash
  signAccessToken : String → Nat → AccessTokenPayload → String
  replayWindowMs : Int := REFRESH_REPLAY_WINDOW_MS
  maxReplayUses : Nat := MAX_REFRESH_REPLAY_USES
  maxRecoveries : Nat := MAX_SESSION_RECOVERIES

structure RotateSessionResultBase where
  userId : String
  user : User
  sid : String
  accessToken : String
  impersonatedBy : Option String
  deriving DecidableEq

/-- `coalesced` carries no refresh token: the client keeps the one it has. -/
inductive RotateSessionResult where
  | rotated (base : RotateSessionResultBase) (refreshToken : String)
  | coalesced (base : RotateSessionResultBase)
  deriving DecidableEq

def invalid : JsError := .unauthorized "Invalid refresh token"

def tooManyAttempts : JsError := .tooManyRequests "Too many refresh attempts"

def endRealtimeConnections (sid : String) : SessionCalls (List String) :=
  tryCatch (call (.endConnections sid)) fun _ => return []

section Closures
variable (adapters : RotateSessionAdapters) (sid : String) (session : AuthSession)

def emit (type : RotateSessionAuditType) (metadata : Option AuditMetadata) : SessionCalls Unit :=
  tryCatch (call (.audit { type := type, sid := sid, userId := session.userId, metadata := metadata })) fun _ => return ()

def recorded : SessionCalls Unit :=
  tryCatch (call .audited) fun _ => return ()

def revokeAsTheft (reason : ReuseRevokeReason) : SessionCalls RotateSessionResult := do
  let _ ← revokeBySid sid
  let _ ← endRealtimeConnections sid
  let now ← call .now
  emit sid session .sessionReuseRevoked (some (.reuse (describeReuse session reason now)))
  recorded
  throw invalid

/-- An impersonation may lapse while its refresh is under way. -/
def assertImpersonationLive : SessionCalls Unit := do
  if truthy session.impersonatedBy then
    let now ← call .now
    if !isAuthSessionActive session now then
      throw invalid

def resultBase (user : User) : RotateSessionResultBase where
  userId := user.id
  user := user
  sid := sid
  accessToken := adapters.signAccessToken user.id (user.tokenVersion.getD 0) {
    sid := sid
    impersonation :=
      if truthy session.impersonatedBy then some ⟨session.impersonatedBy, session.impersonationExpiresAt⟩ else none }
  impersonatedBy := session.impersonatedBy

/-- One unit of the replay allowance; `none` when the write could not be reached. -/
def claimReplay : SessionCalls (Option (Option AuthSession)) :=
  tryCatch (do return some (← registerReplayUse sid adapters.maxReplayUses)) fun _ => return none

def coalesce (base : RotateSessionResultBase) : SessionCalls RotateSessionResult := do
  match ← claimReplay adapters sid with
  | some none =>
    emit sid session .refreshReplayCapped none
    recorded
    throw tooManyAttempts
  | _ => return .coalesced base

def finish (rotatedSecret : Option RefreshSecret) : SessionCalls RotateSessionResult := do
  let some user ← call (.findUser session.userId)
    | throw invalid
  assertImpersonationLive session
  match rotatedSecret with
  | none => coalesce adapters sid session (resultBase adapters sid session user)
  | some secret => return .rotated (resultBase adapters sid session user) (buildRefreshToken sid secret.value)

variable (presentedHash : String)

/-- The recovery's write did not apply: a sibling's did, its allowance is spent, or the chain moved on. -/
def recoveryLost : SessionCalls RotateSessionResult := do
  let current ← call (.findBySid sid)
  let after ← call .now
  let some current := isLive current after
    | throw invalid
  if isReplayable current presentedHash after then
    finish adapters sid session none
  else if some presentedHash = current.previousRefreshTokenHash then
    emit sid session .refreshRecoveryCapped (some (.terminal (adapters.maxRecoveries ≤ current.recoveries.getD 0)))
    recorded
    throw tooManyAttempts
  else
    revokeAsTheft sid session .chainAdvancedDuringRecovery

def recover : SessionCalls RotateSessionResult := do
  let nextSecret ← call .generateRefreshSecret
  let sent ← call .now
  let updated ← recoverRotateHash sid {
    expectedPreviousHash := presentedHash
    nextHash := adapters.hash.digest nextSecret.value
    replayExpiresAt := sent + adapters.replayWindowMs
    maxRecoveries := adapters.maxRecoveries }
  match updated with
  | some _ =>
    -- The sink runs while `finish` does.
    emit sid session .sessionRecovered none
    let result ← finish adapters sid session (some nextSecret)
    recorded
    return result
  | none => recoveryLost adapters sid session presentedHash

/-- The rotation's write did not apply: a sibling's did, or the session died. -/
def rotationLost : SessionCalls RotateSessionResult := do
  let current ← call (.findBySid sid)
  let after ← call .now
  let some current := isLive current after
    | throw invalid
  if isReplayable current presentedHash after then
    finish adapters sid session none
  else if some presentedHash = current.previousRefreshTokenHash then
    recover adapters sid session presentedHash
  else
    revokeAsTheft sid session .chainAdvancedDuringRotation

/-- The presented secret is the current one. -/
def rotate (now : Time) : SessionCalls RotateSessionResult := do
  let nextSecret ← call .generateRefreshSecret
  let updated ← rotateHash sid {
    expectedCurrentHash := presentedHash
    nextHash := adapters.hash.digest nextSecret.value
    replayExpiresAt := now + adapters.replayWindowMs
    newExpiresAt := slideExpiresAt session now }
  match updated with
  | some _ => finish adapters sid session (some nextSecret)
  | none => rotationLost adapters sid session presentedHash

/-- The presented secret is not the current one. -/
def superseded (now : Time) : SessionCalls RotateSessionResult := do
  if !truthy session.previousRefreshTokenHash || some presentedHash ≠ session.previousRefreshTokenHash then
    revokeAsTheft sid session .unrecognizedSecret
  else if isReplayable session presentedHash now then
    finish adapters sid session none
  else
    recover adapters sid session presentedHash

end Closures

def rotateSession (adapters : RotateSessionAdapters) (opaqueToken : String) : SessionCalls RotateSessionResult := do
  let some parsed := parseRefreshToken opaqueToken
    | throw invalid
  let presentedHash := adapters.hash.digest parsed.secret
  let session ← call (.findBySid parsed.sid)
  let now ← call .now
  let some session := isLive session now
    | throw invalid
  if presentedHash ≠ session.refreshTokenHash then
    superseded adapters parsed.sid session presentedHash now
  else
    rotate adapters parsed.sid session presentedHash now

end Bike4Mind.Auth
