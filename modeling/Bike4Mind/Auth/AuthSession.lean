import Mathlib.Data.List.Nodup
import Bike4Mind.Runtime

/-!
One authenticated session is one row, and the row knows its refresh secret by its hash alone. A refresh
token is `<sid>.<secret>`.
-/

namespace Bike4Mind.Auth

def REFRESH_REPLAY_WINDOW_MS : Int := 2 * 60 * 1000
def DEFAULT_REFRESH_TTL_MS : Int := 30 * 24 * 60 * 60 * 1000
def ABSOLUTE_SESSION_MAX_MS : Int := 90 * 24 * 60 * 60 * 1000
def MAX_REFRESH_REPLAY_USES : Nat := 10
def MAX_SESSION_RECOVERIES : Nat := 3

/-- An empty string is falsy. -/
def truthy (s : Option String) : Bool := s.any (· ≠ "")

theorem truthy_some {s : String} (filled : s ≠ "") : truthy (some s) = true := by
  simp [truthy, filled]

/-! ### Refresh tokens -/

/-- A generated secret: random, URL-safe and without a dot. -/
structure RefreshSecret where
  value : String
  filled : value.toList ≠ []
  undotted : '.' ∉ value.toList

/-- `hashRefreshSecret`: the hex digest of SHA-256, taken to be free of collisions. -/
structure SecretHash where
  digest : String → String
  injective : Function.Injective digest
  filled : ∀ secret, digest secret ≠ ""

structure ParsedToken where
  sid : String
  secret : String
  deriving DecidableEq

def buildRefreshToken (sid secret : String) : String := sid ++ "." ++ secret

def parseRefreshToken (token : String) : Option ParsedToken :=
  match token.toList.splitOn '.' with
  | [sid, secret] => if sid ≠ [] ∧ secret ≠ [] then some ⟨String.ofList sid, String.ofList secret⟩ else none
  | _ => none

theorem parse_build {sid secret : String} (sidFilled : sid.toList ≠ []) (sidUndotted : '.' ∉ sid.toList)
    (filled : secret.toList ≠ []) (undotted : '.' ∉ secret.toList) :
    parseRefreshToken (buildRefreshToken sid secret) = some ⟨sid, secret⟩ := by
  have split : (buildRefreshToken sid secret).toList.splitOn '.' = [sid.toList, secret.toList] := by
    have joined : (buildRefreshToken sid secret).toList = ['.'].intercalate [sid.toList, secret.toList] := by
      simp [buildRefreshToken, List.intercalate]
    rw [joined]
    refine List.splitOn_intercalate '.' ?_ (by simp)
    intro segment member
    rcases List.mem_pair.mp member with rfl | rfl
    · exact sidUndotted
    · exact undotted
  simp [parseRefreshToken, split, sidFilled, filled]

theorem segment_undotted {cs segment : List Char} (member : segment ∈ cs.splitOn '.') : '.' ∉ segment := by
  induction cs generalizing segment with
  | nil =>
    rw [List.splitOn_nil, List.mem_singleton] at member
    simp [member]
  | cons c cs ih =>
    rw [List.splitOn_cons_eq_if_modifyHead] at member
    cases rest : cs.splitOn '.' with
    | nil => exact (List.splitOn_ne_nil _ _ rest).elim
    | cons first others =>
      rw [rest] at member ih
      by_cases dot : c = '.'
      · simp only [dot, beq_self_eq_true, ↓reduceIte, List.mem_cons (a := segment)] at member
        rcases member with rfl | member
        · simp
        · exact ih (List.mem_cons.mpr member)
      · simp only [beq_iff_eq, dot, ↓reduceIte, List.modifyHead_cons, List.mem_cons (a := segment)] at member
        rcases member with rfl | member
        · have undotted := ih List.mem_cons_self
          simp [undotted, Ne.symm dot]
        · exact ih (List.mem_cons_of_mem _ member)

theorem parsed_sid {token : String} {parsed : ParsedToken} (h : parseRefreshToken token = some parsed) :
    parsed.sid.toList ≠ [] ∧ '.' ∉ parsed.sid.toList := by
  unfold parseRefreshToken at h
  split at h
  · rename_i sid secret split
    split at h
    · rename_i filled
      cases h
      rw [String.toList_ofList]
      exact ⟨filled.1, segment_undotted (by rw [split]; exact List.mem_cons_self)⟩
    · cases h
  · cases h

/-! ### The row -/

structure AuthSessionDevice where
  userAgent : Option String := none
  ip : Option String := none
  deriving DecidableEq

/-- A stored session. The counters are absent on rows written before the fields existed. -/
structure AuthSession where
  userId : String
  refreshTokenHash : String
  previousRefreshTokenHash : Option String := none
  graceExpiresAt : Option Time := none
  replayUses : Option Nat := none
  recoveries : Option Nat := none
  device : AuthSessionDevice := {}
  createdVia : String
  impersonatedBy : Option String := none
  impersonationExpiresAt : Option Time := none
  lastUsedAt : Time
  createdAt : Time
  expiresAt : Time
  revokedAt : Option Time := none
  deriving DecidableEq

def isAuthSessionActive (session : AuthSession) (now : Time) : Bool :=
  session.revokedAt.isNone && session.expiresAt > now &&
    (!truthy session.impersonatedBy || session.impersonationExpiresAt.any (· > now))

/-- The type guard: the session when it is live. -/
def isLive (session : Option AuthSession) (now : Time) : Option AuthSession :=
  session.filter (isAuthSessionActive · now)

def isReplayable (session : AuthSession) (hash : String) (now : Time) : Bool :=
  truthy session.previousRefreshTokenHash && some hash == session.previousRefreshTokenHash &&
    session.graceExpiresAt.any (· > now)

/-- A true rotation pushes the expiry out, never past the cap and never back. -/
def slideExpiresAt (session : AuthSession) (now : Time) : Time :=
  if truthy session.impersonatedBy then session.expiresAt
  else max session.expiresAt (min (now + DEFAULT_REFRESH_TTL_MS) (session.createdAt + ABSOLUTE_SESSION_MAX_MS))

theorem expiresAt_le_slide (session : AuthSession) (now : Time) : session.expiresAt ≤ slideExpiresAt session now := by
  unfold slideExpiresAt
  split
  · exact le_refl _
  · exact le_max_left _ _

/-! ### Conditional writes -/

structure RotateHash where
  expectedCurrentHash : String
  nextHash : String
  replayExpiresAt : Time
  newExpiresAt : Time

structure RecoverRotateHash where
  expectedPreviousHash : String
  nextHash : String
  replayExpiresAt : Time
  maxRecoveries : Nat

/-- The updates of the repository, each with the date its method read before sending it. -/
inductive SessionWrite where
  | rotateHash (params : RotateHash) (now : Time)
  | recoverRotateHash (params : RecoverRotateHash) (now : Time)
  | registerReplayUse (maxUses : Nat) (now : Time)
  | revokeBySid (now : Time)

namespace SessionWrite

/-- `{ $not: { $gte: bound } }`, which an absent counter matches. -/
def below (counter : Option Nat) (bound : Nat) : Bool := !counter.any (bound ≤ ·)

def filter (session : AuthSession) : SessionWrite → Bool
  | rotateHash params now =>
    session.refreshTokenHash == params.expectedCurrentHash && session.revokedAt.isNone && session.expiresAt > now
  | recoverRotateHash params now =>
    session.previousRefreshTokenHash == some params.expectedPreviousHash && session.graceExpiresAt.any (· ≤ now) &&
      below session.recoveries params.maxRecoveries && session.revokedAt.isNone && session.expiresAt > now
  | registerReplayUse maxUses now =>
    session.revokedAt.isNone && session.expiresAt > now && below session.replayUses maxUses
  | revokeBySid _ => session.revokedAt.isNone

def set (session : AuthSession) : SessionWrite → AuthSession
  | rotateHash params now => { session with
      refreshTokenHash := params.nextHash
      previousRefreshTokenHash := some params.expectedCurrentHash
      graceExpiresAt := some params.replayExpiresAt
      lastUsedAt := now
      replayUses := some 0
      recoveries := some 0
      expiresAt := params.newExpiresAt }
  -- The previous hash stays, for siblings that still hold it.
  | recoverRotateHash params now => { session with
      refreshTokenHash := params.nextHash
      graceExpiresAt := some params.replayExpiresAt
      lastUsedAt := now
      replayUses := some 0
      recoveries := some (session.recoveries.getD 0 + 1) }
  | registerReplayUse _ now => { session with replayUses := some (session.replayUses.getD 0 + 1), lastUsedAt := now }
  | revokeBySid now => { session with revokedAt := some now }

/-- The hash of the generation that the write starts. -/
def nextHash? : SessionWrite → Option String
  | rotateHash params _ => some params.nextHash
  | recoverRotateHash params _ => some params.nextHash
  | _ => none

/-- `findOneAndUpdate` with `new: true`. -/
def update (session : Option AuthSession) (write : SessionWrite) : Option AuthSession :=
  (session.filter fun row => write.filter row).map fun row => write.set row

variable {session updated : AuthSession} {row : Option AuthSession} {write : SessionWrite}

theorem update_some (h : write.update row = some updated) :
    ∃ session, row = some session ∧ write.filter session = true ∧ updated = write.set session := by
  obtain ⟨session, found, rfl⟩ := Option.map_eq_some_iff.mp h
  obtain ⟨stored, matched⟩ := Option.filter_eq_some_iff.mp found
  exact ⟨session, stored, matched, rfl⟩

theorem filter_unrevoked (matched : write.filter session = true) : session.revokedAt = none := by
  cases write <;> simp_all [filter]

theorem set_refreshTokenHash : (write.set session).refreshTokenHash = write.nextHash?.getD session.refreshTokenHash := by
  cases write <;> rfl

theorem set_previous (same : write.nextHash? = none) :
    (write.set session).previousRefreshTokenHash = session.previousRefreshTokenHash := by
  cases write <;> first | rfl | cases same

end SessionWrite
end Bike4Mind.Auth
