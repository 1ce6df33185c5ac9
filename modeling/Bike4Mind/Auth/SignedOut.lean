import Bike4Mind.Auth.RefreshRotation

/-! A sign-out is final: whoever comes with a token of the session afterwards is turned away. -/

namespace Bike4Mind.Auth
open Concurrency

/-- `true` until the call has read a row of the session that is not revoked. -/
inductive ReadsRevoked (sid : String) (row : AuthSession) : Protocol Bool SessionOp SessionOp.Value JsError
  | other {op reply} : ReadsRevoked sid row false op reply false
  | clock {reply} : ReadsRevoked sid row true .now reply true
  | refused {e} : ReadsRevoked sid row true (.findBySid sid) (.error e) true
  | revoked {found} (frozen : ∀ stored ∈ found, stored = row) : ReadsRevoked sid row true (.findBySid sid) (.ok found) true
  | fresh {found} (changed : ¬ ∀ stored ∈ found, stored = row) : ReadsRevoked sid row true (.findBySid sid) (.ok found) false

def NothingIssued (result : Except JsError RotateSessionResult) (waits : Bool) : Prop := waits = true → result.toOption = none

section Calls
variable {adapters : RotateSessionAdapters} {sid token : String} {row : AuthSession} {parsed : ParsedToken}

theorem other_follows {program : SessionCalls RotateSessionResult} : Follows (ReadsRevoked sid row) NothingIssued program false := by
  induction program with
  | pure a => exact fun waits => by cases waits
  | throw e => exact fun _ => rfl
  | await op k ih => exact fun reply => ⟨false, .other, ih reply⟩

theorem isLive_revoked (revoked : row.revokedAt ≠ none) {found : Option AuthSession} (frozen : ∀ stored ∈ found, stored = row)
    (now : Time) : isLive found now = none := by
  cases found with
  | none => rfl
  | some stored =>
    obtain rfl := frozen stored rfl
    exact if_neg fun live => by simp [isAuthSessionActive, revoked] at live

theorem rotateSession_revoked (revoked : row.revokedAt ≠ none) (reads : parseRefreshToken token = some parsed) :
    Follows (ReadsRevoked parsed.sid row) NothingIssued (rotateSession adapters token) true := by
  unfold rotateSession
  rw [reads]
  refine follows_then (fun found => ?_) fun e => ⟨true, .refused, fun _ => rfl⟩
  by_cases frozen : ∀ stored ∈ found, stored = row
  · refine ⟨true, .revoked frozen, follows_then (fun now => ⟨true, .clock, ?_⟩) fun e => ⟨true, .clock, fun _ => rfl⟩⟩
    rw [isLive_revoked revoked frozen]
    exact fun _ => rfl
  · exact ⟨false, .fresh frozen, other_follows⟩

end Calls

section Runs
variable {ι : Type} [DecidableEq ι] {adapters : RotateSessionAdapters} {sid token secret : String} {row : AuthSession} {caller : ι}

/-- The session's row is the revoked one or gone, and the caller has not read another. -/
def TurnedAway (sid : String) (row : AuthSession) (caller : ι) (s : SessionStore ι) (ph : ι → Bool) : Prop :=
  Frozen sid row s ∧ ph caller = true

theorem turnedAway_preserves (revoked : row.revokedAt ≠ none) :
    Preserves (rotations ι) (ReadsRevoked sid row) (fun _ _ _ _ => True) (TurnedAway sid row caller) where
  env away moved := ⟨frozen_moved revoked away.1 moved, away.2⟩
  step {i s op x reply s' ph q} away _ executed permitted := by
    refine ⟨frozen_step revoked away.1 (SessionStore.exec_performs executed), ?_⟩
    by_cases same : caller = i
    · subst same
      have waits := away.2
      rw [Function.update_self]
      generalize ph caller = p at permitted waits
      cases permitted with
      | other => exact waits
      | clock | refused | revoked => rfl
      | fresh changed =>
        cases SessionStore.exec_find executed
        exact (changed away.1).elim
    · rw [Function.update_of_ne same]
      exact away.2

/-- A call that comes with a token of a signed-out session never returns, whatever the other calls and the environment do. -/
theorem signed_out_for_good {c c' : SessionConfig ι} {sched : List (SessionAction ι)} (revoked : row.revokedAt ≠ none)
    (stored : c.store.sessions sid = some row) (reads : parseRefreshToken token = some ⟨sid, secret⟩)
    (starts : c.threads caller = rotateSession adapters token) (ran : (rotations ι).run c sched = some c') :
    (c'.threads caller).result? = none ∧ ∀ left, c'.store.sessions sid = some left → left = row := by
  have starting (i : ι) : Follows (ReadsRevoked sid row) NothingIssued (c.threads i) (decide (i = caller)) := by
    by_cases same : i = caller
    · rw [same, starts, decide_eq_true rfl]
      exact rotateSession_revoked revoked reads
    · rw [decide_eq_false same]
      exact other_follows
  have away : TurnedAway sid row caller c.store fun i => decide (i = caller) :=
    ⟨fun left here => Option.some.inj (here.symm.trans stored), decide_eq_true rfl⟩
  obtain ⟨ph, ⟨frozen, waits⟩, follows⟩ := run_invariant (turnedAway_preserves revoked) ⟨_, away, starting⟩
    (Semantics.meets_all fun _ _ _ _ => trivial) ran
  refine ⟨?_, frozen⟩
  have ended := follows caller
  rw [waits] at ended
  cases here : c'.threads caller with
  | pure result =>
    rw [here] at ended
    cases ended rfl
  | throw | await => rfl

end Runs

open TwoTabs in
def lateTab : SessionConfig Unit :=
  ⟨{ sessions := fun _ => some { session.row with revokedAt := some 5 }, clock := 10, secrets := [] }, fun _ => rotateSession adapters "tab.old"⟩

theorem late_tab_turned_away : ∃ c', (rotations Unit).run lateTab [.resume () .resolves, .resume () .resolves] = some c' ∧
    (c'.threads ()).result? = none := by
  have runs : ((rotations Unit).run lateTab [.resume () .resolves, .resume () .resolves]).isSome = true := by decide
  obtain ⟨c', ran⟩ := Option.isSome_iff_exists.mp runs
  have reads : parseRefreshToken "tab.old" = some ⟨"tab", "old"⟩ := by decide
  exact ⟨c', ran, (signed_out_for_good (by decide) rfl reads rfl ran).1⟩

end Bike4Mind.Auth
