import Mathlib.Data.Finset.Card
import Bike4Mind.Auth.RefreshRotation

/-!
What a superseded secret is good for. The counters of a row bound the replays of one generation and the
recoveries between two true rotations, and only a true rotation slides the expiry.
-/

namespace Bike4Mind.Auth
open Concurrency

/-! ### Counting landed writes -/

namespace SessionWrite

def rotates : SessionWrite → Bool
  | rotateHash .. => true
  | _ => false

def recovers : SessionWrite → Bool
  | recoverRotateHash .. => true
  | _ => false

def advances (write : SessionWrite) : Bool := write.nextHash?.isSome

def replays : SessionWrite → Bool
  | registerReplayUse .. => true
  | _ => false

theorem set_expiresAt {session : AuthSession} {write : SessionWrite} (slides : write.rotates = false) :
    (write.set session).expiresAt = session.expiresAt := by
  cases write <;> first | rfl | cases slides

theorem set_kept (session : AuthSession) (write : SessionWrite) :
    (write.set session).createdAt = session.createdAt ∧ (write.set session).impersonatedBy = session.impersonatedBy := by
  cases write <;> exact ⟨rfl, rfl⟩

end SessionWrite

section Counting
variable {ι : Type} {sid : String} {e : Entry ι} {log new old : List (Entry ι)} {resets counts : SessionWrite → Bool}

/-- The write that the entry landed on the row of `sid`. -/
def Entry.landed? (sid : String) (e : Entry ι) : Option SessionWrite :=
  match e.op, e.update with
  | .findOneAndUpdate at' write, some _ => if at' = sid then some write else none
  | _, _ => none

def Entry.landsOn (sid : String) (kind : SessionWrite → Bool) (e : Entry ι) : Bool := (e.landed? sid).any kind

theorem rotates_quiet (quiet : e.landsOn sid SessionWrite.advances = false) : e.landsOn sid SessionWrite.rotates = false := by
  unfold Entry.landsOn at quiet ⊢
  cases landed : e.landed? sid with
  | none => rfl
  | some write =>
    rw [landed] at quiet
    cases write <;> first | rfl | cases quiet

/-- The `counts` writes landed on a row since the last one that `resets` its counter; `none` before the first. -/
def since (resets counts : SessionWrite → Bool) (sid : String) : List (Entry ι) → Option Nat
  | [] => none
  | e :: earlier =>
    if e.landsOn sid resets then some 0
    else if e.landsOn sid counts then (since resets counts sid earlier).map (· + 1)
    else since resets counts sid earlier

theorem since_some (counts : SessionWrite → Bool) (reset : ∃ e ∈ log, e.landsOn sid resets = true) : ∃ n, since resets counts sid log = some n := by
  induction log with
  | nil =>
    obtain ⟨e, member, _⟩ := reset
    cases member
  | cons e earlier ih =>
    unfold since
    by_cases here : e.landsOn sid resets = true
    · exact ⟨0, by rw [if_pos here]⟩
    · obtain ⟨e', member, lands⟩ := reset
      rcases List.mem_cons.mp member with rfl | member
      · exact (here lands).elim
      · obtain ⟨n, counted⟩ := ih ⟨e', member, lands⟩
        rw [if_neg here, counted]
        split
        · exact ⟨n + 1, rfl⟩
        · exact ⟨n, rfl⟩

theorem countP_le_since {m : Nat} (counts : SessionWrite → Bool) (unreset : ∀ e ∈ new, e.landsOn sid resets = false)
    (counted : since resets counts sid old = some m) :
    ∃ n, since resets counts sid (new ++ old) = some n ∧ new.countP (Entry.landsOn sid counts) ≤ n := by
  induction new with
  | nil => exact ⟨m, counted, Nat.zero_le _⟩
  | cons e new ih =>
    obtain ⟨n, earlier, le⟩ := ih fun e' member => unreset e' (List.mem_cons_of_mem _ member)
    rw [List.cons_append, since, unreset e List.mem_cons_self, List.countP_cons, earlier]
    by_cases here : e.landsOn sid counts = true
    · exact ⟨n + 1, by simp [here], by simp only [here, ↓reduceIte]; omega⟩
    · exact ⟨n, by simp [here], by simp only [here, Bool.false_eq_true, ↓reduceIte]; omega⟩

theorem landsOn_unlanded {i : ι} {op : SessionOp} {kind : SessionWrite → Bool} :
    Entry.landsOn sid kind (⟨i, op, none⟩ : Entry ι) = false := by
  cases op <;> rfl

theorem since_unlanded {i : ι} {op : SessionOp} : since resets counts sid (⟨i, op, none⟩ :: log) = since resets counts sid log := by
  simp [since, landsOn_unlanded]

theorem since_elsewhere {i : ι} {at' : String} {write : SessionWrite} {update : Update} (other : at' ≠ sid) :
    since resets counts sid (⟨i, .findOneAndUpdate at' write, some update⟩ :: log) = since resets counts sid log := by
  simp [since, Entry.landsOn, Entry.landed?, other]

theorem since_here {i : ι} {write : SessionWrite} {update : Update} :
    since resets counts sid (⟨i, .findOneAndUpdate sid write, some update⟩ :: log) =
      if resets write then some 0 else if counts write then (since resets counts sid log).map (· + 1)
      else since resets counts sid log := by
  simp [since, Entry.landsOn, Entry.landed?]

end Counting

/-! ### Counters -/

section Counters
variable {ι : Type} {adapters : RotateSessionAdapters} {s s' : SessionStore ι} {ph : ι → RotationPhase}
variable {i : ι} {p q : RotationPhase} {sid : String}

abbrev replaysSince (sid : String) (log : List (Entry ι)) : Option Nat := since SessionWrite.advances SessionWrite.replays sid log
abbrev recoveriesSince (sid : String) (log : List (Entry ι)) : Option Nat := since SessionWrite.rotates SessionWrite.recovers sid log

/-- A counter that was reset `n` counted writes ago: it has them all, and no more than its allowance. -/
def Covers (counter : Option Nat) (allowance n : Nat) : Prop :=
  ∃ uses, counter = some uses ∧ n ≤ uses ∧ uses ≤ allowance

/-- What the log shows of a row since its counters were reset. -/
structure Counted (adapters : RotateSessionAdapters) (s : SessionStore ι) : Prop where
  replayUses : ∀ sid row n, s.sessions sid = some row → replaysSince sid s.log = some n →
    Covers row.replayUses adapters.maxReplayUses n
  recoveries : ∀ sid row n, s.sessions sid = some row → recoveriesSince sid s.log = some n →
    Covers row.recoveries adapters.maxRecoveries n
  replaysBounded : ∀ sid n, replaysSince sid s.log = some n → n ≤ adapters.maxReplayUses
  recoveriesBounded : ∀ sid n, recoveriesSince sid s.log = some n → n ≤ adapters.maxRecoveries

/-- The write keeps to the allowances of the adapters. -/
def Allowed (adapters : RotateSessionAdapters) : SessionWrite → Prop
  | .registerReplayUse maxUses _ => maxUses = adapters.maxReplayUses
  | .recoverRotateHash params _ => params.maxRecoveries = adapters.maxRecoveries
  | _ => True

theorem counted_recorded {op : SessionOp} {secrets : List String} (counted : Counted adapters s) :
    Counted adapters { s.record i op none with secrets := secrets } where
  replayUses sid row n stored since := counted.replayUses sid row n stored (since_unlanded.symm.trans since)
  recoveries sid row n stored since := counted.recoveries sid row n stored (since_unlanded.symm.trans since)
  replaysBounded sid n since := counted.replaysBounded sid n (since_unlanded.symm.trans since)
  recoveriesBounded sid n since := counted.recoveriesBounded sid n (since_unlanded.symm.trans since)

theorem covers_next {counter : Option Nat} {allowance m n : Nat} (covers : Covers counter allowance m) (next : n = m + 1)
    (below : SessionWrite.below counter allowance = true) : Covers (some (counter.getD 0 + 1)) allowance n := by
  obtain ⟨uses, rfl, le, _⟩ := covers
  have room : uses < allowance := by simpa [SessionWrite.below] using below
  exact ⟨uses + 1, rfl, by omega, room⟩

theorem counters_landed {write : SessionWrite} {before : AuthSession} (update : Update) (counted : Counted adapters s)
    (stored : s.sessions sid = some before) (matched : write.filter before = true) (allowed : Allowed adapters write) :
    (∀ n, replaysSince sid (⟨i, .findOneAndUpdate sid write, some update⟩ :: s.log) = some n →
      Covers (write.set before).replayUses adapters.maxReplayUses n) ∧
    ∀ n, recoveriesSince sid (⟨i, .findOneAndUpdate sid write, some update⟩ :: s.log) = some n →
      Covers (write.set before).recoveries adapters.maxRecoveries n := by
  have uses := fun n => counted.replayUses sid before n stored
  have recoveries := fun n => counted.recoveries sid before n stored
  simp only [replaysSince, recoveriesSince, since_here]
  cases write with
  | rotateHash params now =>
    refine ⟨fun n since => ?_, fun n since => ?_⟩ <;> cases since
    · exact ⟨0, rfl, le_refl 0, Nat.zero_le _⟩
    · exact ⟨0, rfl, le_refl 0, Nat.zero_le _⟩
  | recoverRotateHash params now =>
    refine ⟨fun n since => ?_, fun n since => ?_⟩
    · cases since
      exact ⟨0, rfl, le_refl 0, Nat.zero_le _⟩
    · obtain ⟨m, earlier, rfl⟩ := Option.map_eq_some_iff.mp since
      simp only [SessionWrite.filter, Bool.and_eq_true] at matched
      rw [show params.maxRecoveries = adapters.maxRecoveries from allowed] at matched
      exact covers_next (recoveries m earlier) rfl matched.1.1.2
  | registerReplayUse maxUses now =>
    refine ⟨fun n since => ?_, fun n since => recoveries n since⟩
    obtain ⟨m, earlier, rfl⟩ := Option.map_eq_some_iff.mp since
    simp only [SessionWrite.filter, Bool.and_eq_true] at matched
    rw [show maxUses = adapters.maxReplayUses from allowed] at matched
    exact covers_next (uses m earlier) rfl matched.2
  | revokeBySid now => exact ⟨uses, recoveries⟩

theorem Covers.bounded {counter : Option Nat} {allowance n : Nat} (covers : Covers counter allowance n) : n ≤ allowance := by
  obtain ⟨uses, _, le, within⟩ := covers
  exact le.trans within

theorem counted_landed {write : SessionWrite} {before : AuthSession} (counted : Counted adapters s)
    (stored : s.sessions sid = some before) (matched : write.filter before = true) (allowed : Allowed adapters write) :
    Counted adapters ({ s with sessions := Function.update s.sessions sid (some (write.set before)) }.record i
      (.findOneAndUpdate sid write) (some ⟨before, write.set before⟩)) := by
  obtain ⟨uses, recoveries⟩ := counters_landed (i := i) ⟨before, write.set before⟩ counted stored matched allowed
  refine ⟨fun at' row n here since => ?_, fun at' row n here since => ?_, fun at' n since => ?_, fun at' n since => ?_⟩
  · change Function.update s.sessions sid _ at' = some row at here
    rcases updated here with ⟨rfl, mine⟩ | ⟨same, here⟩
    · cases mine
      exact uses n since
    · exact counted.replayUses at' row n here ((since_elsewhere (Ne.symm same)).symm.trans since)
  · change Function.update s.sessions sid _ at' = some row at here
    rcases updated here with ⟨rfl, mine⟩ | ⟨same, here⟩
    · cases mine
      exact recoveries n since
    · exact counted.recoveries at' row n here ((since_elsewhere (Ne.symm same)).symm.trans since)
  · by_cases same : at' = sid
    · subst same
      exact (uses n since).bounded
    · exact counted.replaysBounded at' n ((since_elsewhere (Ne.symm same)).symm.trans since)
  · by_cases same : at' = sid
    · subst same
      exact (recoveries n since).bounded
    · exact counted.recoveriesBounded at' n ((since_elsewhere (Ne.symm same)).symm.trans since)

theorem counted_performs {op : SessionOp} {reply : Except JsError op.Value} (counted : Counted adapters s)
    (performs : SessionStore.Performs i s op reply s')
    (allowed : ∀ sid write, op = .findOneAndUpdate sid write → Allowed adapters write) : Counted adapters s' := by
  cases performs with
  | steady | missed | failed => exact counted_recorded counted
  | generated => exact counted_recorded counted
  | landed stored matched => exact counted_landed counted stored matched (allowed _ _ rfl)

theorem rotates_allowed {op : SessionOp} {reply : Except JsError op.Value} (step : Rotates adapters p op reply q) :
    ∀ sid write, op = .findOneAndUpdate sid write → Allowed adapters write := by
  intro sid write same
  cases step with
  | steady steady =>
    subst same
    cases steady
  | impossible synchronous =>
    subst same
    cases synchronous
  | revoked =>
    cases same
    trivial
  | claimed | refused | unreached =>
    cases same
    rfl
  | advanced starts | missed starts | failed starts =>
    cases same
    cases write with
    | recoverRotateHash params now => exact starts.2
    | rotateHash => trivial
    | _ => exact starts.elim
  | found | generated => cases same

theorem counted_moved {move : SessionStore.Move} (counted : Counted adapters s) (moved : s.move move = some s') :
    Counted adapters s' := by
  obtain ⟨log, _, rows⟩ := SessionStore.move_cases moved
  refine ⟨fun sid row n here since => ?_, fun sid row n here since => ?_, log ▸ counted.replaysBounded,
    log ▸ counted.recoveriesBounded⟩
  · obtain ⟨before, present, rfl | ⟨_, rfl⟩⟩ := rows sid row here
    · exact counted.replayUses sid row n present (log ▸ since)
    · exact counted.replayUses sid before n present (log ▸ since)
  · obtain ⟨before, present, rfl | ⟨_, rfl⟩⟩ := rows sid row here
    · exact counted.recoveries sid row n present (log ▸ since)
    · exact counted.recoveries sid before n present (log ▸ since)

end Counters

/-! ### Calls that coalesced -/

section Claims
variable {ι : Type} [DecidableEq ι] {adapters : RotateSessionAdapters} {s s' : SessionStore ι} {ph : ι → RotationPhase}
variable {i : ι} {q : RotationPhase} {sid : String}

/-- Without a transport failure, a call has coalesced when its replay is in the log. -/
structure Claims (s : SessionStore ι) (ph : ι → RotationPhase) : Prop where
  counted : ∀ i, ph i ≠ .uncounted
  logged : ∀ i sid, ph i = .claimed sid → ∃ e ∈ s.log, e.worker = i ∧ e.landsOn sid SessionWrite.replays = true
  claimed : ∀ e ∈ s.log, ∀ sid, e.landsOn sid SessionWrite.replays = true → ph e.worker = .claimed sid

def SessionOp.replays : SessionOp → Bool
  | .findOneAndUpdate _ write => write.replays
  | _ => false

/-- `registerReplayUse` does not fail at transport level. -/
def ReplaysReach (_ : ι) (_ : SessionStore ι) (op : SessionOp) (x : SessionChoice) : Prop :=
  op.replays = true → x.rejected = false

instance {i : ι} {op : SessionOp} {x : SessionChoice} : Decidable (ReplaysReach i s op x) :=
  inferInstanceAs (Decidable (_ → _))

theorem claims_still {e : Entry ι} (claims : Claims s ph) (log : s'.log = e :: s.log) (worker : e.worker = i)
    (other : ∀ sid, e.landsOn sid SessionWrite.replays = false) (running : (ph i).returned = false) (goes : q.returned = false) :
    Claims s' (Function.update ph i q) := by
  refine ⟨fun k => ?_, fun k sid phase => ?_, ?_⟩
  · by_cases own : k = i
    · subst own
      rw [Function.update_self]
      rintro rfl
      cases goes
    · rw [Function.update_of_ne own]
      exact claims.counted k
  · rcases updated phase with ⟨rfl, mine⟩ | ⟨_, phase⟩
    · rw [mine] at goes
      cases goes
    · obtain ⟨e', member, rest⟩ := claims.logged k sid phase
      exact ⟨e', by rw [log]; exact List.mem_cons_of_mem _ member, rest⟩
  · rw [log]
    refine List.forall_mem_cons.mpr ⟨fun sid lands => ?_, fun e' member sid lands => ?_⟩
    · rw [other sid] at lands
      cases lands
    · have before := claims.claimed e' member sid lands
      by_cases own : e'.worker = i
      · rw [own] at before
        rw [before] at running
        cases running
      · rwa [Function.update_of_ne own]

theorem claims_claimed {now : Time} {update : Update} {maxUses : Nat} (claims : Claims s ph) (running : (ph i).returned = false)
    (log : s'.log = ⟨i, .findOneAndUpdate sid (.registerReplayUse maxUses now), some update⟩ :: s.log) :
    Claims s' (Function.update ph i (.claimed sid)) := by
  refine ⟨fun k => ?_, fun k at' phase => ?_, ?_⟩
  · by_cases own : k = i
    · subst own
      rw [Function.update_self]
      exact nofun
    · rw [Function.update_of_ne own]
      exact claims.counted k
  · rw [log]
    rcases updated phase with ⟨rfl, mine⟩ | ⟨_, phase⟩
    · cases mine
      exact ⟨_, List.mem_cons_self, rfl, by simp [Entry.landsOn, Entry.landed?, SessionWrite.replays]⟩
    · obtain ⟨e, member, rest⟩ := claims.logged k at' phase
      exact ⟨e, List.mem_cons_of_mem _ member, rest⟩
  · rw [log]
    refine List.forall_mem_cons.mpr ⟨fun at' lands => ?_, fun e member at' lands => ?_⟩
    · by_cases same : sid = at'
      · rw [Function.update_self, same]
      · simp [Entry.landsOn, Entry.landed?, same] at lands
    · have before := claims.claimed e member at' lands
      by_cases own : e.worker = i
      · rw [own] at before
        rw [before] at running
        cases running
      · rwa [Function.update_of_ne own]

omit [DecidableEq ι] in
theorem landsOn_other {write : SessionWrite} {at' : String} {update : Update} (other : write.replays = false) :
    Entry.landsOn sid SessionWrite.replays (⟨i, .findOneAndUpdate at' write, some update⟩ : Entry ι) = false := by
  by_cases same : at' = sid <;> simp [Entry.landsOn, Entry.landed?, same, other]

theorem Starts.replays {session : AuthSession} {secret : RefreshSecret} {write : SessionWrite}
    (starts : Starts adapters session secret write) : write.replays = false := by
  cases write <;> first | rfl | exact starts.elim

theorem claims_step {op : SessionOp} {x : SessionChoice} {reply : Except JsError op.Value} (claims : Claims s ph)
    (reaches : ReplaysReach i s op x) (executed : SessionStore.exec i s op x = some (reply, s'))
    (step : Rotates adapters (ph i) op reply q) : Claims s' (Function.update ph i q) := by
  have performs := SessionStore.exec_performs executed
  have still : ∀ {s' : SessionStore ι} {e : Entry ι} {q}, s'.log = e :: s.log → e.worker = i →
      (∀ sid, e.landsOn sid SessionWrite.replays = false) → (ph i).returned = false → q.returned = false →
      Claims s' (Function.update ph i q) := fun log worker => claims_still claims log worker
  have unlanded : ∀ {op} sid, (⟨i, op, none⟩ : Entry ι).landsOn sid SessionWrite.replays = false := fun _ => landsOn_unlanded
  generalize phase : ph i = p at step still
  cases step with
  | steady steady running =>
    cases performs with
    | steady => exact still rfl rfl unlanded running running
    | _ => cases steady
  | found =>
    cases performs
    exact still rfl rfl unlanded rfl rfl
  | generated =>
    cases performs with
    | steady steady => cases steady
    | generated => exact still rfl rfl unlanded rfl rfl
  | impossible synchronous =>
    cases synchronous.symm.trans (SessionStore.exec_error executed).2
  | revoked running =>
    cases performs with
    | steady steady => cases steady
    | missed | failed => exact still rfl rfl unlanded running running
    | landed => exact still rfl rfl (fun _ => landsOn_other rfl) running running
  | claimed =>
    cases performs with
    | steady steady => cases steady
    | landed => exact claims_claimed claims (by rw [phase]; rfl) rfl
  | refused =>
    cases performs with
    | steady steady => cases steady
    | missed => exact still rfl rfl unlanded rfl rfl
    | landed stored matched replied => rcases replied with same | ⟨e, same⟩ <;> cases same
  | unreached =>
    cases (reaches rfl).symm.trans (SessionStore.exec_error executed).1
  | advanced starts =>
    cases performs with
    | steady steady => cases steady
    | landed => exact still rfl rfl (fun _ => landsOn_other starts.replays) rfl rfl
  | missed starts =>
    cases performs with
    | steady steady => cases steady
    | missed => exact still rfl rfl unlanded rfl rfl
    | landed stored matched replied => rcases replied with same | ⟨e, same⟩ <;> cases same
  | failed starts =>
    cases performs with
    | steady steady => cases steady
    | failed => exact still rfl rfl unlanded rfl rfl
    | landed => exact still rfl rfl (fun _ => landsOn_other starts.replays) rfl rfl

theorem card_le_replays {new : List (Entry ι)} {calls : Finset ι}
    (logged : ∀ i ∈ calls, ∃ e ∈ new, e.worker = i ∧ e.landsOn sid SessionWrite.replays = true) :
    calls.card ≤ new.countP (Entry.landsOn sid SessionWrite.replays) := by
  have within : calls ⊆ ((new.filter (Entry.landsOn sid SessionWrite.replays)).map Entry.worker).toFinset := by
    intro i member
    obtain ⟨e, there, rfl, lands⟩ := logged i member
    rw [List.mem_toFinset]
    exact List.mem_map_of_mem (List.mem_filter.mpr ⟨there, lands⟩)
  have bounded := (Finset.card_le_card within).trans (List.toFinset_card_le _)
  rwa [List.length_map, ← List.countP_eq_length_filter] at bounded

end Claims
end Bike4Mind.Auth
