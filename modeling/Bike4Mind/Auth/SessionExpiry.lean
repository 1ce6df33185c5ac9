import Bike4Mind.Auth.ReplayBounds

/-!
The slide of the expiry is computed from the row a call first read, and lands later. It can land only
while that row's hash is still the current one, and then the row has not slid since.
-/

namespace Bike4Mind.Auth
open Concurrency

/-- How the expiry of a row may move: never back, never past the cap, and not at all while impersonated. -/
structure Slides (before after : AuthSession) : Prop where
  createdAt : after.createdAt = before.createdAt
  impersonatedBy : after.impersonatedBy = before.impersonatedBy
  monotone : before.expiresAt ≤ after.expiresAt
  capped : after.expiresAt ≤ max before.expiresAt (before.createdAt + ABSOLUTE_SESSION_MAX_MS)
  impersonated : truthy before.impersonatedBy = true → after.expiresAt = before.expiresAt

namespace Slides
variable {before mid after : AuthSession}

theorem still (createdAt : after.createdAt = before.createdAt) (impersonatedBy : after.impersonatedBy = before.impersonatedBy)
    (expiresAt : after.expiresAt = before.expiresAt) : Slides before after :=
  ⟨createdAt, impersonatedBy, expiresAt.ge, expiresAt.le.trans (le_max_left _ _), fun _ => expiresAt⟩

theorem trans (first : Slides before mid) (second : Slides mid after) : Slides before after where
  createdAt := second.createdAt.trans first.createdAt
  impersonatedBy := second.impersonatedBy.trans first.impersonatedBy
  monotone := first.monotone.trans second.monotone
  capped := by
    have later := second.capped
    rw [first.createdAt] at later
    exact later.trans (max_le first.capped (le_max_right _ _))
  impersonated truthy := by
    have later := second.impersonated (by rw [first.impersonatedBy]; exact truthy)
    rw [later, first.impersonated truthy]

end Slides

section Snapshots
variable {ι : Type} [DecidableEq ι] {adapters : RotateSessionAdapters} {hash : SecretHash} {issued : List String}
variable {s s' from' : SessionStore ι} {ph : ι → RotationPhase} {i : ι} {p q : RotationPhase} {sid h : String}

def RotationPhase.read? : RotationPhase → Option (String × AuthSession)
  | .working read _ => read
  | _ => none

/-- A hash that has been a row's current one. -/
def Stored (hash : SecretHash) (issued : List String) (log : List (Entry ι)) (h : String) : Prop :=
  (∃ secret ∈ issued, h = hash.digest secret) ∨ ∃ e ∈ log, e.generation? = some h

omit [DecidableEq ι] in
theorem Stored.later {log : List (Entry ι)} {e : Entry ι} (stored : Stored hash issued log h) : Stored hash issued (e :: log) h := by
  rcases stored with known | ⟨e', member, same⟩
  · exact Or.inl known
  · exact Or.inr ⟨e', List.mem_cons_of_mem _ member, same⟩

/-- What a call read is still true of the row, as far as it goes. -/
structure Agrees (session row : AuthSession) : Prop where
  createdAt : row.createdAt = session.createdAt
  impersonatedBy : row.impersonatedBy = session.impersonatedBy
  expiresAt : row.refreshTokenHash = session.refreshTokenHash → row.expiresAt = session.expiresAt

structure Snapshots (hash : SecretHash) (issued : List String) (s : SessionStore ι) (ph : ι → RotationPhase) : Prop where
  secrets : ∀ secret ∈ issued, secret ∈ s.secrets
  current : ∀ sid row, s.sessions sid = some row → Stored hash issued s.log row.refreshTokenHash
  read : ∀ i sid session, (ph i).read? = some (sid, session) → Stored hash issued s.log session.refreshTokenHash ∧
    ∀ row, s.sessions sid = some row → Agrees session row
  held : ∀ i secret, (ph i).held? = some secret → secret ∉ issued

theorem read_before {k : ι} {read : String × AuthSession} (kept : q.read? = none ∨ q.read? = (ph i).read?)
    (here : (Function.update ph i q k).read? = some read) : (ph k).read? = some read := by
  rcases updated_map here with ⟨rfl, mine⟩ | ⟨_, here⟩
  · rcases kept with gone | same
    · rw [gone] at mine
      cases mine
    · rwa [← same]
  · exact here

theorem unissued_before {k : ι} {secret : String} (snapshots : Snapshots hash issued s ph)
    (held : q.held? = none ∨ q.held? = (ph i).held?) (here : (Function.update ph i q k).held? = some secret) :
    secret ∉ issued := by
  refine snapshots.held k secret ?_
  rcases updated_map here with ⟨rfl, mine⟩ | ⟨_, here⟩
  · rcases held with gone | same
    · rw [gone] at mine
      cases mine
    · rwa [← same]
  · exact here

theorem snapshots_still {e : Entry ι} (snapshots : Snapshots hash issued s ph) (log : s'.log = e :: s.log)
    (sessions : s'.sessions = s.sessions) (secrets : ∀ secret ∈ s.secrets, secret ∈ s'.secrets)
    (read : q.read? = none ∨ q.read? = (ph i).read?) (held : q.held? = none ∨ q.held? = (ph i).held?) :
    Snapshots hash issued s' (Function.update ph i q) where
  secrets secret member := secrets secret (snapshots.secrets secret member)
  current sid row stored := by
    rw [log]
    exact (snapshots.current sid row (sessions ▸ stored)).later
  read k sid session here := by
    obtain ⟨stored, agrees⟩ := snapshots.read k sid session (read_before read here)
    rw [log, sessions]
    exact ⟨stored.later, agrees⟩
  held k secret here := unissued_before snapshots held here

theorem snapshots_found {session : AuthSession} (snapshots : Snapshots hash issued s ph) (stored : s.sessions sid = some session) :
    Snapshots hash issued (s.record i (.findBySid sid) none) (Function.update ph i (.working (some (sid, session)) none)) where
  secrets := snapshots.secrets
  current sid row stored := (snapshots.current sid row stored).later
  read k at' session' here := by
    rcases updated_map here with ⟨rfl, mine⟩ | ⟨_, here⟩
    · cases mine
      refine ⟨(snapshots.current sid session stored).later, fun row mine => ?_⟩
      cases stored.symm.trans mine
      exact ⟨rfl, rfl, fun _ => rfl⟩
    · obtain ⟨known, agrees⟩ := snapshots.read k at' session' here
      exact ⟨known.later, agrees⟩
  held k secret here := by
    rcases updated_map here with ⟨rfl, mine⟩ | ⟨_, here⟩
    · cases mine
    · exact snapshots.held k secret here

theorem snapshots_generated {secret : RefreshSecret} {read : Option (String × AuthSession)}
    (snapshots : Snapshots hash issued s ph) (fresh : secret.value ∉ s.secrets) (phase : ph i = .working read none) :
    Snapshots hash issued { s.record i .generateRefreshSecret none with secrets := secret.value :: s.secrets }
      (Function.update ph i (.working read (some secret))) := by
  have kept : (RotationPhase.working read (some secret)).read? = none ∨
      (RotationPhase.working read (some secret)).read? = (ph i).read? := Or.inr (by rw [phase]; rfl)
  refine ⟨fun known member => List.mem_cons_of_mem _ (snapshots.secrets known member),
    fun sid row stored => (snapshots.current sid row stored).later, fun k sid session here => ?_, fun k known here => ?_⟩
  · obtain ⟨stored, agrees⟩ := snapshots.read k sid session (read_before kept here)
    exact ⟨stored.later, agrees⟩
  · rcases updated_map here with ⟨rfl, mine⟩ | ⟨_, here⟩
    · cases mine
      exact fun member => fresh (snapshots.secrets _ member)
    · exact snapshots.held k known here

/-- A landed write: it keeps the row's hash and expiry, or its hash has never been stored. -/
theorem snapshots_landed {write : SessionWrite} {before : AuthSession} (snapshots : Snapshots hash issued s ph)
    (stored : s.sessions sid = some before)
    (unseen : ∀ h, write.nextHash? = some h → ¬ Stored hash issued s.log h)
    (read : q.read? = none ∨ q.read? = (ph i).read?) (held : q.held? = none ∨ q.held? = (ph i).held?) :
    Snapshots hash issued ({ s with sessions := Function.update s.sessions sid (some (write.set before)) }.record i
      (.findOneAndUpdate sid write) (some ⟨before, write.set before⟩)) (Function.update ph i q) := by
  obtain ⟨createdAt, impersonatedBy⟩ := SessionWrite.set_kept before write
  have agree : ∀ {session : AuthSession}, Stored hash issued s.log session.refreshTokenHash → Agrees session before →
      Agrees session (write.set before) := by
    intro session known agrees
    refine ⟨createdAt.trans agrees.createdAt, impersonatedBy.trans agrees.impersonatedBy, fun same => ?_⟩
    rw [SessionWrite.set_refreshTokenHash] at same
    cases next : write.nextHash? with
    | some h =>
      rw [next, Option.getD_some] at same
      exact (unseen h next (same ▸ known)).elim
    | none =>
      rw [next, Option.getD_none] at same
      have slides : write.rotates = false := by cases write <;> first | rfl | cases next
      rw [SessionWrite.set_expiresAt slides]
      exact agrees.expiresAt same
  refine ⟨snapshots.secrets, fun at' row here => ?_, fun k at' session here => ?_, fun k secret here => ?_⟩
  · change Function.update s.sessions sid _ at' = some row at here
    rcases updated here with ⟨rfl, mine⟩ | ⟨_, here⟩
    · cases mine
      rw [SessionWrite.set_refreshTokenHash]
      cases next : write.nextHash? with
      | some h => exact Or.inr ⟨_, List.mem_cons_self, by rw [Entry.generation_landed, next, Option.getD_some]⟩
      | none => exact (snapshots.current _ before stored).later
    · exact (snapshots.current at' row here).later
  · obtain ⟨known, agrees⟩ := snapshots.read k at' session (read_before read here)
    refine ⟨known.later, fun row here => ?_⟩
    change Function.update s.sessions sid _ at' = some row at here
    rcases updated here with ⟨rfl, mine⟩ | ⟨_, here⟩
    · cases mine
      exact agree known (agrees before stored)
    · exact agrees row here
  · exact unissued_before snapshots held here

omit [DecidableEq ι] in
theorem snapshots_moved {move : SessionStore.Move} (snapshots : Snapshots hash issued s ph) (moved : s.move move = some s') :
    Snapshots hash issued s' ph := by
  obtain ⟨log, secrets, rows⟩ := SessionStore.move_cases moved
  refine ⟨secrets ▸ snapshots.secrets, fun sid row here => ?_, fun i sid session here => ?_, snapshots.held⟩
  · rw [log]
    obtain ⟨before, present, rfl | ⟨_, rfl⟩⟩ := rows sid row here
    · exact snapshots.current sid row present
    · exact snapshots.current sid before present
  · obtain ⟨known, agrees⟩ := snapshots.read i sid session here
    refine ⟨log ▸ known, fun row here => ?_⟩
    obtain ⟨before, present, rfl | ⟨_, rfl⟩⟩ := rows sid row here
    · exact agrees row present
    · exact ⟨(agrees before present).createdAt, (agrees before present).impersonatedBy, (agrees before present).expiresAt⟩

omit [DecidableEq ι] in
/-- A held secret's hash has never been stored. -/
theorem held_unseen {secret : String} (generations : Generations hash s ph) (snapshots : Snapshots hash issued s ph)
    (held : (ph i).held? = some secret) : ¬ Stored hash issued s.log (hash.digest secret) := by
  rintro (⟨known, member, same⟩ | ⟨e, member, same⟩)
  · exact snapshots.held i secret held (hash.injective same ▸ member)
  · exact (generations.held i secret held).2 e member same

theorem snapshots_step {op : SessionOp} {x : SessionChoice} {reply : Except JsError op.Value}
    (generations : Generations adapters.hash s ph) (snapshots : Snapshots adapters.hash issued s ph)
    (executed : SessionStore.exec i s op x = some (reply, s')) (step : Rotates adapters (ph i) op reply q) :
    Snapshots adapters.hash issued s' (Function.update ph i q) := by
  have performs := SessionStore.exec_performs executed
  have unlanded : ∀ {q}, q.read? = none ∨ q.read? = (ph i).read? → q.held? = none ∨ q.held? = (ph i).held? →
      Snapshots adapters.hash issued (s.record i op none) (Function.update ph i q) :=
    snapshots_still snapshots rfl rfl fun _ member => member
  have landed : ∀ {q sid before} {write : SessionWrite}, s.sessions sid = some before →
      (∀ h, write.nextHash? = some h → ¬ Stored adapters.hash issued s.log h) →
      q.read? = none ∨ q.read? = (ph i).read? → q.held? = none ∨ q.held? = (ph i).held? →
      Snapshots adapters.hash issued ({ s with sessions := Function.update s.sessions sid (some (write.set before)) }.record i
        (.findOneAndUpdate sid write) (some ⟨before, write.set before⟩)) (Function.update ph i q) :=
    fun stored => snapshots_landed snapshots stored
  have unseen : ∀ {session : AuthSession} {secret : RefreshSecret} {read} {write : SessionWrite},
      ph i = .working read (some secret) → Starts adapters session secret write →
      ∀ h, write.nextHash? = some h → ¬ Stored adapters.hash issued s.log h := by
    intro session secret read write phase starts h next
    rw [starts.nextHash] at next
    cases next
    exact held_unseen (i := i) generations snapshots (by rw [phase]; rfl)
  generalize phase : ph i = p at step unlanded landed unseen
  cases step with
  | steady steady running =>
    cases performs with
    | steady => exact unlanded (Or.inr rfl) (Or.inr rfl)
    | _ => cases steady
  | found =>
    have found := SessionStore.exec_find executed
    cases performs
    exact snapshots_found snapshots found.symm
  | generated =>
    cases performs with
    | steady steady => cases steady
    | generated fresh => exact snapshots_generated snapshots fresh phase
  | impossible synchronous => cases synchronous.symm.trans (SessionStore.exec_error executed).2
  | revoked =>
    cases performs with
    | steady steady => cases steady
    | missed | failed => exact unlanded (Or.inr rfl) (Or.inr rfl)
    | landed stored => exact landed stored nofun (Or.inr rfl) (Or.inr rfl)
  | claimed =>
    cases performs with
    | steady steady => cases steady
    | landed stored => exact landed stored nofun (Or.inl rfl) (Or.inl rfl)
  | refused =>
    cases performs with
    | steady steady => cases steady
    | missed => exact unlanded (Or.inr rfl) (Or.inr rfl)
    | landed stored matched replied => rcases replied with same | ⟨e, same⟩ <;> cases same
  | unreached =>
    cases performs with
    | steady steady => cases steady
    | failed => exact unlanded (Or.inl rfl) (Or.inl rfl)
    | landed stored => exact landed stored nofun (Or.inl rfl) (Or.inl rfl)
  | advanced starts =>
    cases performs with
    | steady steady => cases steady
    | landed stored => exact landed stored (unseen rfl starts) (Or.inl rfl) (Or.inl rfl)
  | missed starts =>
    cases performs with
    | steady steady => cases steady
    | missed => exact unlanded (Or.inr rfl) (Or.inl rfl)
    | landed stored matched replied => rcases replied with same | ⟨e, same⟩ <;> cases same
  | failed starts =>
    cases performs with
    | steady steady => cases steady
    | failed => exact unlanded (Or.inl rfl) (Or.inl rfl)
    | landed stored => exact landed stored (unseen rfl starts) (Or.inl rfl) (Or.inl rfl)

/-! ### The slide -/

omit [DecidableEq ι] in
theorem landed_slides {write : SessionWrite} {before : AuthSession} {reply : Except JsError (Option AuthSession)}
    (snapshots : Snapshots adapters.hash issued s ph) (stored : s.sessions sid = some before)
    (matched : write.filter before = true) (step : Rotates adapters (ph i) (.findOneAndUpdate sid write) reply q) :
    Slides before (write.set before) := by
  obtain ⟨createdAt, impersonatedBy⟩ := SessionWrite.set_kept before write
  by_cases rotates : write.rotates = true
  · have read : ∃ session secret, (ph i).read? = some (sid, session) ∧ Starts adapters session secret write := by
      generalize phase : ph i = p at step
      cases step with
      | advanced starts | missed starts | failed starts => exact ⟨_, _, rfl, starts⟩
      | steady steady => cases steady
      | impossible synchronous => cases synchronous
      | _ => cases rotates
    obtain ⟨session, secret, read, starts⟩ := read
    have agrees := (snapshots.read i sid session read).2 before stored
    cases write with
    | rotateHash params now =>
      obtain ⟨current, _, at', slid⟩ := starts
      have same : before.refreshTokenHash = session.refreshTokenHash := by
        simp only [SessionWrite.filter, Bool.and_eq_true, beq_iff_eq] at matched
        exact matched.1.1.trans current
      have expiry := agrees.expiresAt same
      have after : (SessionWrite.set before (.rotateHash params now)).expiresAt = slideExpiresAt session at' := slid
      refine ⟨createdAt, impersonatedBy, ?_, ?_, fun truthy => ?_⟩
      · rw [after, expiry]
        exact expiresAt_le_slide session at'
      · rw [after, expiry, agrees.createdAt]
        unfold slideExpiresAt
        split
        · exact le_max_left _ _
        · exact max_le_max (le_refl _) (min_le_right _ _)
      · rw [after, expiry, slideExpiresAt, if_pos (agrees.impersonatedBy ▸ truthy)]
    | _ => cases rotates
  · exact .still createdAt impersonatedBy (SessionWrite.set_expiresAt (by simpa using rotates))

/-- The rows of `s` come from those of `from'`, and only a landed rotation has moved an expiry. -/
def Descends (from' s : SessionStore ι) : Prop :=
  ∃ new, s.log = new ++ from'.log ∧
    (∀ e ∈ new, ∀ update, e.update = some update → Slides update.before update.after) ∧
    ∀ sid row', s.sessions sid = some row' → ∃ row, from'.sessions sid = some row ∧ Slides row row' ∧
      ((∀ e ∈ new, e.landsOn sid SessionWrite.rotates = false) → row'.expiresAt = row.expiresAt)

omit [DecidableEq ι] in
theorem descends_refl : Descends s s :=
  ⟨[], rfl, List.forall_mem_nil _, fun _ row' stored => ⟨row', stored, .still rfl rfl rfl, fun _ => rfl⟩⟩

omit [DecidableEq ι] in
theorem descends_step {op : SessionOp} {reply : Except JsError op.Value} (descends : Descends from' s)
    (snapshots : Snapshots adapters.hash issued s ph) (performs : SessionStore.Performs i s op reply s')
    (step : Rotates adapters (ph i) op reply q) : Descends from' s' := by
  obtain ⟨new, log, moves, rows⟩ := descends
  have unlanded : ∀ {op : SessionOp} {secrets}, Descends from' { s.record i op none with secrets := secrets } := by
    intro op secrets
    refine ⟨⟨i, op, none⟩ :: new, congrArg _ log, ?_, fun sid row' stored => ?_⟩
    · exact List.forall_mem_cons.mpr ⟨(fun update none => by cases none), moves⟩
    · obtain ⟨row, first, slides, still⟩ := rows sid row' stored
      exact ⟨row, first, slides, fun quiet => still fun e member => quiet e (List.mem_cons_of_mem _ member)⟩
  cases performs with
  | steady | missed | failed | generated => exact unlanded
  | @landed at' write before _ stored matched =>
    have here := landed_slides snapshots stored matched step
    refine ⟨_ :: new, congrArg _ log, List.forall_mem_cons.mpr ⟨?_, moves⟩, fun sid row' stored' => ?_⟩
    · intro update same
      cases same
      exact here
    · change Function.update s.sessions at' _ sid = some row' at stored'
      rcases updated stored' with ⟨rfl, mine⟩ | ⟨_, stored'⟩
      · cases mine
        obtain ⟨row, first, slides, still⟩ := rows sid before stored
        refine ⟨row, first, slides.trans here, fun quiet => ?_⟩
        have slides : write.rotates = false := by
          simpa [Entry.landsOn, Entry.landed?] using quiet _ List.mem_cons_self
        rw [SessionWrite.set_expiresAt slides]
        exact still fun e member => quiet e (List.mem_cons_of_mem _ member)
      · obtain ⟨row, first, slides, still⟩ := rows sid row' stored'
        exact ⟨row, first, slides, fun quiet => still fun e member => quiet e (List.mem_cons_of_mem _ member)⟩

omit [DecidableEq ι] in
theorem descends_moved {move : SessionStore.Move} (descends : Descends from' s) (moved : s.move move = some s') :
    Descends from' s' := by
  obtain ⟨log, _, kept⟩ := SessionStore.move_cases moved
  obtain ⟨new, same, moves, rows⟩ := descends
  refine ⟨new, log.trans same, moves, fun sid row' stored => ?_⟩
  obtain ⟨before, present, rfl | ⟨_, rfl⟩⟩ := kept sid row' stored
  · exact rows sid row' present
  · obtain ⟨row, first, slides, still⟩ := rows sid before present
    exact ⟨row, first, slides.trans (.still rfl rfl rfl), still⟩

end Snapshots

/-! ### Every run -/

section Runs
variable {ι : Type} [DecidableEq ι] {adapters : RotateSessionAdapters} {issued : List String}

structure Bounded (adapters : RotateSessionAdapters) (issued : List String) (from' s : SessionStore ι)
    (ph : ι → RotationPhase) : Prop where
  generations : Generations adapters.hash s ph
  snapshots : Snapshots adapters.hash issued s ph
  counted : Counted adapters s
  claims : Claims s ph
  descends : Descends from' s

theorem bounded_preserves {from' : SessionStore ι} :
    Preserves (rotations ι) (Rotates adapters) ReplaysReach (Bounded adapters issued from') where
  env inv moved := {
    generations := generations_moved inv.generations moved
    snapshots := snapshots_moved inv.snapshots moved
    counted := counted_moved inv.counted moved
    claims := by
      obtain ⟨log, _⟩ := SessionStore.move_cases moved
      exact ⟨inv.claims.counted, log ▸ inv.claims.logged, log ▸ inv.claims.claimed⟩
    descends := descends_moved inv.descends moved }
  step inv reaches executed step := {
    generations := generations_step inv.generations (SessionStore.exec_performs executed) step
    snapshots := snapshots_step inv.generations inv.snapshots executed step
    counted := counted_performs inv.counted (SessionStore.exec_performs executed) (rotates_allowed step)
    claims := claims_step inv.claims reaches executed step
    descends := descends_step inv.descends inv.snapshots (SessionStore.exec_performs executed) step }

omit [DecidableEq ι] in
theorem bounded_start {sessions : List IssuedSession} {clock : Time} {tokens : ι → String} :
    Bounded adapters (sessions.map (·.secret)) (presenting adapters sessions clock tokens).store
      (presenting adapters sessions clock tokens).store (fun _ => .working none none) where
  generations := generations_start
  snapshots := {
    secrets := fun _ member => member
    current := fun _ _ stored => Or.inl (issuedRow_known stored)
    read := fun _ _ _ read => by cases read
    held := fun _ _ held => by cases held }
  counted := {
    replayUses := fun _ _ _ _ since => by cases since
    recoveries := fun _ _ _ _ since => by cases since
    replaysBounded := fun _ _ since => by cases since
    recoveriesBounded := fun _ _ since => by cases since }
  claims := {
    counted := fun _ phase => by cases phase
    logged := fun _ _ phase => by cases phase
    claimed := List.forall_mem_nil _ }
  descends := descends_refl

/-- The call has returned `coalesced` for the session. -/
def CoalescedOn (sid : String) : SessionCalls RotateSessionResult → Prop
  | .pure (.coalesced base) => base.sid = sid
  | _ => False

/-- What a stretch of a run, with the log entries `new`, can do to one session. -/
structure SupersededBounded (adapters : RotateSessionAdapters) (sid : String) (first : AuthSession)
    (mid c : SessionConfig ι) (new : List (Entry ι)) : Prop where
  replays : (∃ e ∈ mid.store.log, e.landsOn sid SessionWrite.advances = true) →
    (∀ e ∈ new, e.landsOn sid SessionWrite.advances = false) →
    ∀ calls : Finset ι, (∀ i ∈ calls, CoalescedOn sid (c.threads i) ∧ ¬ CoalescedOn sid (mid.threads i)) →
      calls.card ≤ adapters.maxReplayUses
  recoveries : (∃ e ∈ mid.store.log, e.landsOn sid SessionWrite.rotates = true) →
    (∀ e ∈ new, e.landsOn sid SessionWrite.rotates = false) →
    new.countP (Entry.landsOn sid SessionWrite.recovers) ≤ adapters.maxRecoveries
  slides : ∀ row, c.store.sessions sid = some row → ∃ before, mid.store.sessions sid = some before ∧
    before.expiresAt ≤ row.expiresAt ∧
    ((∀ e ∈ new, e.landsOn sid SessionWrite.rotates = false) → row.expiresAt = before.expiresAt)
  capped : ∀ row, c.store.sessions sid = some row →
    row.expiresAt ≤ max first.expiresAt (first.createdAt + ABSOLUTE_SESSION_MAX_MS) ∧
    (truthy first.impersonatedBy = true → row.expiresAt = first.expiresAt)

/-- Between any two moments of a run in which no replay fails at transport level. -/
theorem superseded_secret_bounded {sessions : List IssuedSession} {clock : Time} {tokens : ι → String}
    {before after : List (SessionAction ι)} {mid c : SessionConfig ι} {sid : String} {first : AuthSession}
    (stored : issuedRow adapters.hash sessions sid = some first)
    (reached : (rotations ι).run (presenting adapters sessions clock tokens) before = some mid)
    (ran : (rotations ι).run mid after = some c)
    (reaches : (rotations ι).Meets ReplaysReach (presenting adapters sessions clock tokens) (before ++ after)) :
    ∃ new, c.store.log = new ++ mid.store.log ∧ SupersededBounded adapters sid first mid c new := by
  obtain ⟨reachesMid, reachesAfter⟩ := (Semantics.meets_append reached).mp reaches
  have start : Tracked (Rotates adapters) RotationEnded
      (Bounded adapters (sessions.map (·.secret)) (presenting adapters sessions clock tokens).store)
      (presenting adapters sessions clock tokens) :=
    ⟨fun _ => .working none none, bounded_start, fun _ => rotateSession_follows⟩
  obtain ⟨ph, inv, follows⟩ := run_invariant bounded_preserves start reachesMid reached
  have onward : Tracked (Rotates adapters) RotationEnded (Bounded adapters (sessions.map (·.secret)) mid.store) mid :=
    ⟨ph, { inv with descends := descends_refl }, follows⟩
  obtain ⟨ph', inv', follows'⟩ := run_invariant bounded_preserves onward reachesAfter ran
  obtain ⟨_, whole, _⟩ := run_invariant bounded_preserves start reaches (Semantics.run_append.mpr ⟨mid, reached, ran⟩)
  obtain ⟨new, log, _, rows⟩ := inv'.descends
  refine ⟨new, log, ⟨fun reset unreset calls returned => ?_, fun reset unreset => ?_, fun row here => ?_, fun row here => ?_⟩⟩
  · obtain ⟨m, earlier⟩ := since_some SessionWrite.replays reset
    obtain ⟨n, later, le⟩ := countP_le_since SessionWrite.replays unreset earlier
    refine (card_le_replays fun i member => ?_).trans (le.trans (inv'.counted.replaysBounded sid n (log ▸ later)))
    obtain ⟨now, notYet⟩ := returned i member
    have phase : ph' i = .claimed sid := by
      have here := follows' i
      cases thread : c.threads i with
      | pure result =>
        rw [thread] at now here
        cases result with
        | rotated => exact now.elim
        | coalesced base =>
          rcases here with phase | phase
          · rw [phase, show base.sid = sid from now]
          · exact (inv'.claims.counted i phase).elim
      | throw e | await op next =>
        rw [thread] at now
        exact now.elim
    obtain ⟨e, logged, worker, lands⟩ := inv'.claims.logged i sid phase
    rw [log] at logged
    rcases List.mem_append.mp logged with recent | old
    · exact ⟨e, recent, worker, lands⟩
    · have before := inv.claims.claimed e old sid lands
      rw [worker] at before
      obtain ⟨base, thread, same⟩ := claimed_coalesced (before ▸ follows i)
      exact (notYet (by rw [thread]; exact same)).elim
  · obtain ⟨m, earlier⟩ := since_some SessionWrite.recovers reset
    obtain ⟨n, later, le⟩ := countP_le_since SessionWrite.recovers unreset earlier
    exact le.trans (inv'.counted.recoveriesBounded sid n (log ▸ later))
  · obtain ⟨before, present, slides, still⟩ := rows sid row here
    exact ⟨before, present, slides.monotone, still⟩
  · obtain ⟨_, _, _, rows⟩ := whole.descends
    obtain ⟨before, present, slides, _⟩ := rows sid row here
    cases present.symm.trans stored
    exact ⟨slides.capped, slides.impersonated⟩

end Runs

namespace TwoTabs

def untilRotated : List (SessionAction Bool) := interleaved.take 9
def afterwards : List (SessionAction Bool) := interleaved.drop 9

end TwoTabs

open TwoTabs in
/-- With an allowance of one replay, the second tab takes it, and the row keeps the expiry of its rotation. -/
theorem one_replay_allowed : ∃ mid c row before,
    (rotations Bool).run (presenting adapters [session] 10 (fun _ => "tab.old")) untilRotated = some mid ∧
    (rotations Bool).run mid afterwards = some c ∧ CoalescedOn "tab" (c.threads true) ∧
    ({true} : Finset Bool).card ≤ adapters.maxReplayUses ∧ c.store.sessions "tab" = some row ∧
    mid.store.sessions "tab" = some before ∧ row.expiresAt = before.expiresAt := by
  have ran : ((rotations Bool).run (presenting adapters [session] 10 (fun _ => "tab.old")) untilRotated).bind (fun mid =>
      ((rotations Bool).run mid afterwards).map fun c => ((mid.threads true).result?, (c.threads true).result?,
        mid.store.log.any (Entry.landsOn "tab" SessionWrite.advances) && mid.store.log.length == 9 && c.store.log.length == 16 &&
        (c.store.log.take 7).all (fun e => !e.landsOn "tab" SessionWrite.advances) && (c.store.sessions "tab").isSome)) =
      some (none, some (.coalesced base), true) := by decide
  obtain ⟨mid, reached, ran⟩ := Option.bind_eq_some_iff.mp ran
  obtain ⟨c, ran, outcome⟩ := Option.map_eq_some_iff.mp ran
  simp only [Prod.mk.injEq, Bool.and_eq_true, beq_iff_eq, List.any_eq_true, List.all_eq_true, Bool.not_eq_true'] at outcome
  obtain ⟨waiting, second, ⟨⟨⟨⟨reset, earlier⟩, whole⟩, quiet⟩, present⟩⟩ := outcome
  have stored : issuedRow adapters.hash [session] "tab" = some (session.stored hash) := by decide
  have reaches : (rotations Bool).Meets ReplaysReach (presenting adapters [session] 10 (fun _ => "tab.old"))
      (untilRotated ++ afterwards) := by decide
  obtain ⟨new, log, bounded⟩ := superseded_secret_bounded stored reached ran reaches
  have recent : c.store.log.take 7 = new := by
    rw [log] at whole ⊢
    rw [List.length_append, earlier] at whole
    exact List.take_left' (by omega)
  rw [recent] at quiet
  have coalesced : CoalescedOn "tab" (c.threads true) := by
    rw [Program.result_some second]
    rfl
  have unsettled : ¬ CoalescedOn "tab" (mid.threads true) := by
    intro coalesced
    cases thread : mid.threads true with
    | pure result =>
      rw [thread] at waiting
      cases waiting
    | throw e | await op next =>
      rw [thread] at coalesced
      exact coalesced
  obtain ⟨row, here⟩ := Option.isSome_iff_exists.mp present
  obtain ⟨before, there, _, still⟩ := bounded.slides row here
  refine ⟨mid, c, row, before, reached, ran, coalesced, ?_, here, there, still fun e member => ?_⟩
  · refine bounded.replays reset quiet {true} fun i member => ?_
    rw [Finset.mem_singleton.mp member]
    exact ⟨coalesced, unsettled⟩
  · exact rotates_quiet (quiet e member)

end Bike4Mind.Auth
