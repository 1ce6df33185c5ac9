import Bike4Mind.Auth.RotationProtocol

/-!
One refresh token per generation. A generation is a landed write of a fresh hash; the call that wrote it
is the only one that can return its secret, and a revoked row starts none.
-/

namespace Bike4Mind.Auth
open Concurrency

/-! ### Generations in the log -/

namespace Entry
variable {ι : Type}

/-- The hash of the generation that the entry started. -/
def generation? (e : Entry ι) : Option String :=
  match e.op, e.update with
  | .findOneAndUpdate _ write, some _ => write.nextHash?
  | _, _ => none

/-- The entry stored `hash` as the current one of `sid`. -/
def Wrote (e : Entry ι) (sid hash : String) : Prop :=
  ∃ write update, e.op = .findOneAndUpdate sid write ∧ e.update = some update ∧ write.nextHash? = some hash ∧
    update.after.refreshTokenHash = hash

/-- A landed entry is a write that matched the row it found. -/
def Applied (e : Entry ι) : Prop :=
  ∀ update, e.update = some update → ∃ sid write, e.op = .findOneAndUpdate sid write ∧
    write.filter update.before = true ∧ update.after = write.set update.before

def keepsHashes (e : Entry ι) : Prop :=
  ∀ update, e.update = some update → update.after.refreshTokenHash = update.before.refreshTokenHash ∧
    update.after.previousRefreshTokenHash = update.before.previousRefreshTokenHash

variable {i : ι} {sid hash : String} {op : SessionOp} {write : SessionWrite} {update : Update}

@[simp] theorem generation_unlanded : generation? ⟨i, op, none⟩ = none := by
  cases op <;> rfl

@[simp] theorem generation_landed : generation? ⟨i, .findOneAndUpdate sid write, some update⟩ = write.nextHash? := rfl

theorem applied_unlanded : Applied ⟨i, op, none⟩ := by
  intro update landed
  cases landed

theorem applied_landed {before : AuthSession} (matched : write.filter before = true) :
    Applied ⟨i, .findOneAndUpdate sid write, some ⟨before, write.set before⟩⟩ := by
  intro update same
  cases same
  exact ⟨sid, write, rfl, matched, rfl⟩

theorem keepsHashes_of_none {e : Entry ι} (applied : e.Applied) (none : e.generation? = none) : e.keepsHashes := by
  intro update landed
  obtain ⟨sid, write, op, _, after⟩ := applied update landed
  have same : write.nextHash? = Option.none := by simpa [generation?, op, landed] using none
  rw [after]
  exact ⟨by rw [SessionWrite.set_refreshTokenHash, same, Option.getD_none], SessionWrite.set_previous same⟩

end Entry

section Invariant
variable {ι : Type} [DecidableEq ι] {hash : SecretHash}

def RotationPhase.held? : RotationPhase → Option String
  | .working _ (some secret) => some secret.value
  | _ => none

structure Generations (hash : SecretHash) (s : SessionStore ι) (ph : ι → RotationPhase) : Prop where
  applied : ∀ e ∈ s.log, e.Applied
  held : ∀ i secret, (ph i).held? = some secret → secret ∈ s.secrets ∧
    ∀ e ∈ s.log, e.generation? ≠ some (hash.digest secret)
  distinct : ∀ i j secret, (ph i).held? = some secret → (ph j).held? = some secret → i = j
  known : ∀ e ∈ s.log, ∀ h, e.generation? = some h → ∃ secret ∈ s.secrets, h = hash.digest secret
  started : ∀ e ∈ s.log, e.generation? ≠ none → (ph e.worker).started = true
  advanced : ∀ i sid secret, ph i = .advanced sid secret → ∃ e ∈ s.log, e.worker = i ∧ e.Wrote sid (hash.digest secret.value)
  nodup : (s.log.filterMap Entry.generation?).Nodup
  owner : ∀ e ∈ s.log, ∀ e' ∈ s.log, ∀ h, e.generation? = some h → e'.generation? = some h → e.worker = e'.worker

variable {s s' : SessionStore ι} {ph : ι → RotationPhase} {i : ι} {p q : RotationPhase}

/-- A phase that holds no new secret and starts nothing. -/
structure Settles (p q : RotationPhase) : Prop where
  held : q.held? = none ∨ q.held? = p.held?
  started : p.started = true → q.started = true
  advanced : ∀ sid secret, q = .advanced sid secret → p = .advanced sid secret

theorem settles_refl : Settles p p := ⟨Or.inr rfl, id, fun _ _ same => same⟩

theorem held_before (settles : Settles (ph i) q) {k : ι} {secret : String}
    (held : (Function.update ph i q k).held? = some secret) : (ph k).held? = some secret := by
  rcases updated_map held with ⟨rfl, mine⟩ | ⟨_, held⟩
  · rcases settles.held with gone | same
    · rw [gone] at mine
      cases mine
    · rwa [← same]
  · exact held

theorem started_after (settles : (ph i).started = true → q.started = true) {k : ι} (started : (ph k).started = true) :
    (Function.update ph i q k).started = true := by
  by_cases own : k = i
  · subst own
    rw [Function.update_self]
    exact settles started
  · rwa [Function.update_of_ne own]

theorem generations_still {e : Entry ι} (inv : Generations hash s ph) (log : s'.log = e :: s.log) (secrets : s'.secrets = s.secrets)
    (applied : e.Applied) (none : e.generation? = none) (settles : Settles (ph i) q) :
    Generations hash s' (Function.update ph i q) where
  applied := by
    rw [log]
    exact List.forall_mem_cons.mpr ⟨applied, inv.applied⟩
  held k secret held := by
    obtain ⟨known, unused⟩ := inv.held k secret (held_before settles held)
    rw [secrets, log]
    exact ⟨known, List.forall_mem_cons.mpr ⟨by rw [none]; exact nofun, unused⟩⟩
  distinct j k secret left right := inv.distinct j k secret (held_before settles left) (held_before settles right)
  known := by
    rw [secrets, log]
    refine List.forall_mem_cons.mpr ⟨fun h same => ?_, inv.known⟩
    rw [none] at same
    cases same
  started := by
    rw [log]
    refine List.forall_mem_cons.mpr ⟨fun starts => (starts none).elim, fun e member starts => ?_⟩
    exact started_after settles.started (inv.started e member starts)
  advanced k sid secret phase := by
    have before : ph k = .advanced sid secret := by
      rcases updated phase with ⟨rfl, mine⟩ | ⟨_, phase⟩
      · exact settles.advanced sid secret mine
      · exact phase
    obtain ⟨e', member, worker, wrote⟩ := inv.advanced k sid secret before
    exact ⟨e', by rw [log]; exact List.mem_cons_of_mem _ member, worker, wrote⟩
  nodup := by
    rw [log, List.filterMap_cons_none none]
    exact inv.nodup
  owner := by
    have absent : ∀ h, e.generation? ≠ some h := fun h => by rw [none]; exact nofun
    rw [log]
    refine List.forall_mem_cons.mpr ⟨fun _ _ h same => (absent h same).elim, fun e₁ first => ?_⟩
    exact List.forall_mem_cons.mpr ⟨fun h _ same => (absent h same).elim, inv.owner e₁ first⟩

theorem generations_generated {secret : RefreshSecret} {read : Option (String × AuthSession)} (inv : Generations hash s ph)
    (fresh : secret.value ∉ s.secrets) (phase : ph i = .working read none) :
    Generations hash { s.record i .generateRefreshSecret none with secrets := secret.value :: s.secrets }
      (Function.update ph i (.working read (some secret))) := by
  have recorded : Generations hash (s.record i .generateRefreshSecret none) (Function.update ph i (ph i)) :=
    generations_still inv rfl rfl Entry.applied_unlanded Entry.generation_unlanded settles_refl
  rw [Function.update_eq_self] at recorded
  have unheld : ∀ k, (ph k).held? ≠ some secret.value := fun k held => fresh (inv.held k _ held).1
  have cases' : ∀ k value, (Function.update ph i (.working read (some secret)) k).held? = some value →
      (k = i ∧ value = secret.value) ∨ (ph k).held? = some value := by
    intro k value held
    rcases updated_map held with ⟨rfl, mine⟩ | ⟨_, held⟩
    · exact Or.inl ⟨rfl, (Option.some.inj mine).symm⟩
    · exact Or.inr held
  refine ⟨recorded.applied, ?_, ?_, ?_, ?_, ?_, recorded.nodup, recorded.owner⟩
  · intro k value held
    rcases cases' k value held with ⟨rfl, rfl⟩ | held
    · refine ⟨List.mem_cons_self, fun e member same => ?_⟩
      obtain ⟨other, known, digest⟩ := recorded.known e member _ same
      rw [hash.injective digest] at fresh
      exact fresh known
    · obtain ⟨known, unused⟩ := recorded.held k value held
      exact ⟨List.mem_cons_of_mem _ known, unused⟩
  · intro j k value left right
    rcases cases' j value left with ⟨first, same⟩ | left
    · rcases cases' k value right with ⟨second, _⟩ | right
      · exact first.trans second.symm
      · exact (unheld k (same ▸ right)).elim
    · rcases cases' k value right with ⟨_, same⟩ | right
      · exact (unheld j (same ▸ left)).elim
      · exact inv.distinct j k value left right
  · intro e member h same
    obtain ⟨other, known, digest⟩ := recorded.known e member h same
    exact ⟨other, List.mem_cons_of_mem _ known, digest⟩
  · intro e member starts
    refine started_after (fun started => ?_) (recorded.started e member starts)
    rw [phase] at started
    cases started
  · intro k sid other phase'
    refine recorded.advanced k sid other ?_
    rcases updated phase' with ⟨rfl, mine⟩ | ⟨_, phase'⟩
    · cases mine
    · exact phase'

theorem generations_advanced {sid : String} {secret : RefreshSecret} {read : Option (String × AuthSession)} {write : SessionWrite}
    {before : AuthSession} (inv : Generations hash s ph) (phase : ph i = .working read (some secret))
    (next : write.nextHash? = some (hash.digest secret.value)) (matched : write.filter before = true)
    (log : s'.log = ⟨i, .findOneAndUpdate sid write, some ⟨before, write.set before⟩⟩ :: s.log) (secrets : s'.secrets = s.secrets)
    (ends : q = .advanced sid secret ∨ q = .unknown) : Generations hash s' (Function.update ph i q) := by
  have heldHere : (ph i).held? = some secret.value := by rw [phase]; rfl
  obtain ⟨known, unused⟩ := inv.held i _ heldHere
  have dropped : q.held? = none := by rcases ends with rfl | rfl <;> rfl
  have others : ∀ k value, (Function.update ph i q k).held? = some value → k ≠ i ∧ (ph k).held? = some value := by
    intro k value held
    by_cases own : k = i
    · subst own
      rw [Function.update_self, dropped] at held
      cases held
    · rw [Function.update_of_ne own] at held
      exact ⟨own, held⟩
  have begun : q.started = true := by rcases ends with rfl | rfl <;> rfl
  refine ⟨?_, ?_, ?_, ?_, ?_, ?_, ?_, ?_⟩
  · rw [log]
    exact List.forall_mem_cons.mpr ⟨Entry.applied_landed matched, inv.applied⟩
  · intro k value held
    obtain ⟨other, held⟩ := others k value held
    obtain ⟨known', unused'⟩ := inv.held k value held
    rw [secrets, log]
    refine ⟨known', List.forall_mem_cons.mpr ⟨?_, unused'⟩⟩
    rw [Entry.generation_landed, next]
    intro same
    have same : secret.value = value := hash.injective (Option.some.inj same)
    exact other (inv.distinct k i value held (same ▸ heldHere))
  · intro j k value left right
    exact inv.distinct j k value (others j value left).2 (others k value right).2
  · rw [secrets, log]
    refine List.forall_mem_cons.mpr ⟨fun h same => ?_, inv.known⟩
    rw [Entry.generation_landed, next] at same
    exact ⟨secret.value, known, (Option.some.inj same).symm⟩
  · rw [log]
    refine List.forall_mem_cons.mpr ⟨fun _ => ?_, fun e member starts => ?_⟩
    · rw [Function.update_self]
      exact begun
    · exact started_after (fun _ => begun) (inv.started e member starts)
  · intro k sid' secret' phase'
    rw [log]
    rcases updated phase' with ⟨rfl, mine⟩ | ⟨_, phase'⟩
    · rcases ends with rfl | rfl
      · cases mine
        refine ⟨_, List.mem_cons_self, rfl, write, _, rfl, rfl, next, ?_⟩
        rw [SessionWrite.set_refreshTokenHash, next, Option.getD_some]
      · cases mine
    · obtain ⟨e, member, wrote⟩ := inv.advanced k sid' secret' phase'
      exact ⟨e, List.mem_cons_of_mem _ member, wrote⟩
  · rw [log, List.filterMap_cons_some (b := hash.digest secret.value) (by rw [Entry.generation_landed, next])]
    refine List.nodup_cons.mpr ⟨fun member => ?_, inv.nodup⟩
    obtain ⟨e, member, same⟩ := List.mem_filterMap.mp member
    exact unused e member same
  · have single : ∀ e ∈ s.log, ∀ h, write.nextHash? = some h → e.generation? ≠ some h := by
      intro e member h same
      rw [next] at same
      cases same
      exact unused e member
    rw [log]
    refine List.forall_mem_cons.mpr ⟨?_, fun e₁ first => ?_⟩
    · refine List.forall_mem_cons.mpr ⟨fun _ _ _ => rfl, fun e member h same same' => ?_⟩
      exact (single e member h same same').elim
    · exact List.forall_mem_cons.mpr ⟨fun h same same' => (single e₁ first h same' same).elim, inv.owner e₁ first⟩

theorem generations_step {adapters : RotateSessionAdapters} {op : SessionOp} {reply : Except JsError op.Value}
    (inv : Generations adapters.hash s ph) (performs : SessionStore.Performs i s op reply s')
    (step : Rotates adapters (ph i) op reply q) : Generations adapters.hash s' (Function.update ph i q) := by
  have unlanded : ∀ {q}, Settles (ph i) q → Generations adapters.hash (s.record i op none) (Function.update ph i q) :=
    generations_still inv rfl rfl Entry.applied_unlanded Entry.generation_unlanded
  have landed : ∀ {q sid before} {write : SessionWrite}, write.filter before = true → write.nextHash? = none → Settles (ph i) q →
      Generations adapters.hash ({ s with sessions := Function.update s.sessions sid (some (write.set before)) }.record i
        (.findOneAndUpdate sid write) (some ⟨before, write.set before⟩)) (Function.update ph i q) :=
    fun matched none => generations_still inv rfl rfl (Entry.applied_landed matched) none
  generalize phase : ph i = p at step unlanded landed
  cases step with
  | steady steady running =>
    cases performs with
    | steady => exact unlanded settles_refl
    | _ => cases steady
  | found =>
    cases performs
    exact unlanded ⟨Or.inl rfl, nofun, nofun⟩
  | generated =>
    cases performs with
    | steady steady => cases steady
    | generated fresh => exact generations_generated inv fresh phase
  | impossible synchronous unstarted =>
    cases performs with
    | steady =>
      refine unlanded ⟨Or.inl rfl, fun started => ?_, nofun⟩
      rw [unstarted] at started
      cases started
    | _ => cases synchronous
  | revoked =>
    cases performs with
    | steady steady => cases steady
    | missed | failed => exact unlanded settles_refl
    | landed stored matched => exact landed matched rfl settles_refl
  | claimed =>
    cases performs with
    | steady steady => cases steady
    | landed stored matched => exact landed matched rfl ⟨Or.inl rfl, nofun, nofun⟩
  | refused =>
    cases performs with
    | steady steady => cases steady
    | missed => exact unlanded settles_refl
    | landed stored matched => exact landed matched rfl settles_refl
  | unreached =>
    cases performs with
    | steady steady => cases steady
    | failed => exact unlanded ⟨Or.inl rfl, nofun, nofun⟩
    | landed stored matched => exact landed matched rfl ⟨Or.inl rfl, nofun, nofun⟩
  | advanced starts =>
    cases performs with
    | steady steady => cases steady
    | landed stored matched => exact generations_advanced inv phase starts.nextHash matched rfl rfl (Or.inl rfl)
  | missed starts =>
    cases performs with
    | steady steady => cases steady
    | missed => exact unlanded ⟨Or.inl rfl, nofun, nofun⟩
    | landed stored matched replied => rcases replied with same | ⟨e, same⟩ <;> cases same
  | failed starts =>
    cases performs with
    | steady steady => cases steady
    | failed => exact unlanded ⟨Or.inl rfl, nofun, nofun⟩
    | landed stored matched => exact generations_advanced inv phase starts.nextHash matched rfl rfl (Or.inr rfl)

omit [DecidableEq ι] in
theorem generations_moved {move : SessionStore.Move} (inv : Generations hash s ph) (moved : s.move move = some s') :
    Generations hash s' ph := by
  obtain ⟨log, secrets, _⟩ := SessionStore.move_cases moved
  exact ⟨log ▸ inv.applied, log ▸ secrets ▸ inv.held, inv.distinct, log ▸ secrets ▸ inv.known, log ▸ inv.started,
    log ▸ inv.advanced, log ▸ inv.nodup, log ▸ inv.owner⟩

theorem generations_preserves {adapters : RotateSessionAdapters} {cond : ι → SessionStore ι → SessionOp → SessionChoice → Prop} :
    Preserves (rotations ι) (Rotates adapters) cond (Generations adapters.hash) where
  env inv moved := generations_moved inv moved
  step inv _ executed step := generations_step inv (SessionStore.exec_performs executed) step

omit [DecidableEq ι] in
theorem generations_start {sessions : String → Option AuthSession} {clock : Time} {secrets : List String} :
    Generations hash ({ sessions := sessions, clock := clock, secrets := secrets } : SessionStore ι)
      (fun _ => .working none none) where
  applied := List.forall_mem_nil _
  held _ _ held := by cases held
  distinct _ _ _ held := by cases held
  known := List.forall_mem_nil _
  started := List.forall_mem_nil _
  advanced _ _ _ phase := by cases phase
  nodup := List.nodup_nil
  owner := List.forall_mem_nil _

end Invariant

/-! ### A revoked row -/

section Revoked
variable {ι : Type} [DecidableEq ι] {sid : String} {row : AuthSession}

/-- The row stays as it is for as long as it is stored. -/
def Frozen (sid : String) (row : AuthSession) (s : SessionStore ι) : Prop :=
  ∀ stored, s.sessions sid = some stored → stored = row

omit [DecidableEq ι] in
theorem frozen_step {i : ι} {s s' : SessionStore ι} {op : SessionOp} {reply : Except JsError op.Value}
    (revoked : row.revokedAt ≠ none) (frozen : Frozen sid row s) (performs : SessionStore.Performs i s op reply s') :
    Frozen sid row s' := by
  cases performs with
  | steady | generated | missed | failed => exact frozen
  | @landed at' write before _ present matched =>
    intro stored here
    by_cases same : sid = at'
    · subst same
      obtain rfl := frozen before present
      exact (revoked (SessionWrite.filter_unrevoked matched)).elim
    · change Function.update s.sessions at' _ sid = _ at here
      rw [Function.update_of_ne same] at here
      exact frozen stored here

omit [DecidableEq ι] in
theorem frozen_moved {s s' : SessionStore ι} {move : SessionStore.Move} (revoked : row.revokedAt ≠ none)
    (frozen : Frozen sid row s) (moved : s.move move = some s') : Frozen sid row s' := by
  obtain ⟨_, _, rows⟩ := SessionStore.move_cases moved
  intro stored here
  obtain ⟨before, present, rfl | ⟨unrevoked, _⟩⟩ := rows sid stored here
  · exact frozen stored present
  · rw [frozen before present] at unrevoked
    exact (revoked unrevoked).elim

end Revoked

/-! ### Every run -/

section Runs
variable {ι : Type} [DecidableEq ι]

abbrev SessionAction (ι : Type) := Action ι SessionChoice SessionStore.Move

/-- The calls that returned a refresh token, and the generations they stand for. -/
structure OneTokenPerGeneration (hash : SecretHash) (c : SessionConfig ι) : Prop where
  written : ∀ i base refreshToken, c.threads i = .pure (.rotated base refreshToken) →
    ∃ secret, parseRefreshToken refreshToken = some ⟨base.sid, secret⟩ ∧
      ∃ e ∈ c.store.log, e.worker = i ∧ e.Wrote base.sid (hash.digest secret)
  generations : (c.store.log.filterMap Entry.generation?).Nodup
  single : ∀ i j base base' refreshToken refreshToken' parsed parsed',
    c.threads i = .pure (.rotated base refreshToken) → c.threads j = .pure (.rotated base' refreshToken') →
    parseRefreshToken refreshToken = some parsed → parseRefreshToken refreshToken' = some parsed' →
    hash.digest parsed.secret = hash.digest parsed'.secret → i = j
  coalesced : ∀ i base, c.threads i = .pure (.coalesced base) → ∀ e ∈ c.store.log, e.worker = i → e.keepsHashes

/-- Tokens are one to a generation, and the run from `mid` on leaves the rows revoked there as they are. -/
theorem one_token_per_generation {adapters : RotateSessionAdapters} {issued : List IssuedSession} {clock : Time}
    {tokens : ι → String} {before after : List (SessionAction ι)} {mid c : SessionConfig ι}
    (reached : (rotations ι).run (presenting adapters issued clock tokens) before = some mid)
    (ran : (rotations ι).run mid after = some c) :
    OneTokenPerGeneration adapters.hash c ∧
      ∀ sid row, mid.store.sessions sid = some row → row.revokedAt ≠ none → Frozen sid row c.store := by
  have start : Tracked (Rotates adapters) RotationEnded (Generations adapters.hash) (presenting adapters issued clock tokens) :=
    ⟨fun _ => .working none none, generations_start, fun _ => rotateSession_follows⟩
  have always : ∀ {c : SessionConfig ι} {sched : List (SessionAction ι)},
      (rotations ι).Meets (fun _ _ _ _ => True) c sched := Semantics.meets_all fun _ _ _ _ => trivial
  obtain ⟨ph, inv, follows⟩ := run_invariant generations_preserves start always (Semantics.run_append.mpr ⟨mid, reached, ran⟩)
  have returned : ∀ i result, c.threads i = .pure result → RotationEnded (.ok result) (ph i) := fun i result thread => by
    have here := follows i
    rw [thread] at here
    exact here
  refine ⟨⟨?_, inv.nodup, ?_, ?_⟩, fun sid row stored revoked => ?_⟩
  · intro i base refreshToken thread
    obtain ⟨secret, phase, parsed⟩ := returned i _ thread
    exact ⟨secret.value, parsed, inv.advanced i base.sid secret phase⟩
  · intro i j base base' refreshToken refreshToken' parsed parsed' first second token token' same
    obtain ⟨secret, phase, built⟩ := returned i _ first
    obtain ⟨secret', phase', built'⟩ := returned j _ second
    cases token.symm.trans built
    cases token'.symm.trans built'
    obtain ⟨e, member, rfl, write, update, op, landed, next, _⟩ := inv.advanced i base.sid secret phase
    obtain ⟨e', member', rfl, write', update', op', landed', next', _⟩ := inv.advanced j base'.sid secret' phase'
    refine inv.owner e member e' member' (adapters.hash.digest secret.value) ?_ ?_
    · simp only [Entry.generation?, op, landed, next]
    · simp only [Entry.generation?, op', landed', next']
      exact congrArg some same.symm
  · intro i base thread e member worker
    refine Entry.keepsHashes_of_none (inv.applied e member) ?_
    by_contra starts
    have started := inv.started e member starts
    rw [worker] at started
    rcases returned i _ thread with phase | phase <;> rw [phase] at started <;> cases started
  · obtain ⟨ph, _, follows⟩ := run_invariant generations_preserves start always reached
    have preserved : Preserves (rotations ι) (Rotates adapters) (fun _ _ _ _ => True) (fun s _ => Frozen sid row s) := {
      env := fun frozen moved => frozen_moved revoked frozen moved
      step := fun frozen _ executed _ => frozen_step revoked frozen (SessionStore.exec_performs executed) }
    have frozen : Frozen sid row mid.store := fun stored' here => Option.some.inj (here.symm.trans stored)
    obtain ⟨_, frozen, _⟩ := run_invariant preserved ⟨ph, frozen, follows⟩ always ran
    exact frozen

end Runs

namespace TwoTabs

def hash : SecretHash where
  digest secret := "#" ++ secret
  injective a b same := by
    have lists := congrArg String.toList same
    rw [String.toList_append, String.toList_append] at lists
    exact String.toList_inj.mp (List.append_cancel_left lists)
  filled secret same := by
    have lists := congrArg String.toList same
    rw [String.toList_append] at lists
    cases lists

def adapters : RotateSessionAdapters where
  hash := hash
  signAccessToken id _ payload := id ++ "@" ++ payload.sid
  maxReplayUses := 1

def session : IssuedSession where
  sid := "tab"
  secret := "old"
  row := { userId := "user", refreshTokenHash := "", createdVia := "otc", lastUsedAt := 0, createdAt := 0, expiresAt := 1000 }

def user : User := ⟨"user", none⟩

def fresh : RefreshSecret := ⟨"new", by decide, by decide⟩
def spare : RefreshSecret := ⟨"spare", by decide, by decide⟩

/-- Both tabs read the row; the first rotates it, and the second finds its write refused. -/
def interleaved : List (SessionAction Bool) :=
  [.resume false .resolves, .resume true .resolves, .resume false .resolves, .resume true .resolves,
    .resume false (.generates fresh), .resume true (.generates spare), .resume false .resolves, .resume true .resolves,
    .resume false .resolves, .resume false (.finds (some user)), .resume true .resolves, .resume true .resolves,
    .resume true .resolves, .resume true (.finds (some user)), .resume true .resolves, .resume true .resolves,
    .env (.revoke "tab")]

def signedOut : List (SessionAction Bool) := [.env (.tick 5), .env (.revoke "tab")]

def base : RotateSessionResultBase := resultBase adapters "tab" (session.stored hash) user

end TwoTabs

open TwoTabs in
/-- The first tab's token is the row's current one, the second tab moved nothing, and signing out again
leaves the row as it was. -/
theorem two_tabs_share_a_token : ∃ mid c row,
    (rotations Bool).run (presenting adapters [session] 10 (fun _ => "tab.old")) interleaved = some mid ∧
    (rotations Bool).run mid signedOut = some c ∧ c.threads false = .pure (.rotated base "tab.new") ∧
    c.threads true = .pure (.coalesced base) ∧ (∃ e ∈ c.store.log, e.worker = false ∧ e.Wrote "tab" "#new") ∧
    (∀ e ∈ c.store.log, e.worker = true → e.keepsHashes) ∧ mid.store.sessions "tab" = some row ∧
    row.revokedAt ≠ none ∧ Frozen "tab" row c.store := by
  have ran : ((rotations Bool).run (presenting adapters [session] 10 (fun _ => "tab.old")) interleaved).bind (fun mid =>
      ((rotations Bool).run mid signedOut).map fun c =>
        (mid.store.sessions "tab", (c.threads false).result?, (c.threads true).result?)) =
      some (some { (session.stored hash) with
          refreshTokenHash := "#new", previousRefreshTokenHash := some "#old", graceExpiresAt := some 120010
          replayUses := some 1, recoveries := some 0, lastUsedAt := 10, expiresAt := 2592000010, revokedAt := some 10 },
        some (.rotated base "tab.new"), some (.coalesced base)) := by decide
  obtain ⟨mid, reached, ran⟩ := Option.bind_eq_some_iff.mp ran
  obtain ⟨c, after, outcome⟩ := Option.map_eq_some_iff.mp ran
  simp only [Prod.mk.injEq] at outcome
  obtain ⟨stored, first, second⟩ := outcome
  obtain ⟨one, frozen⟩ := one_token_per_generation reached after
  obtain ⟨secret, parsed, e, member, worker, wrote⟩ := one.written false base _ (Program.result_some first)
  have token : parseRefreshToken "tab.new" = some ⟨"tab", "new"⟩ := by decide
  cases token.symm.trans parsed
  exact ⟨mid, c, _, reached, after, Program.result_some first, Program.result_some second, ⟨e, member, worker, wrote⟩,
    one.coalesced true base (Program.result_some second), stored, nofun, frozen "tab" _ stored nofun⟩

end Bike4Mind.Auth
