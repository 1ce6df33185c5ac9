import Bike4Mind.Concurrency.Semantics

/-!
Protocols: what one thread may do next, as a relation between phases. `Follows` says that a program
keeps to a protocol whatever its awaits reply, and is proved function by function. `run_invariant`
then turns an invariant of the store and the phases, checked once per operation, into one of every
run of any number of threads.
-/

namespace Concurrency
variable {ι σ Op : Type} {Value : Op → Type} {ε χ η α β φ : Type}

/-- `next p op reply q`: in phase `p` the operation is permitted, and this reply leads to `q`. -/
abbrev Protocol (φ Op : Type) (Value : Op → Type) (ε : Type) :=
  φ → (op : Op) → Except ε (Value op) → φ → Prop

/-- The program keeps to the protocol from phase `p`, and ends in a phase related to its result. -/
def Follows (next : Protocol φ Op Value ε) (post : Except ε α → φ → Prop) :
    Program Op Value ε α → φ → Prop
  | .pure a, p => post (.ok a) p
  | .throw e, p => post (.error e) p
  | .await op k, p => ∀ reply, ∃ q, next p op reply q ∧ Follows next post (k reply) q

section Rules
variable {next : Protocol φ Op Value ε} {post : Except ε α → φ → Prop} {p q : φ}

theorem follows_mono {post' : Except ε α → φ → Prop} {program : Program Op Value ε α}
    (h : Follows next post program p) (weaker : ∀ r q, post r q → post' r q) : Follows next post' program p := by
  induction program generalizing p with
  | pure a => exact weaker _ _ h
  | throw e => exact weaker _ _ h
  | await op k ih =>
    intro reply
    obtain ⟨q, permitted, continued⟩ := h reply
    exact ⟨q, permitted, ih reply continued⟩

theorem follows_map {φ' : Type} {next' : Protocol φ' Op Value ε} (f : φ → φ')
    (embeds : ∀ p op reply q, next p op reply q → next' (f p) op reply (f q)) {program : Program Op Value ε α}
    (h : Follows next post program p) :
    Follows next' (fun r q' => ∃ q, q' = f q ∧ post r q) program (f p) := by
  induction program generalizing p with
  | pure a => exact ⟨p, rfl, h⟩
  | throw e => exact ⟨p, rfl, h⟩
  | await op k ih =>
    intro reply
    obtain ⟨q, permitted, continued⟩ := h reply
    exact ⟨f q, embeds p op reply q permitted, ih reply continued⟩

/-- Sequencing: the second program starts from whatever phase the first one resolves in. -/
theorem follows_bind {post : Except ε β → φ → Prop} {program : Program Op Value ε α} {f : α → Program Op Value ε β}
    (h : Follows next (fun r q => match r with
      | .ok a => Follows next post (f a) q
      | .error e => post (.error e) q) program p) :
    Follows next post (program.bind f) p := by
  induction program generalizing p with
  | pure a => exact h
  | throw e => exact h
  | await op k ih =>
    intro reply
    obtain ⟨q, permitted, continued⟩ := h reply
    exact ⟨q, permitted, ih reply continued⟩

theorem follows_seq {mid : Except ε α → φ → Prop} {post : Except ε β → φ → Prop} {program : Program Op Value ε α}
    {f : α → Program Op Value ε β} (first : Follows next mid program p)
    (resolved : ∀ a q, mid (.ok a) q → Follows next post (f a) q) (rejected : ∀ e q, mid (.error e) q → post (.error e) q) :
    Follows next post (program.bind f) p := by
  refine follows_bind (follows_mono first fun result q reached => ?_)
  cases result with
  | ok a => exact resolved a q reached
  | error e => exact rejected e q reached

theorem follows_tryCatch {program : Program Op Value ε α} {handle : ε → Program Op Value ε α}
    (h : Follows next (fun r q => match r with
      | .ok a => post (.ok a) q
      | .error e => Follows next post (handle e) q) program p) :
    Follows next post (program.tryCatch handle) p := by
  induction program generalizing p with
  | pure a => exact h
  | throw e => exact h
  | await op k ih =>
    intro reply
    obtain ⟨q, permitted, continued⟩ := h reply
    exact ⟨q, permitted, ih reply continued⟩

theorem follows_perform {op : Op} {post : Except ε (Value op) → φ → Prop}
    (h : ∀ reply, ∃ q, next p op reply q ∧ post reply q) : Follows next post (.perform op) p := by
  intro reply
  obtain ⟨q, permitted, reached⟩ := h reply
  refine ⟨q, permitted, ?_⟩
  cases reply <;> exact reached

/-- `await op` followed by the rest: one case per way the promise settles. -/
theorem follows_then {op : Op} {post : Except ε β → φ → Prop} {f : Value op → Program Op Value ε β}
    (resolved : ∀ v, ∃ q, next p op (.ok v) q ∧ Follows next post (f v) q)
    (rejected : ∀ e, ∃ q, next p op (.error e) q ∧ post (.error e) q) :
    Follows next post ((Program.perform op).bind f) p := by
  intro reply
  cases reply with
  | ok v => exact resolved v
  | error e => exact rejected e

end Rules

/-! ### Programs confined to some operations -/

/-- Every operation the program may come to perform is allowed. -/
def Only (allowed : Op → Prop) : Program Op Value ε α → Prop
  | .pure _ | .throw _ => True
  | .await op k => allowed op ∧ ∀ reply, Only allowed (k reply)

section Only
variable {allowed : Op → Prop}

theorem only_bind {program : Program Op Value ε α} {f : α → Program Op Value ε β} (first : Only allowed program)
    (rest : ∀ a, Only allowed (f a)) : Only allowed (program.bind f) := by
  induction program with
  | pure a => exact rest a
  | throw e => trivial
  | await op k ih => exact ⟨first.1, fun reply => ih reply (first.2 reply)⟩

theorem only_tryCatch {program : Program Op Value ε α} {handle : ε → Program Op Value ε α} (first : Only allowed program)
    (caught : ∀ e, Only allowed (handle e)) : Only allowed (program.tryCatch handle) := by
  induction program with
  | pure a => trivial
  | throw e => exact caught e
  | await op k ih => exact ⟨first.1, fun reply => ih reply (first.2 reply)⟩

theorem only_perform {op : Op} (h : allowed op) : Only allowed (.perform op : Program Op Value ε (Value op)) := by
  refine ⟨h, fun reply => ?_⟩
  cases reply <;> trivial

/-- A confined program follows any protocol that its operations do not move. -/
theorem Only.follows {next : Protocol φ Op Value ε} {post : Except ε α → φ → Prop} {p : φ}
    {program : Program Op Value ε α} (h : Only allowed program) (stays : ∀ op reply, allowed op → next p op reply p)
    (ended : ∀ result, post result p) : Follows next post program p := by
  induction program with
  | pure a => exact ended _
  | throw e => exact ended _
  | await op k ih => exact fun reply => ⟨p, stays op reply h.1, ih reply (h.2 reply)⟩

end Only

section Runs
variable [DecidableEq ι] {S : Semantics ι σ Op Value ε χ η} {next : Protocol φ Op Value ε}
variable {post : Except ε α → φ → Prop} {cond : ι → σ → Op → χ → Prop}

/-- `I` survives the environment and every permitted operation that meets `cond`. -/
structure Preserves (S : Semantics ι σ Op Value ε χ η) (next : Protocol φ Op Value ε)
    (cond : ι → σ → Op → χ → Prop) (I : σ → (ι → φ) → Prop) : Prop where
  env : ∀ {s e s' ph}, I s ph → S.env s e = some s' → I s' ph
  step : ∀ {i s op x reply s' ph q}, I s ph → cond i s op x → S.exec i s op x = some (reply, s') →
    next (ph i) op reply q → I s' (Function.update ph i q)

theorem Preserves.and {I J : σ → (ι → φ) → Prop} (left : Preserves S next cond I) (right : Preserves S next cond J) :
    Preserves S next cond (fun s ph => I s ph ∧ J s ph) where
  env holds moved := ⟨left.env holds.1 moved, right.env holds.2 moved⟩
  step holds meets executed permitted :=
    ⟨left.step holds.1 meets executed permitted, right.step holds.2 meets executed permitted⟩

/-- The threads are in some phases that satisfy `I` and that their programs follow. -/
def Tracked (next : Protocol φ Op Value ε) (post : Except ε α → φ → Prop) (I : σ → (ι → φ) → Prop)
    (c : Config ι σ Op Value ε α) : Prop :=
  ∃ ph, I c.store ph ∧ ∀ i, Follows next post (c.threads i) (ph i)

theorem tracked_step {I : σ → (ι → φ) → Prop} (preserved : Preserves S next cond I)
    {c c' : Config ι σ Op Value ε α} {a : Action ι χ η} (tracked : Tracked next post I c)
    (meets : Semantics.StepMeets cond c a) (stepped : S.step c a = some c') : Tracked next post I c' := by
  obtain ⟨ph, holds, follows⟩ := tracked
  cases a with
  | env e =>
    obtain ⟨store, moved, rfl⟩ := Semantics.env_some stepped
    exact ⟨ph, preserved.env holds moved, follows⟩
  | resume i x =>
    obtain ⟨op, k, reply, store, atAwait, executed, rfl⟩ := Semantics.resume_some stepped
    have here := follows i
    rw [atAwait] at here
    obtain ⟨q, permitted, continued⟩ := here reply
    refine ⟨Function.update ph i q, preserved.step holds (meets op k atAwait) executed permitted, fun j => ?_⟩
    by_cases same : j = i
    · subst same
      simpa using continued
    · simpa [same] using follows j

/-- The invariant rule for runs of any length, over any number of threads. -/
theorem run_invariant {I : σ → (ι → φ) → Prop} (preserved : Preserves S next cond I)
    {c c' : Config ι σ Op Value ε α} {sched : List (Action ι χ η)} (tracked : Tracked next post I c)
    (meets : S.Meets cond c sched) (ran : S.run c sched = some c') : Tracked next post I c' := by
  induction sched generalizing c with
  | nil =>
    cases ran
    exact tracked
  | cons a rest ih =>
    obtain ⟨mid, stepped, ran⟩ := Semantics.run_cons.mp ran
    exact ih (tracked_step preserved tracked meets.1 stepped) (meets.2 mid stepped) ran

/-- Where breaking `cond` breaks `P` at once, `cond` says exactly in which runs `P` always holds. -/
theorem always_iff_meets_config {I : σ → (ι → φ) → Prop} {P : Config ι σ Op Value ε α → Prop}
    (preserved : Preserves S next cond I) (holds : ∀ {c}, Tracked next post I c → P c)
    (breaks : ∀ {c : Config ι σ Op Value ε α} {i op k x}, Tracked next post I c → c.threads i = .await op k →
      ¬ cond i c.store op x → ∃ c', S.resume c i x = some c' ∧ ¬ P c')
    {c : Config ι σ Op Value ε α} {sched : List (Action ι χ η)} (tracked : Tracked next post I c) :
    S.Always P c sched ↔ S.Meets cond c sched := by
  induction sched generalizing c with
  | nil => exact ⟨fun _ => trivial, fun _ => holds tracked⟩
  | cons a rest ih =>
    constructor
    · rintro ⟨_, later⟩
      have meets : Semantics.StepMeets cond c a := by
        cases a with
        | env e => trivial
        | resume i x =>
          intro op k atAwait
          by_contra broken
          obtain ⟨c', stepped, broken⟩ := breaks tracked atAwait broken
          have next := later c' stepped
          cases rest with
          | nil => exact broken next
          | cons b rest => exact broken next.1
      exact ⟨meets, fun c' stepped => (ih (tracked_step preserved tracked meets stepped)).mp (later c' stepped)⟩
    · rintro ⟨meets, later⟩
      exact ⟨holds tracked, fun c' stepped => (ih (tracked_step preserved tracked meets stepped)).mpr (later c' stepped)⟩

/-- Where breaking `cond` breaks `R` at once, `cond` says exactly in which runs `R` always holds. -/
theorem always_iff_meets {I : σ → (ι → φ) → Prop} {R : σ → Prop} (preserved : Preserves S next cond I)
    (holds : ∀ {s ph}, I s ph → R s)
    (breaks : ∀ {i s op x}, ¬ cond i s op x → ∃ reply s', S.exec i s op x = some (reply, s') ∧ ¬ R s')
    {c : Config ι σ Op Value ε α} {sched : List (Action ι χ η)} (tracked : Tracked next post I c) :
    S.Always (fun c => R c.store) c sched ↔ S.Meets cond c sched := by
  refine always_iff_meets_config preserved (fun ⟨_, inv, _⟩ => holds inv) (fun {c i op k x} _ atAwait broken => ?_) tracked
  obtain ⟨reply, s', executed, broken⟩ := breaks broken
  exact ⟨{ store := s', threads := Function.update c.threads i (k reply) },
    by simp [Semantics.resume, atAwait, executed], broken⟩

end Runs

section Updates
variable {κ β γ : Type} [DecidableEq κ] {f : κ → β} {a k : κ} {b c : β}

theorem updated (here : Function.update f a b k = c) : k = a ∧ b = c ∨ k ≠ a ∧ f k = c := by
  rw [Function.update_apply] at here
  split at here
  · exact Or.inl ⟨‹_›, here⟩
  · exact Or.inr ⟨‹_›, here⟩

theorem updated_map {g : β → γ} {c : γ} (here : g (Function.update f a b k) = c) : k = a ∧ g b = c ∨ k ≠ a ∧ g (f k) = c := by
  rw [Function.update_apply] at here
  split at here
  · exact Or.inl ⟨‹_›, here⟩
  · exact Or.inr ⟨‹_›, here⟩

end Updates
end Concurrency
