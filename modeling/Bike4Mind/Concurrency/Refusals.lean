import Mathlib.Logic.Basic

/-! Calls over a store that may refuse: what a run returned, and calls that leave the store alone when they refuse. -/

namespace Concurrency

section Runs
variable {ε σ α β : Type} {x : EStateM ε σ α} {f : α → EStateM ε σ β} {s s' : σ} {a : α} {b : β} {e : ε}

theorem run_bind_ok : (x >>= f) s = .ok b s' ↔ ∃ (a : α) (middle : σ), x s = .ok a middle ∧ f a middle = .ok b s' := by
  show EStateM.bind x f s = _ ↔ _
  unfold EStateM.bind
  cases x s with
  | ok a middle =>
    constructor
    · intro rest
      exact ⟨a, middle, rfl, rest⟩
    · rintro ⟨_, _, same, rest⟩
      cases same
      exact rest
  | error e middle =>
    constructor
    · intro refused
      cases refused
    · rintro ⟨_, _, same, _⟩
      cases same

theorem run_bind_error : (x >>= f) s = .error e s' ↔
    x s = .error e s' ∨ ∃ (a : α) (middle : σ), x s = .ok a middle ∧ f a middle = .error e s' := by
  show EStateM.bind x f s = _ ↔ _
  unfold EStateM.bind
  cases x s with
  | ok a middle =>
    constructor
    · intro rest
      exact Or.inr ⟨a, middle, rfl, rest⟩
    · rintro (same | ⟨_, _, same, rest⟩)
      · cases same
      · cases same
        exact rest
  | error e middle =>
    constructor
    · intro refused
      cases refused
      exact Or.inl rfl
    · rintro (same | ⟨_, _, same, _⟩)
      · cases same
        rfl
      · cases same

theorem run_pure_ok {other : α} : (pure a : EStateM ε σ α) s = .ok other s' ↔ a = other ∧ s = s' := by
  show EStateM.Result.ok a s = .ok other s' ↔ _
  constructor
  · intro same
    cases same
    exact ⟨rfl, rfl⟩
  · rintro ⟨rfl, rfl⟩
    rfl

end Runs

section Calls
variable {ε σ α β : Type}

/-- The call leaves the store as it was, whether it returns or refuses. -/
structure Reads (x : EStateM ε σ α) : Prop where
  ok : ∀ (s s' : σ) (a : α), x s = .ok a s' → s' = s
  error : ∀ (s s' : σ) (e : ε), x s = .error e s' → s' = s

/-- The call always returns. -/
def Returns (x : EStateM ε σ α) : Prop := ∀ (s s' : σ) (e : ε), x s ≠ .error e s'

theorem reads_pure (a : α) : Reads (pure a : EStateM ε σ α) where
  ok _ _ _ same := (run_pure_ok.mp same).2.symm
  error _ _ _ refused := by cases refused

theorem reads_throw (e : ε) : Reads (throw e : EStateM ε σ α) where
  ok _ _ _ same := by cases same
  error _ _ _ refused := by
    cases refused
    rfl

theorem reads_get : Reads (get : EStateM ε σ σ) where
  ok _ _ _ same := by
    cases same
    rfl
  error _ _ _ refused := by cases refused

theorem Reads.bind {x : EStateM ε σ α} {f : α → EStateM ε σ β} (first : Reads x) (rest : ∀ a : α, Reads (f a)) : Reads (x >>= f) where
  ok s s' b run := by
    obtain ⟨a, middle, ran, later⟩ := run_bind_ok.mp run
    exact ((rest a).ok middle s' b later).trans (first.ok s middle a ran)
  error s s' e run := by
    rcases run_bind_error.mp run with refused | ⟨a, middle, ran, later⟩
    · exact first.error s s' e refused
    · exact ((rest a).error middle s' e later).trans (first.ok s middle a ran)

theorem Returns.bind {x : EStateM ε σ α} {f : α → EStateM ε σ β} (first : Returns x) (rest : ∀ a : α, Returns (f a)) :
    Returns (x >>= f) := by
  intro s s' e run
  rcases run_bind_error.mp run with refused | ⟨a, middle, _, later⟩
  · exact first s s' e refused
  · exact rest a middle s' e later

/-- Checks first, writes after: a refusal leaves the store as it was. -/
theorem refusal_writes_nothing {x : EStateM ε σ α} {f : α → EStateM ε σ β} (checks : Reads x) (writes : ∀ a : α, Returns (f a))
    {s s' : σ} {e : ε} (refused : (x >>= f) s = .error e s') : s' = s := by
  rcases run_bind_error.mp refused with early | ⟨a, middle, _, late⟩
  · exact checks.error s s' e early
  · exact absurd late (writes a middle s' e)

end Calls
end Concurrency
