import Bike4Mind.Concurrency.Program

/-!
Runs of any number of programs over one shared store. Each scheduled action is one atomic operation
of one thread, or a move of the environment. A thread that is never scheduled again has crashed.
-/

namespace Concurrency

/-- What one operation does to the store, given the choice the outside world makes for it, and how
the environment moves the store. `none` is a choice that cannot be made there. -/
structure Semantics (ι σ Op : Type) (Value : Op → Type) (ε χ η : Type) where
  exec : ι → σ → (op : Op) → χ → Option (Except ε (Value op) × σ)
  env : σ → η → Option σ

inductive Action (ι χ η : Type) where
  | resume (thread : ι) (choice : χ)
  | env (move : η)

structure Config (ι σ Op : Type) (Value : Op → Type) (ε α : Type) where
  store : σ
  threads : ι → Program Op Value ε α

namespace Semantics
variable {ι σ Op : Type} {Value : Op → Type} {ε χ η α : Type} [DecidableEq ι]
variable (S : Semantics ι σ Op Value ε χ η)

/-- Thread `i` performs the operation it awaits and continues with the reply. -/
def resume (c : Config ι σ Op Value ε α) (i : ι) (x : χ) : Option (Config ι σ Op Value ε α) :=
  match c.threads i with
  | .await op next => (S.exec i c.store op x).map fun out =>
      { store := out.2, threads := Function.update c.threads i (next out.1) }
  | _ => none

def step (c : Config ι σ Op Value ε α) : Action ι χ η → Option (Config ι σ Op Value ε α)
  | .resume i x => S.resume c i x
  | .env e => (S.env c.store e).map fun s => { c with store := s }

def run (c : Config ι σ Op Value ε α) : List (Action ι χ η) → Option (Config ι σ Op Value ε α)
  | [] => some c
  | a :: rest => (S.step c a).bind fun c' => run c' rest

/-- The next action meets `cond`, a condition on the store before the operation. -/
def StepMeets (cond : ι → σ → Op → χ → Prop) (c : Config ι σ Op Value ε α) : Action ι χ η → Prop
  | .resume i x => ∀ op next, c.threads i = .await op next → cond i c.store op x
  | .env _ => True

/-- Every action of the run meets `cond`. -/
def Meets (cond : ι → σ → Op → χ → Prop) (c : Config ι σ Op Value ε α) : List (Action ι χ η) → Prop
  | [] => True
  | a :: rest => StepMeets cond c a ∧ ∀ c', S.step c a = some c' → Meets cond c' rest

section Decidable
variable {cond : ι → σ → Op → χ → Prop} [∀ i s op x, Decidable (cond i s op x)]

instance (c : Config ι σ Op Value ε α) : (a : Action ι χ η) → Decidable (StepMeets cond c a)
  | .env _ => .isTrue trivial
  | .resume i x =>
    match atAwait : c.threads i with
    | .await op next => decidable_of_iff (cond i c.store op x) ⟨
        fun meets op' next' same => by
          cases atAwait.symm.trans same
          exact meets,
        fun meets => meets op next atAwait⟩
    | .pure _ => .isTrue fun op next same => by cases atAwait.symm.trans same
    | .throw _ => .isTrue fun op next same => by cases atAwait.symm.trans same

instance decidableMeets : (c : Config ι σ Op Value ε α) → (sched : List (Action ι χ η)) →
    Decidable (S.Meets cond c sched)
  | _, [] => .isTrue trivial
  | c, a :: rest =>
    match stepped : S.step c a with
    | none => decidable_of_iff (StepMeets cond c a) ⟨
        fun here => ⟨here, fun c' same => by cases stepped.symm.trans same⟩,
        fun meets => meets.1⟩
    | some mid =>
      have := decidableMeets mid rest
      decidable_of_iff (StepMeets cond c a ∧ S.Meets cond mid rest) ⟨
        fun ⟨here, later⟩ => ⟨here, fun c' same => by
          cases stepped.symm.trans same
          exact later⟩,
        fun meets => ⟨meets.1, meets.2 mid stepped⟩⟩

end Decidable

/-- `P` holds in every state the run visits. -/
def Always (P : Config ι σ Op Value ε α → Prop) (c : Config ι σ Op Value ε α) : List (Action ι χ η) → Prop
  | [] => P c
  | a :: rest => P c ∧ ∀ c', S.step c a = some c' → Always P c' rest

variable {S}

theorem run_cons {c c' : Config ι σ Op Value ε α} {a : Action ι χ η} {rest : List (Action ι χ η)} :
    S.run c (a :: rest) = some c' ↔ ∃ mid, S.step c a = some mid ∧ S.run mid rest = some c' := by
  simp [run, Option.bind_eq_some_iff]

theorem run_append {c c' : Config ι σ Op Value ε α} {before after : List (Action ι χ η)} :
    S.run c (before ++ after) = some c' ↔ ∃ mid, S.run c before = some mid ∧ S.run mid after = some c' := by
  induction before generalizing c with
  | nil => simp [run]
  | cons a rest ih =>
    simp only [List.cons_append, run_cons, ih]
    constructor
    · rintro ⟨first, stepped, mid, ran, rest⟩
      exact ⟨mid, ⟨first, stepped, ran⟩, rest⟩
    · rintro ⟨mid, ⟨first, stepped, ran⟩, rest⟩
      exact ⟨first, stepped, mid, ran, rest⟩

theorem meets_all {cond : ι → σ → Op → χ → Prop} (all : ∀ i s op x, cond i s op x) {c : Config ι σ Op Value ε α}
    {sched : List (Action ι χ η)} : S.Meets cond c sched := by
  induction sched generalizing c with
  | nil => trivial
  | cons a rest ih =>
    refine ⟨?_, fun c' _ => ih⟩
    cases a with
    | env e => trivial
    | resume i x => exact fun op next _ => all i c.store op x

theorem meets_append {cond : ι → σ → Op → χ → Prop} {c mid : Config ι σ Op Value ε α}
    {before after : List (Action ι χ η)} (ran : S.run c before = some mid) :
    S.Meets cond c (before ++ after) ↔ S.Meets cond c before ∧ S.Meets cond mid after := by
  induction before generalizing c with
  | nil =>
    cases ran
    simp [Meets]
  | cons a rest ih =>
    obtain ⟨first, stepped, ran⟩ := run_cons.mp ran
    have unique : ∀ c', S.step c a = some c' → c' = first := fun c' h => Option.some.inj (h.symm.trans stepped)
    simp only [List.cons_append, Meets]
    constructor
    · rintro ⟨here, later⟩
      obtain ⟨left, right⟩ := (ih ran).mp (later first stepped)
      exact ⟨⟨here, fun c' h => by rw [unique c' h]; exact left⟩, right⟩
    · rintro ⟨⟨here, later⟩, right⟩
      exact ⟨here, fun c' h => by rw [unique c' h]; exact (ih ran).mpr ⟨later first stepped, right⟩⟩

theorem always_iff {P : Config ι σ Op Value ε α → Prop} {c : Config ι σ Op Value ε α} {sched : List (Action ι χ η)} :
    S.Always P c sched ↔ ∀ before after mid, sched = before ++ after → S.run c before = some mid → P mid := by
  induction sched generalizing c with
  | nil =>
    simp only [Always]
    constructor
    · intro here before after mid split ran
      obtain ⟨rfl, rfl⟩ := List.append_eq_nil_iff.mp split.symm
      cases ran
      exact here
    · intro all
      exact all [] [] c rfl rfl
  | cons a rest ih =>
    simp only [Always]
    constructor
    · rintro ⟨here, later⟩ before after mid split ran
      cases before with
      | nil =>
        cases ran
        exact here
      | cons b before =>
        obtain ⟨rfl, tail⟩ := List.cons.inj split
        obtain ⟨first, stepped, ran⟩ := run_cons.mp ran
        exact ih.mp (later first stepped) before after mid tail ran
    · intro all
      refine ⟨all [] (a :: rest) c rfl rfl, fun c' stepped => ih.mpr ?_⟩
      intro before after mid split ran
      exact all (a :: before) after mid (by rw [split, List.cons_append]) (run_cons.mpr ⟨c', stepped, ran⟩)

theorem resume_some {c c' : Config ι σ Op Value ε α} {i : ι} {x : χ} (h : S.resume c i x = some c') :
    ∃ op next reply store, c.threads i = .await op next ∧ S.exec i c.store op x = some (reply, store) ∧
      c' = { store := store, threads := Function.update c.threads i (next reply) } := by
  unfold resume at h
  split at h
  · rename_i op next atAwait
    obtain ⟨⟨reply, store⟩, executed, rfl⟩ := Option.map_eq_some_iff.mp h
    exact ⟨op, next, reply, store, atAwait, executed, rfl⟩
  · cases h

theorem env_some {c c' : Config ι σ Op Value ε α} {e : η} (h : S.step c (.env e) = some c') :
    ∃ store, S.env c.store e = some store ∧ c' = { c with store := store } := by
  obtain ⟨store, moved, rfl⟩ := Option.map_eq_some_iff.mp h
  exact ⟨store, moved, rfl⟩

end Semantics
end Concurrency
