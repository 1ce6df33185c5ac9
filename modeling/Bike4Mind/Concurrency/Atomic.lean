import Bike4Mind.Concurrency.Protocol

/-!
Programs run as one atomic block: every await is answered by the store at once. The rules take a run
that returned apart, step by step.
-/

namespace Concurrency.Program
variable {Op : Type} {Value : Op → Type} {ε σ α β : Type}
variable {perform : (op : Op) → σ → Except ε (Value op) × σ}

def exec (perform : (op : Op) → σ → Except ε (Value op) × σ) : Program Op Value ε α → σ → Except ε α × σ
  | .pure a, s => (.ok a, s)
  | .throw e, s => (.error e, s)
  | .await op k, s => (k (perform op s).1).exec perform (perform op s).2

theorem exec_perform (op : Op) (s : σ) : (Program.perform op).exec perform s = perform op s := by
  show (settle (perform op s).1).exec perform (perform op s).2 = perform op s
  generalize perform op s = out
  obtain ⟨reply, s'⟩ := out
  cases reply <;> rfl

theorem exec_bind {program : Program Op Value ε α} {f : α → Program Op Value ε β} {s : σ} :
    (program.bind f).exec perform s = match program.exec perform s with
      | (.ok a, mid) => (f a).exec perform mid
      | (.error e, mid) => (.error e, mid) := by
  induction program generalizing s with
  | pure a => rfl
  | throw e => rfl
  | await op k ih => exact ih _

theorem exec_tryCatch {program : Program Op Value ε α} {handle : ε → Program Op Value ε α} {s : σ} :
    (program.tryCatch handle).exec perform s = match program.exec perform s with
      | (.ok a, mid) => (.ok a, mid)
      | (.error e, mid) => (handle e).exec perform mid := by
  induction program generalizing s with
  | pure a => rfl
  | throw e => rfl
  | await op k ih => exact ih _

theorem exec_returned {program : Program Op Value ε α} {s : σ} {a : α}
    (h : (program.exec perform s).1.toOption = some a) : program.exec perform s = (.ok a, (program.exec perform s).2) := by
  cases ran : program.exec perform s with
  | mk reply s' =>
    rw [ran] at h
    cases reply with
    | ok b =>
      cases h
      rfl
    | error e => cases h

theorem exec_bind_ok {program : Program Op Value ε α} {f : α → Program Op Value ε β} {s s' : σ} {b : β}
    (h : (program.bind f).exec perform s = (.ok b, s')) :
    ∃ a mid, program.exec perform s = (.ok a, mid) ∧ (f a).exec perform mid = (.ok b, s') := by
  induction program generalizing s with
  | pure a => exact ⟨a, s, rfl, h⟩
  | throw e => cases h
  | await op k ih => exact ih _ h

theorem exec_tryCatch_ok {program : Program Op Value ε α} {handle : ε → Program Op Value ε α} {s s' : σ} {a : α}
    (h : (program.tryCatch handle).exec perform s = (.ok a, s')) :
    program.exec perform s = (.ok a, s') ∨
      ∃ e mid, program.exec perform s = (.error e, mid) ∧ (handle e).exec perform mid = (.ok a, s') := by
  induction program generalizing s with
  | pure b => exact Or.inl h
  | throw e => exact Or.inr ⟨e, s, rfl, h⟩
  | await op k ih => exact ih _ h

theorem exec_only {allowed : Op → Prop} {program : Program Op Value ε α} (only : Only allowed program)
    (stays : ∀ op s, allowed op → (perform op s).2 = s) (s : σ) : (program.exec perform s).2 = s := by
  induction program generalizing s with
  | pure a => rfl
  | throw e => rfl
  | await op k ih =>
    have rest := ih _ (only.2 (perform op s).1) (perform op s).2
    rw [stays op s only.1] at rest
    exact (congrArg (fun t => ((k (perform op s).1).exec perform t).2) (stays op s only.1)).trans rest

end Concurrency.Program
