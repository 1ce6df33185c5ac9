import Mathlib.Logic.Function.Basic

/-!
Async functions as trees of awaits. A `Program` runs up to its next await, hands the operation to
its surroundings and continues with the settled promise, so an interleaving of many calls is an
interleaving of their awaits and of nothing finer.
-/

namespace Concurrency

/-- An async function cut at its awaits. The reply is `ok` when the promise resolves and `error`
when it rejects. -/
inductive Program (Op : Type) (Value : Op → Type) (ε α : Type) where
  | pure (a : α)
  | throw (e : ε)
  | await (op : Op) (next : Except ε (Value op) → Program Op Value ε α)

namespace Program
variable {Op : Type} {Value : Op → Type} {ε α β : Type}

def bind : Program Op Value ε α → (α → Program Op Value ε β) → Program Op Value ε β
  | .pure a, f => f a
  | .throw e, _ => .throw e
  | .await op next, f => .await op fun r => (next r).bind f

def tryCatch : Program Op Value ε α → (ε → Program Op Value ε α) → Program Op Value ε α
  | .pure a, _ => .pure a
  | .throw e, handle => handle e
  | .await op next, handle => .await op fun r => (next r).tryCatch handle

instance : Monad (Program Op Value ε) where
  pure := .pure
  bind := .bind

instance : MonadExcept ε (Program Op Value ε) where
  throw := .throw
  tryCatch := .tryCatch

/-- The program of a settled promise. -/
def settle : Except ε α → Program Op Value ε α
  | .ok a => .pure a
  | .error e => .throw e

/-- `await` one operation; a rejection is thrown. -/
def perform (op : Op) : Program Op Value ε (Value op) := .await op settle

/-- The promise of the call has settled. -/
def settled : Program Op Value ε α → Bool
  | .await .. => false
  | _ => true

/-- The operation the call waits for. -/
def awaited? : Program Op Value ε α → Option Op
  | .await op _ => some op
  | _ => none

/-- What the call returned. -/
def result? : Program Op Value ε α → Option α
  | .pure a => some a
  | _ => none

theorem awaited_some {p : Program Op Value ε α} {op : Op} (h : p.awaited? = some op) : ∃ next, p = .await op next := by
  cases p with
  | pure a => cases h
  | throw e => cases h
  | await op' next =>
    cases h
    exact ⟨next, rfl⟩

theorem result_some {p : Program Op Value ε α} {a : α} (h : p.result? = some a) : p = .pure a := by
  cases p with
  | pure b =>
    cases h
    rfl
  | throw e => cases h
  | await op next => cases h

/-- The same program over a larger set of operations. -/
def embed {Op' : Type} {Value' : Op' → Type} (lift : Op → Op') (same : ∀ op, Value' (lift op) = Value op) :
    Program Op Value ε α → Program Op' Value' ε α
  | .pure a => .pure a
  | .throw e => .throw e
  | .await op next => .await (lift op) fun r => (next (same op ▸ r)).embed lift same

end Program
end Concurrency
