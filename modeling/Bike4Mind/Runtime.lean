import Mathlib.Data.Rat.Defs
import Mathlib.Algebra.Order.Ring.Rat

/-! What the server code takes from its runtime: dates, numbers and the errors it throws. -/

namespace Bike4Mind

/-- A `Date`, in milliseconds since the epoch. -/
abbrev Time := Int

/-- A JavaScript number, with exact arithmetic on the finite ones. -/
inductive JsNumber where
  | finite (value : ℚ)
  | nan
  | infinity
  | negInfinity
  deriving DecidableEq

inductive CreditRefusal where
  | memberCap (featureLabel : String)
  | newAccountCap (message : String)
  | balance (featureLabel : String) (availableCredits requiredCredits : ℚ) (isOrganization : Bool)
  deriving DecidableEq

inductive JsError where
  -- `Error`, and any rejection of an adapter that the code does not tell apart.
  | error (message : String)
  | badRequest (message : String)
  -- The 422 whose quest error code is `insufficient_credits`.
  | insufficientCredits (refusal : CreditRefusal)
  -- A driver error with code 11000.
  | duplicateKey (message : String)
  | unauthorized (message : String)
  | tooManyRequests (message : String)
  deriving DecidableEq

namespace JsError

def CREDIT_LIMIT_HINT : String := "Contact your organization administrator."

/-- `error.message`, which a retried step records as its reason. -/
def message : JsError → String
  | .error m | .badRequest m | .duplicateKey m | .unauthorized m | .tooManyRequests m => m
  | .insufficientCredits (.memberCap label) =>
    s!"Your organization member credit limit has been reached for {label}. {CREDIT_LIMIT_HINT}"
  | .insufficientCredits (.newAccountCap m) => m
  | .insufficientCredits (.balance label available required true) =>
    s!"Your organization does not have enough credits for {label}. It currently has {available} credits and this requires approximately {required}."
  | .insufficientCredits (.balance label available required false) =>
    s!"You do not have enough credits for {label}. You currently have {available} credits and this requires approximately {required}."

end JsError

theorem bind_ok {ε α β : Type} {x : Except ε α} {f : α → Except ε β} {b : β} (h : x >>= f = .ok b) : ∃ a, x = .ok a ∧ f a = .ok b := by
  cases x with
  | error e => cases h
  | ok a => exact ⟨a, rfl, h⟩

end Bike4Mind
