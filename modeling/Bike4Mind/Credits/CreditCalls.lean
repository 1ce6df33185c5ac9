import Bike4Mind.Concurrency.Protocol
import Bike4Mind.Credits.CreditHold

/-!
Which of the adapters' calls the parts of a hold make, whatever operations stand behind the adapters.
-/

namespace Bike4Mind.Credits
open Concurrency

/-- The calls that write a balance. -/
def CreditOp.increments : CreditOp → Bool
  | .incrementCredits .. => true
  | _ => false

/-- The calls that write at all. -/
def CreditOp.writes : CreditOp → Bool
  | .incrementCredits .. | .deductCredits .. => true
  | _ => false

variable {Op : Type} {Value : Op → Type} {call : (op : CreditOp) → Program Op Value JsError op.Value} {allowed : Op → Prop}

section Holding
variable (reads : ∀ op : CreditOp, op.writes = false → Only allowed (call op))
include reads

theorem notifyInsufficientCredits_only {userId : String} {refusal : CreditRefusal} :
    Only allowed (notifyInsufficientCredits (.ofCalls call) userId refusal) :=
  only_tryCatch (reads _ rfl) fun _ => trivial

theorem loadOrganization_only {organizationId : Option String} : Only allowed (loadOrganization organizationId (.ofCalls call)) := by
  unfold loadOrganization
  split
  · trivial
  · trivial
  · refine only_bind (reads _ rfl) fun organization => ?_
    cases organization <;> trivial

theorem assertMemberCap_only {request : HoldRequest} {required : ℚ} {organization : Option Organization} :
    Only allowed (assertMemberCap request required organization (.ofCalls call)) := by
  unfold assertMemberCap
  split
  · exact only_bind (notifyInsufficientCredits_only reads) fun _ => trivial
  · trivial

end Holding

section Settling
variable {hold : CreditHold}

theorem deductHeldCredits_only {charged settledHolder : ℚ} {entry : CreditLedgerEntry}
    (calls : ∀ op : CreditOp, op.increments = false → Only allowed (call op)) :
    Only allowed (deductHeldCredits hold charged settledHolder entry (.ofCalls call)) := by
  refine only_bind (calls _ rfl) fun found => ?_
  split
  · trivial
  · split
    · exact calls _ rfl
    · exact calls _ rfl
    · refine only_bind (calls _ rfl) fun organization => ?_
      cases organization with
      | none => trivial
      | some organization => exact calls _ rfl

theorem onWriteFailure_only {α : Type} {rethrow : Bool} {a : α} {err : JsError} :
    Only allowed (onWriteFailure rethrow a err : Program Op Value JsError α) := by
  unfold onWriteFailure
  split <;> trivial

variable (calls : ∀ op, Only allowed (call op))
include calls

theorem releaseCreditHold_only : Only allowed (releaseCreditHold hold (.ofCalls call)) := by
  unfold releaseCreditHold
  split
  · trivial
  · exact only_bind (calls _) fun _ => trivial

theorem settleCreditHold_only {charged : JsNumber} {entry : CreditLedgerEntry} {rethrow : Bool} :
    Only allowed (settleCreditHold hold charged entry rethrow (.ofCalls call)) := by
  refine only_bind ?_ fun settledHolder => ?_
  · unfold refundOverReserved
    split
    · exact only_tryCatch (only_bind (calls _) fun _ => trivial) fun _ => onWriteFailure_only
    · trivial
  · split
    · trivial
    · exact only_bind (only_tryCatch (deductHeldCredits_only fun op _ => calls op) fun _ => onWriteFailure_only) fun _ => trivial

end Settling
end Bike4Mind.Credits
