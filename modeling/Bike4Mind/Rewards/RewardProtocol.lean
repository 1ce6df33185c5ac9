import Bike4Mind.Rewards.RewardCalls

/-! What a run may do next, by the draw it holds and what it has written under it. -/

namespace Bike4Mind.Rewards
open Concurrency

inductive Phase where
  -- Nothing is written; the draw may still be handed back.
  | out (d : Option Draw)
  | pooled (setting : Option PoolBudget)
  | opened (d : Option Draw)
  | buffered (d : Option Draw) (transactionId : String)
  -- The credit of the buffered row was tried.
  | completed (d : Option Draw) (transactionId : String)
  | inserted (d : Option Draw) (transactionId : String)
  -- The row may be committed.
  | tried (d : Option Draw)

/-- No transaction is open and no credit is due. -/
def Closed : Phase → Prop
  | .out _ | .pooled _ | .tried _ => True
  | _ => False

/-- Inside a transaction, with this draw. -/
def Within (d : Option Draw) : Phase → Prop
  | .opened d' | .buffered d' _ | .completed d' _ => d' = d
  | _ => False

def Op.passive : Op → Prop
  | ask _ | budgetSetting | getSpent _ | findTransaction _ => True
  | _ => False

/-- The row a run writes under its draw. -/
structure RowFor (d : Option Draw) (row : LedgerRow) : Prop where
  drawnOn : row.drawnOn = d.map (·.key)
  transactionId : ∀ h, d = some h → row.transactionId = h.transactionId
  unmetered : d = none → row.metered = false

inductive Moves : Protocol Phase Op Op.Value RewardError
  | stays {p : Phase} {op : Op} {reply : Except RewardError op.Value} : op.passive → Moves p op reply p
  | forgets {p : Phase} {op : Op} {reply : Except RewardError op.Value} : op.passive → Closed p → Moves p op reply (.out none)
  | pools {setting : Option PoolBudget} : Moves (.out none) .budgetSetting (.ok setting) (.pooled setting)
  | draws {b : PoolBudget} {key id : String} {amount : ℚ} {r : BudgetReservation} : 0 < amount → r.fresh = true →
      Moves (.pooled (some b)) (.reserve key id amount b.value) (.ok (some r)) (.out (some ⟨key, id, amount⟩))
  | reserves {b : PoolBudget} {key id : String} {amount : ℚ} {reply : Except RewardError (Option BudgetReservation)} : 0 < amount →
      Moves (.pooled (some b)) (.reserve key id amount b.value) reply (.out none)
  | refunds {h : Draw} {reply : Except RewardError Unit} :
      Moves (.out (some h)) (.refund h.key h.transactionId h.amount) reply (.out none)
  | opens {d : Option Draw} : Moves (.out d) .beginTransaction (.ok ()) (.opened d)
  | opensNot {d : Option Draw} {err : RewardError} : Moves (.out d) .beginTransaction (.error err) (.out d)
  | inserts {d : Option Draw} {row : LedgerRow} {rowId : String} : RowFor d row →
      Moves (.out d) (.createTransaction row) (.ok (some rowId)) (.inserted d row.transactionId)
  | insertsDuplicate {d : Option Draw} {row : LedgerRow} : RowFor d row → Moves (.out d) (.createTransaction row) (.ok none) (.out d)
  | insertsUnsure {d : Option Draw} {row : LedgerRow} {err : RewardError} : RowFor d row →
      Moves (.out d) (.createTransaction row) (.error err) (.tried d)
  | buffers {d : Option Draw} {row : LedgerRow} {rowId : String} : RowFor d row →
      Moves (.opened d) (.createTransaction row) (.ok (some rowId)) (.buffered d row.transactionId)
  | buffersDuplicate {d : Option Draw} {row : LedgerRow} : RowFor d row → Moves (.opened d) (.createTransaction row) (.ok none) (.opened d)
  | buffersUnsure {d : Option Draw} {row : LedgerRow} {err : RewardError} : RowFor d row →
      Moves (.opened d) (.createTransaction row) (.error err) (.completed d row.transactionId)
  | credits {d : Option Draw} {id ownerId : String} {amount : ℚ} {reply : Except RewardError Bool} :
      Moves (.inserted d id) (.incrementCredits ownerId amount id) reply (.tried d)
  | creditsBuffered {d : Option Draw} {id ownerId : String} {amount : ℚ} {reply : Except RewardError Bool} :
      Moves (.buffered d id) (.incrementCredits ownerId amount id) reply (.completed d id)
  | commitsNothing {d : Option Draw} : Moves (.opened d) .commitTransaction (.ok ()) (.out d)
  | commits {d : Option Draw} {id : String} : Moves (.completed d id) .commitTransaction (.ok ()) (.tried d)
  | rollsBack {d : Option Draw} {p : Phase} {err : RewardError} : Within d p → Moves p .commitTransaction (.error err) (.out d)
  | aborts {d : Option Draw} {p : Phase} {reply : Except RewardError Unit} : Within d p → Moves p .abortTransaction reply (.out d)
  | unwritten {d : Option Draw} {id : String} : (∀ h, d = some h → h.transactionId = id) →
      Moves (.tried d) (.findTransaction id) (.ok false) (.out d)

/-- Every call ends with no transaction open. -/
def Rests {α : Type} : Except RewardError α → Phase → Prop := fun _ => Closed

section Passive
variable {α : Type} {p : Phase}

theorem passive_follows {program : Call α} (only : Only Op.passive program) : Follows Moves (fun _ q => q = p) program p :=
  only.follows (fun _ _ passive => .stays passive) fun _ => rfl

theorem partiesBlock_only {reward : HeldCreditRewardInput} : Only Op.passive (partiesBlock reward) := by
  refine only_bind (only_perform trivial) fun user => ?_
  dsimp only
  split
  · trivial
  · split
    · exact only_bind (only_perform trivial) fun friend => trivial
    · trivial

theorem resolvePoolBudget_only : Only Op.passive resolvePoolBudget := by
  refine only_bind (only_perform trivial) fun setting => ?_
  cases setting <;> trivial

theorem alertCrossing_only {key : String} {threshold : SignupGrantBudgetThreshold} {readSpent : Call ℚ}
    (reads : Only Op.passive readSpent) : Only Op.passive (alertCrossing key threshold readSpent) := by
  refine only_tryCatch (only_bind (only_perform trivial) fun marked => ?_) fun _ => trivial
  split
  · exact only_bind reads fun _ => trivial
  · trivial

theorem alertWhen_only {crossed : Bool} {key : String} {threshold : SignupGrantBudgetThreshold} {readSpent : Call ℚ}
    (reads : Only Op.passive readSpent) : Only Op.passive (alertWhen crossed key threshold readSpent) := by
  unfold alertWhen
  split
  · exact alertCrossing_only reads
  · trivial

theorem queueHeadBlocks_only {a : Adapters} {amount : ℚ} : Only Op.passive (queueHeadBlocks a amount) := by
  unfold queueHeadBlocks
  split
  · trivial
  · refine only_bind (only_perform trivial) fun day => only_bind resolvePoolBudget_only fun pool => ?_
    refine only_bind (only_perform trivial) fun oldest => ?_
    split
    · trivial
    · exact only_bind (only_perform trivial) fun spent => trivial

theorem holdReward_only {reward : HeldCreditRewardInput} : Only Op.passive (holdReward reward) := by
  refine only_bind (only_perform trivial) fun _ => only_bind (only_perform trivial) fun user => ?_
  split
  · exact only_bind (only_perform trivial) fun _ => trivial
  · trivial

theorem stampCreditLot_only {a : Adapters} {ownerId : String} {amount : ℚ} : Only Op.passive (stampCreditLot a ownerId amount) := by
  unfold stampCreditLot
  split
  · exact only_tryCatch (only_perform trivial) fun _ => trivial
  · trivial

theorem afterPayout_settles {reward : HeldCreditRewardInput} {result : ReleaseHeldCreditRewardsResult} {paid : PayNowResult} :
    Only Op.passive (afterPayout reward result paid) := by
  cases paid with
  | exhausted =>
    refine only_bind resolvePoolBudget_only fun pool => ?_
    split <;> trivial
  | contended => trivial
  | blocked => trivial
  | duplicate => exact only_bind (only_perform trivial) fun _ => trivial
  | paid creditTransactionId => exact only_bind (only_perform trivial) fun _ => trivial

theorem passive_rests {program : Call α} (only : Only Op.passive program) (closed : Closed p) : Follows Moves Rests program p :=
  follows_mono (passive_follows only) fun _ q same => by
    rw [same]
    exact closed

theorem passive_then {β : Type} {program : Call α} {f : α → Call β} {post : Except RewardError β → Phase → Prop}
    (only : Only Op.passive program) (rest : ∀ a, Follows Moves post (f a) p) (rejected : ∀ e, post (.error e) p) :
    Follows Moves post (program.bind f) p :=
  follows_seq (passive_follows only) (fun a q same => by rw [same]; exact rest a) fun e q same => by rw [same]; exact rejected e

end Passive

/-! ### Reserving -/

section Reserving
variable {a : Adapters} {reward : HeldCreditRewardInput} {d : Option Draw}

/-- What a reservation leaves behind: nothing metered, a draw to hand back, or no right to pay. -/
def Reserved (a : Adapters) (reward : HeldCreditRewardInput) : Except RewardError SignupGrantBudgetReservation → Phase → Prop
  | .ok r, p =>
    (r.outcome = .unmetered ∧ r.draw = none ∧ p = .out none ∧ (a.grantBudget && decide (0 < reward.credits)) = false) ∨
    (r.outcome = .exhausted ∨ r.outcome = .reserved ∧ r.fresh = false) ∧ Closed p ∨
    (r.outcome = .reserved ∧ r.fresh = true ∧ ∃ h, r.draw = some h ∧ h.transactionId = reward.transactionId ∧ p = .out (some h))
  | .error _, p => Closed p

theorem drawFrom_follows {b : PoolBudget} {key : String} (due : 0 < reward.credits) :
    Follows Moves (Reserved a reward) (drawFrom key reward.transactionId reward.credits b.value) (.pooled (some b)) := by
  refine follows_then (fun reservation => ?_) fun e => ⟨.out none, .reserves due, trivial⟩
  cases reservation with
  | none =>
    refine ⟨.out none, .reserves due, passive_then (alertCrossing_only (only_perform trivial)) (fun _ => ?_) fun _ => trivial⟩
    exact Or.inr (Or.inl ⟨Or.inl rfl, trivial⟩)
  | some r =>
    cases fresh : r.fresh with
    | true =>
      refine ⟨.out (some ⟨key, reward.transactionId, reward.credits⟩), .draws due fresh, ?_⟩
      refine passive_then (alertWhen_only trivial) (fun _ => ?_) fun _ => trivial
      refine passive_then (alertWhen_only trivial) (fun _ => ?_) fun _ => trivial
      exact Or.inr (Or.inr ⟨rfl, fresh, _, if_pos fresh, rfl, rfl⟩)
    | false =>
      refine ⟨.out none, .reserves due, ?_⟩
      refine passive_then (alertWhen_only trivial) (fun _ => ?_) fun _ => trivial
      refine passive_then (alertWhen_only trivial) (fun _ => ?_) fun _ => trivial
      exact Or.inr (Or.inl ⟨Or.inr ⟨rfl, fresh⟩, trivial⟩)

theorem reserve_follows : Follows Moves (Reserved a reward) (reserveSignupGrantBudget a reward.transactionId reward.credits) (.out none) := by
  unfold reserveSignupGrantBudget
  by_cases unmetered : (!a.grantBudget || decide (reward.credits ≤ 0)) = true
  · rw [if_pos unmetered]
    refine Or.inl ⟨rfl, rfl, rfl, ?_⟩
    cases wired : a.grantBudget with
    | false => rfl
    | true =>
      rw [wired] at unmetered
      have none_due : reward.credits ≤ 0 := by simpa using unmetered
      simpa using none_due
  · rw [if_neg unmetered]
    have due : 0 < reward.credits := by
      by_contra none_due
      exact unmetered (by simp [not_lt.mp none_due])
    refine follows_then (fun day => ⟨.out none, .stays trivial, ?_⟩) fun e => ⟨.out none, .stays trivial, trivial⟩
    refine follows_bind (follows_then (fun setting => ⟨.pooled setting, .pools, ?_⟩) fun e => ⟨.out none, .stays trivial, trivial⟩)
    cases setting with
    | none =>
      refine passive_then (alertWhen_only (only_perform trivial)) (fun _ => ?_) fun _ => trivial
      rw [if_pos (le_refl (0 : ℚ))]
      exact Or.inr (Or.inl ⟨Or.inl rfl, trivial⟩)
    | some b =>
      refine passive_then (alertWhen_only (only_perform trivial)) (fun _ => ?_) fun _ => trivial
      dsimp only
      split
      · exact Or.inr (Or.inl ⟨Or.inl rfl, trivial⟩)
      · exact drawFrom_follows due

end Reserving

/-! ### Crediting -/

section Crediting
variable {a : Adapters} {reward : HeldCreditRewardInput} {reservation : SignupGrantBudgetReservation} {d : Option Draw}

/-- What the callback leaves behind outside a transaction: the draw may be handed back unless a row may be committed. -/
def Credited (d : Option Draw) : Except RewardError (Option (Option String)) → Phase → Prop
  | .ok (some (some _)), p => p = .tried d
  | .ok _, p => p = .out d
  | .error _, p => p = .out d ∨ p = .tried d

/-- The same inside a transaction. -/
def CreditedWithin (d : Option Draw) : Except RewardError (Option (Option String)) → Phase → Prop
  | .ok (some (some _)), p => ∃ id, p = .completed d id
  | .ok _, p => p = .opened d
  | .error _, p => Within d p

/-- The draw of a reservation that pays, metered or not. -/
structure Paying (a : Adapters) (reward : HeldCreditRewardInput) (reservation : SignupGrantBudgetReservation) (d : Option Draw) : Prop where
  draw : reservation.draw = d
  transactionId : ∀ h, d = some h → h.transactionId = reward.transactionId
  unmetered : d = none → (a.grantBudget && decide (0 < reward.credits)) = false

theorem Paying.rowFor (paying : Paying a reward reservation d) : RowFor d (ledgerRow a reward reservation) where
  drawnOn := by rw [← paying.draw]; rfl
  transactionId h at_ := (paying.transactionId h at_).symm
  unmetered := paying.unmetered

variable {duplicateThrows : Bool}

theorem credit_follows (paying : Paying a reward reservation d) :
    Follows Moves (Credited d) (credit a reward reservation duplicateThrows) (.out d) := by
  refine follows_then (fun user => ⟨.out d, .stays trivial, ?_⟩) fun e => ⟨.out d, .stays trivial, Or.inl rfl⟩
  split
  · rfl
  refine follows_bind ?_
  unfold addCreditsWithLedgerRow
  split
  · exact Or.inl rfl
  refine follows_then (fun written => ?_) fun e => ⟨.tried d, .insertsUnsure paying.rowFor, Or.inr rfl⟩
  cases written with
  | none =>
    refine ⟨.out d, .insertsDuplicate paying.rowFor, ?_⟩
    dsimp only
    split
    · exact Or.inl rfl
    · refine follows_then (fun found => ⟨.out d, .stays trivial, ?_⟩) fun e => ⟨.out d, .stays trivial, Or.inl rfl⟩
      split
      · rfl
      · exact Or.inl rfl
  | some rowId =>
    refine ⟨.inserted d reward.transactionId, .inserts paying.rowFor, ?_⟩
    refine follows_then (fun updated => ⟨.tried d, .credits, ?_⟩) fun e => ⟨.tried d, .credits, Or.inr rfl⟩
    split
    · exact passive_then stampCreditLot_only (fun _ => rfl) fun _ => Or.inr rfl
    · exact Or.inr rfl

theorem credit_follows_within (paying : Paying a reward reservation d) :
    Follows Moves (CreditedWithin d) (credit a reward reservation true) (.opened d) := by
  refine follows_then (fun user => ⟨.opened d, .stays trivial, ?_⟩) fun e => ⟨.opened d, .stays trivial, rfl⟩
  split
  · rfl
  refine follows_bind ?_
  unfold addCreditsWithLedgerRow
  split
  · exact rfl
  refine follows_then (fun written => ?_) fun e => ⟨.completed d reward.transactionId, .buffersUnsure paying.rowFor, rfl⟩
  cases written with
  | none => exact ⟨.opened d, .buffersDuplicate paying.rowFor, rfl⟩
  | some rowId =>
    refine ⟨.buffered d reward.transactionId, .buffers paying.rowFor, ?_⟩
    refine follows_then (fun updated => ⟨.completed d reward.transactionId, .creditsBuffered, ?_⟩) fun e =>
      ⟨.completed d reward.transactionId, .creditsBuffered, rfl⟩
    split
    · exact passive_then stampCreditLot_only (fun _ => ⟨_, rfl⟩) fun _ => rfl
    · exact rfl

/-- A rolled back attempt keeps the draw to hand back. -/
def Settled (d : Option Draw) : Except RewardError (Option (Option String)) → Phase → Prop
  | .ok (some (some _)), p => p = .tried d
  | _, p => p = .out d

theorem attempt_follows {fn : Call (Option (Option String))} (follows : Follows Moves (CreditedWithin d) fn (.opened d)) :
    Follows Moves (Settled d) (attempt fn) (.out d) := by
  refine follows_then (fun _ => ⟨.opened d, .opens, ?_⟩) fun e => ⟨.out d, .opensNot, rfl⟩
  refine follows_bind (follows_tryCatch (follows_mono follows fun result q reached => ?_))
  cases result with
  | error err => exact follows_then (fun _ => ⟨.out d, .aborts reached, rfl⟩) fun e => ⟨.out d, .aborts reached, rfl⟩
  | ok credited =>
    cases credited with
    | none =>
      cases reached
      exact follows_then (fun _ => ⟨.out d, .commitsNothing, rfl⟩) fun e => ⟨.out d, .rollsBack rfl, rfl⟩
    | some written =>
      cases written with
      | none =>
        cases reached
        exact follows_then (fun _ => ⟨.out d, .commitsNothing, rfl⟩) fun e => ⟨.out d, .rollsBack rfl, rfl⟩
      | some rowId =>
        obtain ⟨id, rfl⟩ := reached
        exact follows_then (fun _ => ⟨.tried d, .commits, rfl⟩) fun e => ⟨.out d, .rollsBack rfl, rfl⟩

theorem withTransaction_follows {fn : Call (Option (Option String))} (follows : Follows Moves (CreditedWithin d) fn (.opened d)) :
    (retries : Nat) → Follows Moves (Settled d) (withTransaction fn retries) (.out d)
  | 0 => attempt_follows follows
  | retries + 1 => by
    refine follows_tryCatch (follows_mono (attempt_follows follows) fun result q reached => ?_)
    cases result with
    | ok credited => exact reached
    | error err =>
      cases reached
      refine follows_then (fun again => ⟨.out d, .stays trivial, ?_⟩) fun e => ⟨.out d, .stays trivial, rfl⟩
      split
      · exact withTransaction_follows follows retries
      · rfl

/-- Where a failed payout stands: an owned transaction has rolled back, other writes may have taken effect. -/
def Failed (a : Adapters) (d : Option Draw) (p : Phase) : Prop := p = .out d ∨ p = .tried d ∧ a.withTransaction = none

def CreditedBy (a : Adapters) (d : Option Draw) : Except RewardError (Option (Option String)) → Phase → Prop
  | .ok (some (some _)), p => p = .tried d
  | .ok _, p => p = .out d
  | .error _, p => Failed a d p

theorem creditOwned_follows (paying : Paying a reward reservation d) :
    Follows Moves (CreditedBy a d) (creditOwned a reward reservation) (.out d) := by
  unfold creditOwned
  split
  · rename_i retries _
    refine follows_mono (withTransaction_follows (credit_follows_within paying) retries) fun result q reached => ?_
    cases result with
    | error err => exact Or.inl reached
    | ok credited =>
      cases credited with
      | none => exact reached
      | some written => cases written <;> exact reached
  · rename_i unowned
    refine follows_mono (credit_follows paying) fun result q reached => ?_
    cases result with
    | error err => exact reached.imp_right fun at_ => ⟨at_, unowned⟩
    | ok credited =>
      cases credited with
      | none => exact reached
      | some written => cases written <;> exact reached

/-- Handing a draw back never rejects. -/
def Released : Except RewardError Unit → Phase → Prop
  | .ok _, p => Closed p
  | .error _, _ => False

theorem release_follows (paying : Paying a reward reservation d) : Follows Moves Released reservation.release (.out d) := by
  unfold SignupGrantBudgetReservation.release
  rw [paying.draw]
  cases d with
  | none => trivial
  | some h =>
    refine follows_tryCatch (follows_perform fun reply => ⟨.out none, .refunds, ?_⟩)
    cases reply <;> trivial

theorem release_then {α : Type} {post : Except RewardError α → Phase → Prop} {rest : Unit → Call α} (paying : Paying a reward reservation d)
    (ends : ∀ p, Closed p → Follows Moves post (rest ()) p) : Follows Moves post (reservation.release.bind rest) (.out d) :=
  follows_seq (release_follows paying) (fun _ q closed => ends q closed) fun _ _ impossible => impossible.elim

/-- What a payout leaves to the handler of its failure. -/
def PaidOut (a : Adapters) (d : Option Draw) : Except RewardError PayNowResult → Phase → Prop
  | .ok _, p => Closed p
  | .error _, p => Failed a d p

theorem payout_follows (paying : Paying a reward reservation d) : Follows Moves (PaidOut a d) (payout a reward reservation) (.out d) := by
  refine follows_seq (creditOwned_follows paying) (fun credited q reached => ?_) fun e q reached => reached
  cases credited with
  | none =>
    cases reached
    exact release_then paying fun p closed => closed
  | some written =>
    cases written with
    | none =>
      cases reached
      exact release_then paying fun p closed => closed
    | some rowId =>
      cases reached
      trivial

theorem afterFailure_follows {err : RewardError} {p : Phase} (paying : Paying a reward reservation d) (failed : Failed a d p) :
    Follows Moves Rests (afterFailure a reward reservation err) p := by
  have released : ∀ unread : Bool, Follows Moves Rests (if unread = true then throw err else do
      reservation.release
      throw err : Call PayNowResult) (.out d) := by
    intro unread
    split
    · trivial
    · exact release_then paying fun p closed => closed
  unfold afterFailure
  rcases failed with rfl | ⟨rfl, unowned⟩
  · split
    · exact release_then paying fun p closed => closed
    · refine follows_bind (follows_tryCatch (follows_perform fun reply => ⟨.out d, .stays trivial, ?_⟩))
      cases reply with
      | ok committed => exact released committed
      | error e => exact released true
  · rw [unowned, Option.isSome_none, Bool.false_and, if_neg (by simp)]
    refine follows_bind (follows_tryCatch (follows_perform fun reply => ?_))
    cases reply with
    | error e => exact ⟨.tried d, .stays trivial, trivial⟩
    | ok committed =>
      cases committed with
      | true => exact ⟨.tried d, .stays trivial, trivial⟩
      | false => exact ⟨.out d, .unwritten paying.transactionId, released false⟩

theorem paid_follows (paying : Paying a reward reservation d) :
    Follows Moves Rests (tryCatch (payout a reward reservation) (afterFailure a reward reservation)) (.out d) := by
  refine follows_tryCatch (follows_mono (payout_follows paying) fun result q reached => ?_)
  cases result with
  | ok paid => exact reached
  | error err => exact afterFailure_follows paying reached

theorem payNow_follows : Follows Moves Rests (payNow a reward) (.out none) := by
  refine follows_seq reserve_follows (fun r q reached => ?_) fun e q closed => closed
  rcases reached with ⟨unmetered, bare, rfl, due⟩ | ⟨refused, closed⟩ | ⟨reserved, fresh, h, draw, same, rfl⟩
  · rw [unmetered, if_neg (by simp), if_neg (by simp)]
    exact paid_follows ⟨bare, nofun, fun _ => due⟩
  · split
    · exact closed
    · rename_i left
      have contended := refused.resolve_left left
      rw [if_pos (by simp [contended.1, contended.2])]
      exact closed
  · rw [reserved, fresh, if_neg (by simp), if_neg (by simp)]
    exact paid_follows ⟨draw, fun h' at_ => by cases at_; exact same, nofun⟩

end Crediting

/-! ### Runs -/

section Runs
variable {a : Adapters} {reward : HeldCreditRewardInput} {p : Phase}

theorem asking_rests {α : Type} {op : Op} {f : op.Value → Call α} (passive : op.passive) (closed : Closed p)
    (rest : ∀ v, Follows Moves Rests (f v) (.out none)) : Follows Moves Rests ((Program.perform op).bind f) p :=
  follows_then (fun v => ⟨.out none, .forgets passive closed, rest v⟩) fun _ => ⟨.out none, .forgets passive closed, trivial⟩

theorem payOrHold_follows : Follows Moves Rests (payOrHold a reward) (.out none) := by
  refine follows_seq payNow_follows (fun result q closed => ?_) fun e q closed => closed
  cases result with
  | exhausted => exact passive_rests holdReward_only closed
  | contended => exact passive_rests holdReward_only closed
  | _ => exact closed

theorem payCreditReward_follows : Follows Moves Rests (payCreditReward a reward) (.out none) := by
  refine asking_rests trivial trivial fun known => ?_
  split
  · trivial
  refine passive_then partiesBlock_only (fun block => ?_) fun _ => trivial
  split
  · trivial
  refine asking_rests trivial trivial fun queued => ?_
  split
  · trivial
  refine passive_then queueHeadBlocks_only (fun behind => ?_) fun _ => trivial
  split
  · exact passive_rests holdReward_only trivial
  · exact payOrHold_follows

theorem releaseOne_follows {result : ReleaseHeldCreditRewardsResult} (closed : Closed p) :
    Follows Moves Rests (releaseOne a reward result) p := by
  refine asking_rests trivial closed fun known => ?_
  split
  · exact passive_rests (only_bind (only_perform trivial) fun _ => trivial) trivial
  refine passive_then partiesBlock_only (fun block => ?_) fun _ => trivial
  split
  · trivial
  · exact passive_rests (only_bind (only_perform trivial) fun _ => trivial) trivial
  · exact follows_seq payNow_follows (fun paid q closed => passive_rests afterPayout_settles closed) fun _ _ closed => closed

theorem releaseAll_follows {rewards : List HeldCreditRewardRow} {result : ReleaseHeldCreditRewardsResult} (closed : Closed p) :
    Follows Moves Rests (releaseAll a rewards result) p := by
  induction rewards generalizing p result with
  | nil => exact closed
  | cons reward rest ih =>
    have one : Follows Moves Rests (tryCatch
        (releaseOne a reward.toHeldCreditRewardInput { result with scanned := result.scanned + 1 }) fun _ =>
          return ({ { result with scanned := result.scanned + 1 } with failed := result.failed + 1 }, false)) p := by
      refine follows_tryCatch (follows_mono (releaseOne_follows closed) fun released q closed => ?_)
      cases released <;> exact closed
    refine follows_seq one (fun released q closed => ?_) fun _ _ closed => closed
    split
    · exact closed
    · exact ih closed

theorem releaseHeldCreditRewards_follows {limit : Nat} : Follows Moves Rests (releaseHeldCreditRewards a limit) (.out none) := by
  refine passive_then resolvePoolBudget_only (fun pool => ?_) fun _ => trivial
  exact asking_rests trivial trivial fun held => releaseAll_follows trivial

theorem program_follows : (run : Run) → Follows Moves Rests run.program (.out none)
  | .pay _ _ => follows_seq payCreditReward_follows (fun _ _ closed => closed) fun _ _ closed => closed
  | .release _ _ => follows_seq releaseHeldCreditRewards_follows (fun _ _ closed => closed) fun _ _ closed => closed

end Runs

end Bike4Mind.Rewards
