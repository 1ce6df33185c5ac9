import Bike4Mind.Approvals.ApprovalGate

/-! Every request of the gate settles once, and the listener hears of it in pairs. -/

namespace Bike4Mind.Approvals

open Collections Texts

namespace ApprovalGate
variable {g : ApprovalGate} {place : Nat} {r : Request} {answer : ChatApprovalAnswer} {settledBy : ApprovalSettledBy}

/-! ### What each part touches -/

theorem keepAnswer_requests (g : ApprovalGate) (r : Request) (answer : ChatApprovalAnswer) : (g.keepAnswer r answer).requests = g.requests := by
  unfold keepAnswer
  cases r.options.always <;> rfl

theorem keepAnswer_pending (g : ApprovalGate) (r : Request) (answer : ChatApprovalAnswer) : (g.keepAnswer r answer).pending = g.pending := by
  unfold keepAnswer
  cases r.options.always <;> rfl

theorem keepAnswer_calls (g : ApprovalGate) (r : Request) (answer : ChatApprovalAnswer) : (g.keepAnswer r answer).calls = g.calls := by
  unfold keepAnswer
  cases r.options.always <;> rfl

theorem settle_gone (none : g.requests[place]? = none) : g.settle place answer settledBy = g := by
  unfold settle
  rw [none]

theorem settle_done (found : g.requests[place]? = some r) (done : r.done = true) : g.settle place answer settledBy = g := by
  unfold settle
  rw [found]
  exact if_pos done

theorem settle_open (found : g.requests[place]? = some r) (waits : r.done = false) : g.settle place answer settledBy =
    (((g.close place r).keepIf r answer).tellSettled place r).call place (.resolved (settlement r answer settledBy)) := by
  unfold settle
  rw [found]
  exact if_neg (by rw [waits]; exact Bool.false_ne_true)

/-- What the listener and the promise of a request were told, in order. -/
def callsOf (g : ApprovalGate) (place : Nat) : List RequestCall := (g.calls.filter fun made => made.1 = place).map Prod.snd

theorem settle_requests (found : g.requests[place]? = some r) (waits : r.done = false) :
    (g.settle place answer settledBy).requests = g.requests.set place { r with done := true } := by
  rw [settle_open found waits]
  unfold call tellSettled keepIf
  split <;> split <;> simp only [call, keepAnswer_requests, close]

theorem settle_pending (found : g.requests[place]? = some r) (waits : r.done = false) :
    (g.settle place answer settledBy).pending = g.pending.erase r.approvalId := by
  rw [settle_open found waits]
  unfold call tellSettled keepIf
  split <;> split <;> simp only [call, keepAnswer_pending, close]

theorem settle_calls (found : g.requests[place]? = some r) (waits : r.done = false) : (g.settle place answer settledBy).calls =
    g.calls ++ (if r.announced then [(place, .settled r.sessionId)] else []) ++ [(place, .resolved (settlement r answer settledBy))] := by
  rw [settle_open found waits]
  unfold call tellSettled keepIf
  split <;> split <;> simp only [call, keepAnswer_calls, close, List.append_nil]

end ApprovalGate

/-! ### Open and settled requests -/

/-- What a request was told, and whether it is pending. -/
inductive Told (r : Request) : List RequestCall → Prop where
  | silent (waits : r.done = false) (unasked : r.announced = false) : Told r []
  | waiting (waits : r.done = false) (asked : r.announced = true) : Told r [.requested r.sessionId]
  | unasked (done : r.done = true) (silent : r.announced = false) (settlement : ApprovalSettlement) (same : settlement.asked = false) :
    Told r [.resolved settlement]
  | answered (done : r.done = true) (asked : r.announced = true) (settlement : ApprovalSettlement) (same : settlement.asked = true) :
    Told r [.requested r.sessionId, .settled r.sessionId, .resolved settlement]

theorem Told.settles {r : Request} {calls : List RequestCall} (told : Told r calls) (waits : r.done = false) (settlement : ApprovalSettlement)
    (same : settlement.asked = r.announced) : Told { r with done := true }
      (calls ++ ((if r.announced then [RequestCall.settled r.sessionId] else []) ++ [RequestCall.resolved settlement])) := by
  cases told with
  | silent _ unasked =>
    rw [if_neg (by rw [unasked]; exact Bool.false_ne_true)]
    exact @Told.unasked { r with done := true } rfl unasked settlement (same.trans unasked)
  | waiting _ asked =>
    rw [if_pos asked]
    exact @Told.answered { r with done := true } rfl asked settlement (same.trans asked)
  | unasked done => exact absurd (waits.symm.trans done) Bool.false_ne_true
  | answered done => exact absurd (waits.symm.trans done) Bool.false_ne_true

/-- The requests, the pending ids and what was told of each. -/
structure Paired (g : ApprovalGate) : Prop where
  pending_iff : ∀ id place, g.pending.get? id = some place ↔ ∃ r, g.requests[place]? = some r ∧ r.approvalId = id ∧ r.done = false
  told : ∀ place r, g.requests[place]? = some r → Told r (g.callsOf place)
  fresh : ∀ place, g.requests.length ≤ place → g.callsOf place = []

section Paired
variable {g : ApprovalGate} {place : Nat} {r : Request}
open ApprovalGate

theorem callsOf_added {g' : ApprovalGate} {added : List RequestCall} (same : g'.calls = g.calls ++ added.map (place, ·)) (other : Nat) :
    g'.callsOf other = g.callsOf other ++ if other = place then added else [] := by
  unfold callsOf
  rw [same, List.filter_append, List.map_append]
  congr 1
  by_cases own : other = place
  · subst own
    rw [if_pos rfl, List.filter_eq_self.mpr (by simp), List.map_map]
    exact List.map_id added
  · rw [if_neg own, List.filter_eq_nil_iff.mpr (by simp [Ne.symm own]), List.map_nil]

theorem Paired.settle (sound : Paired g) (place : Nat) (answer : ChatApprovalAnswer) (settledBy : ApprovalSettledBy) :
    Paired (g.settle place answer settledBy) := by
  cases found : g.requests[place]? with
  | none =>
    rw [settle_gone found]
    exact sound
  | some r =>
    cases waits : r.done with
    | true =>
      rw [settle_done found waits]
      exact sound
    | false =>
      have inside : place < g.requests.length := (List.getElem?_eq_some_iff.mp found).1
      have requests := @settle_requests g place r answer settledBy found waits
      have pending := @settle_pending g place r answer settledBy found waits
      have calls := @settle_calls g place r answer settledBy found waits
      have same : (g.settle place answer settledBy).calls = g.calls ++
          ((if r.announced then [RequestCall.settled r.sessionId] else []) ++ [RequestCall.resolved (settlement r answer settledBy)]).map (place, ·) := by
        rw [calls]
        cases r.announced <;> simp
      refine ⟨fun id other => ?_, fun other r' there => ?_, fun other beyond => ?_⟩
      · rw [pending, requests, OrderedMap.get?_erase]
        by_cases own : other = place
        · subst own
          rw [List.getElem?_set_self inside]
          refine iff_of_false ?_ ?_
          · split
            · simp
            · intro there
              obtain ⟨r', found', same, _⟩ := (sound.pending_iff id other).mp there
              rw [found] at found'
              cases found'
              exact absurd same.symm (by assumption)
          · rintro ⟨r', same, _, waits'⟩
            cases same
            cases waits'
        · rw [List.getElem?_set_ne (Ne.symm own)]
          split
          · rename_i same
            subst same
            refine iff_of_false (by simp) ?_
            intro there
            have here := (sound.pending_iff r.approvalId place).mpr ⟨r, found, rfl, waits⟩
            rw [(sound.pending_iff r.approvalId other).mpr there] at here
            exact own (Option.some.inj here)
          · exact sound.pending_iff id other
      · rw [requests] at there
        rw [callsOf_added same]
        by_cases own : other = place
        · subst own
          rw [List.getElem?_set_self inside] at there
          cases there
          rw [if_pos rfl]
          exact (sound.told other r found).settles waits _ rfl
        · rw [List.getElem?_set_ne (Ne.symm own)] at there
          rw [if_neg own, List.append_nil]
          exact sound.told other r' there
      · rw [requests, List.length_set] at beyond
        rw [callsOf_added same, if_neg (by omega), List.append_nil]
        exact sound.fresh other beyond

theorem Paired.congr {g' : ApprovalGate} (sound : Paired g) (requests : g'.requests = g.requests)
    (pending : ∀ id, g'.pending.get? id = g.pending.get? id) (calls : g'.calls = g.calls) : Paired g' := by
  have same : ∀ place, g'.callsOf place = g.callsOf place := fun place => by
    unfold callsOf
    rw [calls]
  exact ⟨fun id place => by rw [pending, requests]; exact sound.pending_iff id place,
    fun place r there => by rw [same]; exact sound.told place r (requests ▸ there),
    fun place beyond => by rw [same]; exact sound.fresh place (requests ▸ beyond)⟩

theorem Paired.settleAll (sound : Paired g) (places : List Nat) (answer : ChatApprovalAnswer) (settledBy : ApprovalSettledBy) :
    Paired (g.settleAll places answer settledBy) := by
  induction places generalizing g with
  | nil => exact sound
  | cons place rest ih => exact ih (sound.settle place answer settledBy)

theorem Paired.filed {g' : ApprovalGate} (sound : Paired g) (r : Request) (open_ : r.done = false) (fresh : g.pending.get? r.approvalId = none)
    (requests : g'.requests = g.requests ++ [r]) (pending : g'.pending = g.pending.set r.approvalId g.requests.length)
    (calls : g'.calls = g.calls ++ (if r.announced then [RequestCall.requested r.sessionId] else []).map (g.requests.length, ·)) : Paired g' := by
  refine ⟨fun id place => ?_, fun place r' there => ?_, fun place beyond => ?_⟩
  · rw [pending, requests, OrderedMap.get?_set]
    by_cases here : place = g.requests.length
    · subst here
      rw [List.getElem?_concat_length]
      constructor
      · split
        · rename_i same
          exact fun _ => ⟨r, rfl, same.symm, open_⟩
        · intro there
          obtain ⟨_, found, _⟩ := (sound.pending_iff id _).mp there
          rw [List.getElem?_eq_none le_rfl] at found
          cases found
      · rintro ⟨_, same, rfl, _⟩
        cases same
        rw [if_pos rfl]
    · have old : (g.requests ++ [r])[place]? = g.requests[place]? := by
        by_cases inside : place < g.requests.length
        · exact List.getElem?_append_left inside
        · rw [List.getElem?_eq_none (by simp; omega), List.getElem?_eq_none (by omega)]
      rw [old]
      split
      · rename_i same
        subst same
        refine iff_of_false (fun same => here (Option.some.inj same).symm) fun there => ?_
        rw [(sound.pending_iff r.approvalId place).mpr there] at fresh
        cases fresh
      · exact sound.pending_iff id place
  · rw [callsOf_added calls]
    by_cases here : place = g.requests.length
    · subst here
      rw [requests, List.getElem?_concat_length] at there
      cases there
      rw [if_pos rfl, sound.fresh _ le_rfl, List.nil_append]
      cases asked : r.announced with
      | true => exact .waiting open_ asked
      | false => exact .silent open_ asked
    · rw [if_neg here, List.append_nil]
      apply sound.told place r'
      rw [requests] at there
      have inside := (List.getElem?_eq_some_iff.mp there).1
      rw [List.length_append, List.length_singleton] at inside
      rwa [List.getElem?_append_left (by omega)] at there
  · rw [requests, List.length_append, List.length_singleton] at beyond
    rw [callsOf_added calls, if_neg (by omega), List.append_nil]
    exact sound.fresh place (by omega)

theorem pending_settle (sound : Paired g) (place : Nat) (answer : ChatApprovalAnswer) (settledBy : ApprovalSettledBy) {id : Text} {other : Nat}
    (there : (g.settle place answer settledBy).pending.get? id = some other) : other ≠ place ∧ g.pending.get? id = some other := by
  have later := sound.settle place answer settledBy
  obtain ⟨r', found', _, waits'⟩ := (later.pending_iff id other).mp there
  cases found : g.requests[place]? with
  | none =>
    rw [settle_gone found] at there found'
    refine ⟨?_, there⟩
    rintro rfl
    rw [found] at found'
    cases found'
  | some r =>
    cases waits : r.done with
    | true =>
      rw [settle_done found waits] at there found'
      refine ⟨?_, there⟩
      rintro rfl
      rw [found] at found'
      cases found'
      exact Bool.false_ne_true (waits'.symm.trans waits)
    | false =>
      rw [settle_pending found waits, OrderedMap.get?_erase] at there
      split at there
      · cases there
      · refine ⟨?_, there⟩
        rintro rfl
        rw [settle_requests found waits, List.getElem?_set_self (List.getElem?_eq_some_iff.mp found).1] at found'
        cases found'
        cases waits'

theorem pending_settleAll (sound : Paired g) (places : List Nat) (answer : ChatApprovalAnswer) (settledBy : ApprovalSettledBy) {id : Text} {other : Nat}
    (there : (g.settleAll places answer settledBy).pending.get? id = some other) : other ∉ places ∧ g.pending.get? id = some other := by
  induction places generalizing g with
  | nil => exact ⟨List.not_mem_nil, there⟩
  | cons place rest ih =>
    obtain ⟨apart, earlier⟩ := ih (sound.settle place answer settledBy) there
    obtain ⟨other, before⟩ := pending_settle sound place answer settledBy earlier
    exact ⟨by simp [other, apart], before⟩

theorem Paired.dispose (sound : Paired g) : Paired g.dispose := by
  refine Paired.congr (sound.settleAll g.pending.values { decision := .deny } .appQuit) rfl (fun id => ?_) rfl
  cases there : (g.settleAll g.pending.values { decision := .deny } .appQuit).pending.get? id with
  | none => rfl
  | some place =>
    obtain ⟨apart, before⟩ := pending_settleAll sound _ _ _ there
    exact (apart (List.mem_map.mpr ⟨_, OrderedMap.mem_of_get? before, rfl⟩)).elim

end Paired

/-! ### Every run -/

/-- Outside of a call every open request has been announced; its id is one of those drawn. -/
structure Reached (used : List Text) (g : ApprovalGate) : Prop where
  paired : Paired g
  each : ∀ r ∈ g.requests, (r.done = false → r.announced = true) ∧ r.approvalId ∈ used

section Run
variable {g : ApprovalGate} {used : List Text}
open ApprovalGate

theorem Reached.congr {g' : ApprovalGate} (reached : Reached used g) (requests : g'.requests = g.requests)
    (pending : ∀ id, g'.pending.get? id = g.pending.get? id) (calls : g'.calls = g.calls) : Reached used g' :=
  ⟨reached.paired.congr requests pending calls, requests ▸ reached.each⟩

theorem mem_settle {r' : Request} {place : Nat} {answer : ChatApprovalAnswer} {settledBy : ApprovalSettledBy}
    (member : r' ∈ (g.settle place answer settledBy).requests) : r' ∈ g.requests ∨ ∃ r ∈ g.requests, r' = { r with done := true } := by
  cases found : g.requests[place]? with
  | none =>
    rw [settle_gone found] at member
    exact .inl member
  | some r =>
    cases waits : r.done with
    | true =>
      rw [settle_done found waits] at member
      exact .inl member
    | false =>
      rw [settle_requests found waits] at member
      rcases List.mem_or_eq_of_mem_set member with old | same
      · exact .inl old
      · exact .inr ⟨r, List.mem_of_getElem? found, same⟩

theorem Reached.settle (reached : Reached used g) (place : Nat) (answer : ChatApprovalAnswer) (settledBy : ApprovalSettledBy) :
    Reached used (g.settle place answer settledBy) := by
  refine ⟨reached.paired.settle place answer settledBy, fun r' member => ?_⟩
  rcases mem_settle member with old | ⟨r, old, rfl⟩
  · exact reached.each r' old
  · exact ⟨fun waits => (by cases waits), (reached.each r old).2⟩

theorem Reached.settleAll (reached : Reached used g) (places : List Nat) (answer : ChatApprovalAnswer) (settledBy : ApprovalSettledBy) :
    Reached used (g.settleAll places answer settledBy) := by
  induction places generalizing g with
  | nil => exact reached
  | cons place rest ih => exact ih (reached.settle place answer settledBy)

theorem Reached.more (reached : Reached used g) (id : Text) : Reached (used ++ [id]) g :=
  ⟨reached.paired, fun r member => ⟨(reached.each r member).1, List.mem_append_left _ (reached.each r member).2⟩⟩

theorem Reached.request (reached : Reached used g) {id : Text} (fresh : id ∉ used) (sessionId key : Text) (aborted : Bool)
    (options : ApprovalRequestOptions) : Reached (used ++ [id]) (g.request id sessionId key aborted options) := by
  have unused : g.pending.get? id = none := by
    cases there : g.pending.get? id with
    | none => rfl
    | some place =>
      obtain ⟨r, found, rfl, _⟩ := (reached.paired.pending_iff id place).mp there
      exact (fresh (reached.each r (List.mem_of_getElem? found)).2).elim
  have drawn : id ∈ used ++ [id] := List.mem_append_right _ (List.mem_singleton_self id)
  unfold ApprovalGate.request
  cases aborted with
  | true =>
    let asked : Request := { approvalId := id, sessionId, key, options }
    let filed : ApprovalGate := { g with pending := g.pending.set id g.requests.length, requests := g.requests ++ [asked] }
    have paired : Paired filed := reached.paired.filed asked rfl unused rfl rfl (List.append_nil _).symm
    refine ⟨paired.settle _ _ _, fun r' member => ?_⟩
    have found : filed.requests[g.requests.length]? = some asked := List.getElem?_concat_length
    have after : (filed.settle g.requests.length { decision := .deny } .stopped).requests = _ := settle_requests found rfl
    have member : r' ∈ (filed.settle g.requests.length { decision := .deny } .stopped).requests := member
    rw [after, List.set_append_right _ _ le_rfl, Nat.sub_self] at member
    rcases List.mem_append.mp member with old | new
    · exact (reached.more id).each r' old
    · rw [List.mem_singleton.mp new]
      exact ⟨fun waits => (by cases waits), drawn⟩
  | false =>
    let asked : Request := { approvalId := id, sessionId, key, options, announced := true }
    refine ⟨reached.paired.filed asked rfl unused rfl rfl rfl, fun r' member => ?_⟩
    rcases List.mem_append.mp member with old | new
    · exact (reached.more id).each r' old
    · rw [List.mem_singleton.mp new]
      exact ⟨fun _ => rfl, drawn⟩

theorem Reached.quiet (reached : Reached used g) (step : GateStep) (quiet : step.drawn = none) : Reached used (step.apply g) := by
  cases step with
  | request id => cases quiet
  | resolve id answer =>
    show Reached used (g.resolve id answer)
    unfold ApprovalGate.resolve
    cases g.pending.get? id with
    | none => exact reached
    | some place => exact reached.settle place answer .user
  | abort place => exact reached.settle place { decision := .deny } .stopped
  | settleCovered sessionId => exact reached.congr rfl (fun _ => rfl) rfl
  | rechecked place answer =>
    show Reached used (g.rechecked place answer)
    unfold ApprovalGate.rechecked
    have waited : Reached used { g with rechecking := g.rechecking.erase place } := reached.congr rfl (fun _ => rfl) rfl
    split
    · cases answer with
      | none => exact waited
      | some answer => exact waited.settle place answer .covered
    · exact reached
  | cancelQuestions sessionId => exact reached.settleAll _ _ _
  | revoke sessionId key =>
    show Reached used (g.revoke sessionId key).2
    unfold ApprovalGate.revoke
    cases g.standing.get? sessionId <;> exact reached.congr rfl (fun _ => rfl) rfl
  | forgetSession sessionId =>
    have forgotten : Reached used (g.forgetStanding sessionId) := reached.congr rfl (fun _ => rfl) rfl
    exact forgotten.settleAll _ _ _
  | dispose => exact ⟨reached.paired.dispose, (reached.settleAll g.pending.values { decision := .deny } .appQuit).each⟩

theorem step_reached (reached : Reached used g) (step : GateStep) (fresh : ∀ id, step.drawn = some id → id ∉ used) :
    Reached (used ++ step.drawn.toList) (step.apply g) := by
  cases draws : step.drawn with
  | none =>
    rw [Option.toList_none, List.append_nil]
    exact reached.quiet step draws
  | some id =>
    cases step with
    | request approvalId sessionId key aborted options =>
      cases draws
      exact reached.request (fresh id rfl) sessionId key aborted options
    | _ => cases draws

theorem run_reached (reached : Reached used g) (steps : List GateStep) (distinct : (used ++ steps.filterMap GateStep.drawn).Nodup) :
    Reached (used ++ steps.filterMap GateStep.drawn) (steps.foldl GateStep.apply g) := by
  induction steps generalizing g used with
  | nil =>
    rw [List.filterMap_nil, List.append_nil]
    exact reached
  | cons step rest ih =>
    have split : used ++ (step :: rest).filterMap GateStep.drawn = used ++ step.drawn.toList ++ rest.filterMap GateStep.drawn := by
      cases drawn : step.drawn <;> simp [drawn]
    rw [split] at distinct ⊢
    refine ih (step_reached reached step fun id drawn used_ => ?_) distinct
    have front := (List.nodup_append.mp distinct).1
    rw [drawn] at front
    exact (List.nodup_append.mp front).2.2 id used_ id (List.mem_singleton_self id) rfl

theorem gate_reached (steps : List GateStep) (distinct : (steps.filterMap GateStep.drawn).Nodup) :
    Reached (steps.filterMap GateStep.drawn) (runGate steps) := by
  have start : Reached [] ({} : ApprovalGate) :=
    ⟨⟨fun id place => iff_of_false (by simp) (by simp), fun place r there => (by simp at there), fun place _ => rfl⟩, fun r member => (by cases member)⟩
  exact run_reached start steps distinct

end Run

end Bike4Mind.Approvals
