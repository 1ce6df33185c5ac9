import Bike4Mind.Concurrency.History
import Bike4Mind.DataLakes.PurgeCalls

/-! A purge that has started is final, and a restore fences off every cleanup message sent before it. -/

namespace Bike4Mind.DataLakes.Purge
open Concurrency

/-! ### What happened so far -/

/-- The claims that messages carried so far. -/
def sentClaims : List Event → List (Option String)
  | [] => []
  | .sent claimId :: rest => claimId :: sentClaims rest
  | _ :: rest => sentClaims rest

/-- The claims of messages sent before some restore. -/
def staleClaims : List Event → List (Option String)
  | [] => []
  | .restoring :: rest => sentClaims rest
  | _ :: rest => staleClaims rest

/-- Some cleanup has passed. -/
def begun : List Event → Bool
  | [] => false
  | .began _ _ :: _ => true
  | _ :: rest => begun rest

/-- A cleanup passes on the claim that is stored, and not on one sent before a restore. -/
def Admitted (e : Event) (earlier : List Event) : Prop :=
  ∀ carried stored, e = .began carried stored → carried = stored ∧ carried ∉ staleClaims earlier

/-! ### The invariant -/

/-- Nothing of the fence changes but the claim ids drawn. -/
structure Quiet (w w' : World) : Prop where
  drawn : ∀ id ∈ w.drawn, id ∈ w'.drawn
  sent : sentClaims w'.log = sentClaims w.log
  stale : staleClaims w'.log = staleClaims w.log
  begun : begun w'.log = begun w.log
  admitted : Justified Admitted w.log → Justified Admitted w'.log
  lake : ∀ lake', w'.lake = some lake' → ∃ lake, w.lake = some lake ∧ lake'.purgeClaimId = lake.purgeClaimId ∧
    lake'.purgeStartedAt = lake.purgeStartedAt ∧
    (lake.status = .purging → lake.purgeStartedAt ≠ none → lake'.status = .purging)

structure Inv (w : World) (ph : Nat → Phase) : Prop where
  known : ∀ lake id, w.lake = some lake → lake.purgeClaimId = some id → id ∈ w.drawn
  sent : ∀ id, some id ∈ sentClaims w.log → id ∈ w.drawn
  started : ∀ lake, w.lake = some lake → lake.purgeStartedAt ≠ none → lake.status = .purging
  begun : begun w.log = true → ∀ lake, w.lake = some lake → lake.purgeStartedAt ≠ none
  fence : ∀ lake, w.lake = some lake → lake.purgeClaimId ∉ staleClaims w.log
  admitted : Justified Admitted w.log
  drawn : ∀ i id, ph i = .drawn id → id ∈ w.drawn ∧ some id ∉ sentClaims w.log ∧ ∀ j, ph j = .drawn id → j = i
  claimed : ∀ i id, ph i = .claimed id → id ∈ w.drawn ∧ ∀ j, ph j ≠ .drawn id

section Invariant
variable {w w' : World} {ph : Nat → Phase} {i : Nat} {id : String}

theorem stale_sent {log : List Event} {claimId : Option String} (stale : claimId ∈ staleClaims log) : claimId ∈ sentClaims log := by
  induction log with
  | nil => cases stale
  | cons e rest ih =>
    cases e with
    | sent sent => exact List.mem_cons_of_mem _ (ih stale)
    | restoring => exact stale
    | listedArchived thread => exact ih stale
    | matchedLive thread => exact ih stale
    | unarchived ids => exact ih stale
    | began carried stored => exact ih stale

theorem inv_quiet (inv : Inv w ph) (quiet : Quiet w w') : Inv w' ph where
  known lake' id found named := by
    obtain ⟨lake, was, same, _⟩ := quiet.lake lake' found
    exact quiet.drawn id (inv.known lake id was (same ▸ named))
  sent id member := quiet.drawn id (inv.sent id (quiet.sent ▸ member))
  started lake' found started := by
    obtain ⟨lake, was, _, same, stays⟩ := quiet.lake lake' found
    rw [same] at started
    exact stays (inv.started lake was started) started
  begun done lake' found := by
    obtain ⟨lake, was, _, same, _⟩ := quiet.lake lake' found
    rw [same]
    exact inv.begun (quiet.begun ▸ done) lake was
  fence lake' found := by
    obtain ⟨lake, was, same, _⟩ := quiet.lake lake' found
    rw [same, quiet.stale]
    exact inv.fence lake was
  admitted := quiet.admitted inv.admitted
  drawn i id at_drawn := by
    obtain ⟨drawn, unsent, only⟩ := inv.drawn i id at_drawn
    exact ⟨quiet.drawn id drawn, quiet.sent ▸ unsent, only⟩
  claimed i id at_claimed := by
    obtain ⟨drawn, only⟩ := inv.claimed i id at_claimed
    exact ⟨quiet.drawn id drawn, only⟩

theorem quiet_lake (lake : w'.lake = w.lake) (drawn : ∀ id ∈ w.drawn, id ∈ w'.drawn) (log : w'.log = w.log) : Quiet w w' where
  drawn := drawn
  sent := by rw [log]
  stale := by rw [log]
  begun := by rw [log]
  admitted := by
    rw [log]
    exact id
  lake lake' found := ⟨lake', lake ▸ found, rfl, rfl, fun purging _ => purging⟩

theorem quiet_update {matching : LakeDocument → Bool} {set : LakeDocument → LakeDocument}
    (claim : ∀ lake, (set lake).purgeClaimId = lake.purgeClaimId)
    (started : ∀ lake, (set lake).purgeStartedAt = lake.purgeStartedAt)
    (stays : ∀ lake, matching lake = true → lake.status = .purging → lake.purgeStartedAt = none) :
    Quiet w (w.updateLake matching set).2 := by
  cases updated : w.updateLake matching set with
  | mk matched after =>
    cases matched with
    | false =>
      cases World.updateLake_false updated
      exact quiet_lake rfl (fun _ h => h) rfl
    | true =>
      obtain ⟨lake, found, matched, rfl⟩ := World.updateLake_true updated
      refine ⟨fun _ h => h, rfl, rfl, rfl, fun h => h, fun lake' found' => ?_⟩
      cases found'
      exact ⟨lake, found, claim lake, started lake, fun purging running => (running (stays lake matched purging)).elim⟩

theorem quiet_record {e : Event} (sent : sentClaims (e :: w.log) = sentClaims w.log) (stale : staleClaims (e :: w.log) = staleClaims w.log)
    (begun_ : begun (e :: w.log) = begun w.log) (admitted : Admitted e w.log) : Quiet w (w.record e) where
  drawn _ h := h
  sent := sent
  stale := stale
  begun := begun_
  admitted earlier := ⟨admitted, earlier⟩
  lake lake' found := ⟨lake', found, rfl, rfl, fun purging _ => purging⟩

theorem quiet_trans {mid : World} (first : Quiet w mid) (second : Quiet mid w') : Quiet w w' where
  drawn id member := second.drawn id (first.drawn id member)
  sent := second.sent.trans first.sent
  stale := second.stale.trans first.stale
  begun := second.begun.trans first.begun
  admitted earlier := second.admitted (first.admitted earlier)
  lake lake' found := by
    obtain ⟨lake, was, claim, started, stays⟩ := second.lake lake' found
    obtain ⟨first_, was_first, claim_first, started_first, stays_first⟩ := first.lake lake was
    refine ⟨first_, was_first, claim.trans claim_first, started.trans started_first, fun purging running => ?_⟩
    exact stays (stays_first purging running) (started_first ▸ running)

/-! ### The operations -/

theorem quiet_findOneAndUpdate {matching : LakeDocument → Bool} {set : LakeDocument → LakeDocument}
    (claim : ∀ lake, (set lake).purgeClaimId = lake.purgeClaimId)
    (started : ∀ lake, (set lake).purgeStartedAt = lake.purgeStartedAt)
    (stays : ∀ lake, matching lake = true → lake.status = .purging → (set lake).status = .purging) :
    Quiet w (w.findOneAndUpdate matching set).2 := by
  cases updated : w.findOneAndUpdate matching set with
  | mk found after =>
    rcases World.findOneAndUpdate_cases updated with ⟨_, rfl⟩ | ⟨lake, found, matched, _, rfl⟩
    · exact quiet_lake rfl (fun _ h => h) rfl
    · refine ⟨fun _ h => h, rfl, rfl, rfl, fun h => h, fun lake' found' => ?_⟩
      cases found'
      exact ⟨lake, found, claim lake, started lake, fun purging _ => stays lake matched purging⟩

theorem quiet_mark {matching : FabFile → Marks → Bool} {set : Marks → Marks} : Quiet w (w.mark matching set) :=
  quiet_lake rfl (fun _ h => h) rfl

theorem quiet_claim {held : List DataLakeStatus} {status : DataLakeStatus} (stable : .purging ∉ held) :
    Quiet w (w.claimLifecycleStatus held status).2 := by
  refine quiet_update (fun _ => rfl) (fun _ => rfl) fun lake matched purging => ?_
  rw [purging] at matched
  exact (stable (List.contains_iff_mem.mp matched)).elim

/-- Neither the claim that rotates the id nor the one that starts the purge. -/
def unfenced : Op → Bool
  | .claimRestoring => false
  | .beginPurgeExecution _ => false
  | op => plain op

theorem quiet_perform {casing : Casing} {op : Op} {draw : Draw} {value : op.Value} (quiet : unfenced op = true)
    (performed : w.perform casing i op draw = some (value, w')) : Quiet w w' := by
  cases op with
  | claimRestoring => cases quiet
  | beginPurgeExecution claimId => cases quiet
  | randomUUID => cases quiet
  | claimPurging claimId => cases quiet
  | sendToQueue message => cases quiet
  | receive =>
    obtain ⟨message, _, same⟩ := Option.map_eq_some_iff.mp performed
    cases same
    exact quiet_lake rfl (fun _ h => h) rfl
  | settleLifecycleStatus held set =>
    cases congrArg Prod.snd (Option.some.inj performed)
    refine quiet_findOneAndUpdate (fun _ => rfl) (fun _ => rfl) fun lake matched purging => ?_
    rw [purging] at matched
    exact (bne_iff_ne.mp quiet (beq_iff_eq.mp matched).symm).elim
  | releasePurgingToDeleted claimId =>
    cases congrArg Prod.snd (Option.some.inj performed)
    refine quiet_update (fun _ => rfl) (fun _ => rfl) fun lake matched _ => ?_
    exact beq_iff_eq.mp (Bool.and_eq_true_iff.mp matched).2
  | claimArchiving =>
    cases congrArg Prod.snd (Option.some.inj performed)
    exact quiet_claim (by decide)
  | claimDeleting =>
    cases congrArg Prod.snd (Option.some.inj performed)
    exact quiet_claim (by decide)
  | claimUnarchiving =>
    cases congrArg Prod.snd (Option.some.inj performed)
    exact quiet_claim (by decide)
  | setFilesArchivedAtIfUnset =>
    cases congrArg Prod.snd (Option.some.inj performed)
    exact quiet_findOneAndUpdate (fun _ => rfl) (fun _ => rfl) fun _ _ purging => purging
  | setFilesDeletedAtIfUnset =>
    cases congrArg Prod.snd (Option.some.inj performed)
    exact quiet_findOneAndUpdate (fun _ => rfl) (fun _ => rfl) fun _ _ purging => purging
  | delete =>
    cases performed
    exact ⟨fun _ h => h, rfl, rfl, rfl, fun h => h, fun _ found => nomatch found⟩
  | findArchivedByDataLakeTag scope stampedAt =>
    cases performed
    exact quiet_record rfl rfl rfl fun _ _ same => nomatch same
  | findByContentHashesInDataLake hashes datalakeTag =>
    cases performed
    exact quiet_record rfl rfl rfl fun _ _ same => nomatch same
  | unarchiveByDataLakeTag scope stampedAt =>
    cases performed
    exact quiet_trans quiet_mark (quiet_record rfl rfl rfl fun _ _ same => nomatch same)
  | _ =>
    cases performed
    exact quiet_lake rfl (fun _ h => h) rfl

theorem restoring_inv {casing : Casing} {draw : Draw} {matched : Bool} (inv : Inv w ph)
    (performed : w.perform casing i .claimRestoring draw = some (matched, w')) : Inv w' ph := by
  simp only [World.perform] at performed
  split at performed
  · cases performed
  · rename_i fresh
    cases updated : w.updateLake
        (fun lake => [DataLakeStatus.deleted, .restoring].contains lake.status && lake.purgeStartedAt == none)
        fun lake => { lake with status := .restoring, purgeClaimId := some draw.uuid } with
    | mk hit after =>
      rw [updated] at performed
      cases hit with
      | false =>
        cases performed
        exact inv
      | true =>
        obtain ⟨lake, found, admitted, rfl⟩ := World.updateLake_true updated
        cases performed
        have unstarted : lake.purgeStartedAt = none := beq_iff_eq.mp (Bool.and_eq_true_iff.mp admitted).2
        refine ⟨fun lake' id found' named => ?_, fun id member => List.mem_cons_of_mem _ (inv.sent id member),
          fun lake' found' started => ?_, fun done lake' found' => ?_, fun lake' found' stale => ?_, ⟨(fun _ _ same => nomatch same), inv.admitted⟩,
          fun j id at_drawn => ?_, fun j id at_claimed => ?_⟩
        · cases found'
          cases named
          exact List.mem_cons_self
        · cases found'
          exact (started unstarted).elim
        · cases found'
          exact (inv.begun done lake found unstarted).elim
        · cases found'
          exact fresh (inv.sent draw.uuid stale)
        · obtain ⟨drawn, unsent, only⟩ := inv.drawn j id at_drawn
          exact ⟨List.mem_cons_of_mem _ drawn, unsent, only⟩
        · obtain ⟨drawn, only⟩ := inv.claimed j id at_claimed
          exact ⟨List.mem_cons_of_mem _ drawn, only⟩

theorem began_inv {casing : Casing} {draw : Draw} {claimId : Option String} {matched : Bool} (inv : Inv w ph)
    (performed : w.perform casing i (.beginPurgeExecution claimId) draw = some (matched, w')) : Inv w' ph := by
  simp only [World.perform] at performed
  cases updated : w.updateLake
      (fun lake => [DataLakeStatus.deleted, .purging].contains lake.status && lake.purgeClaimId == claimId)
      fun lake => { lake with status := .purging, purgeStartedAt := some w.now } with
  | mk hit after =>
    rw [updated] at performed
    cases hit with
    | false =>
      cases performed
      exact inv
    | true =>
      obtain ⟨lake, found, admitted, rfl⟩ := World.updateLake_true updated
      cases performed
      have owned : lake.purgeClaimId = claimId := beq_iff_eq.mp (Bool.and_eq_true_iff.mp admitted).2
      refine ⟨fun lake' id found' named => ?_, inv.sent, fun lake' found' _ => ?_, fun _ lake' found' => ?_, fun lake' found' => ?_,
        ⟨fun carried stored same => ?_, inv.admitted⟩, inv.drawn, inv.claimed⟩
      · cases found'
        exact inv.known lake id found named
      · cases found'
        rfl
      · cases found'
        exact nofun
      · cases found'
        exact inv.fence lake found
      · rw [found, Option.bind_some, owned] at same
        cases same
        exact ⟨rfl, owned ▸ inv.fence lake found⟩

theorem update_cases {q r : Phase} {j : Nat} (h : Function.update ph i q j = r) : j = i ∧ q = r ∨ j ≠ i ∧ ph j = r := by
  by_cases same : j = i
  · subst same
    exact Or.inl ⟨rfl, by simpa using h⟩
  · exact Or.inr ⟨same, by simpa [same] using h⟩

theorem claimed_phases (inv : Inv w ph) (at_drawn : ph i = .drawn id) : Inv w (Function.update ph i (.claimed id)) := by
  obtain ⟨drawn, unsent, only⟩ := inv.drawn i id at_drawn
  refine { inv with drawn := fun j id' at_j => ?_, claimed := fun j id' at_j => ?_ }
  · rcases update_cases at_j with ⟨_, same⟩ | ⟨other, at_j⟩
    · cases same
    obtain ⟨drawn', unsent', only'⟩ := inv.drawn j id' at_j
    refine ⟨drawn', unsent', fun k at_k => ?_⟩
    rcases update_cases at_k with ⟨_, same⟩ | ⟨_, at_k⟩
    · cases same
    · exact only' k at_k
  · rcases update_cases at_j with ⟨_, same⟩ | ⟨other, at_j⟩
    · cases same
      refine ⟨drawn, fun k at_k => ?_⟩
      rcases update_cases at_k with ⟨_, same⟩ | ⟨elsewhere, at_k⟩
      · cases same
      · exact elsewhere (only k at_k)
    · obtain ⟨drawn', only'⟩ := inv.claimed j id' at_j
      refine ⟨drawn', fun k at_k => ?_⟩
      rcases update_cases at_k with ⟨_, same⟩ | ⟨_, at_k⟩
      · cases same
      · exact only' k at_k

theorem claimed_inv {casing : Casing} {draw : Draw} {matched : Bool} (inv : Inv w ph) (at_drawn : ph i = .drawn id)
    (performed : w.perform casing i (.claimPurging id) draw = some (matched, w')) :
    Inv w' (Function.update ph i (.claimed id)) := by
  obtain ⟨drawn, unsent, _⟩ := inv.drawn i id at_drawn
  refine claimed_phases (?_ : Inv w' ph) at_drawn
  have updated := Option.some.inj performed
  cases matched with
  | false =>
    cases World.updateLake_false updated
    exact inv
  | true =>
    obtain ⟨lake, found, admitted, rfl⟩ := World.updateLake_true updated
    have unstarted : lake.purgeStartedAt = none := beq_iff_eq.mp (Bool.and_eq_true_iff.mp admitted).2
    refine { inv with known := fun lake' id' found' named => ?_, started := fun lake' found' _ => ?_,
                      begun := fun done lake' found' => ?_, fence := fun lake' found' stale => ?_ }
    · cases found'
      cases named
      exact drawn
    · cases found'
      rfl
    · exact (inv.begun done lake found unstarted).elim
    · cases found'
      exact unsent (stale_sent stale)

theorem sent_inv {casing : Casing} {draw : Draw} {message : DataLakeCleanupMessage} {value : Unit} (inv : Inv w ph)
    (at_claimed : ph i = .claimed id) (carries : message.purgeClaimId = some id)
    (performed : w.perform casing i (.sendToQueue message) draw = some (value, w')) : Inv w' ph := by
  cases performed
  obtain ⟨drawn, only⟩ := inv.claimed i id at_claimed
  refine { inv with sent := fun id' member => ?_, admitted := ⟨(fun _ _ same => nomatch same), inv.admitted⟩,
                    drawn := fun j id' at_j => ?_ }
  · rcases List.mem_cons.mp member with same | earlier
    · cases same.trans carries
      exact drawn
    · exact inv.sent id' earlier
  · obtain ⟨drawn', unsent, only'⟩ := inv.drawn j id' at_j
    refine ⟨drawn', fun member => ?_, only'⟩
    rcases List.mem_cons.mp member with same | earlier
    · cases same.trans carries
      exact only j at_j
    · exact unsent earlier

theorem drew_inv {casing : Casing} {draw : Draw} (inv : Inv w ph)
    (performed : w.perform casing i .randomUUID draw = some (id, w')) : Inv w' ph ∧ Inv w' (Function.update ph i (.drawn id)) := by
  simp only [World.perform] at performed
  split at performed
  · cases performed
  rename_i fresh
  cases performed
  have kept : Inv { w with drawn := draw.uuid :: w.drawn } ph :=
    inv_quiet inv (quiet_lake rfl (fun _ member => List.mem_cons_of_mem _ member) rfl)
  refine ⟨kept, { kept with drawn := fun j id' at_j => ?_, claimed := fun j id' at_j => ?_ }⟩
  · rcases update_cases at_j with ⟨here, same⟩ | ⟨other, at_j⟩
    · cases same
      refine ⟨List.mem_cons_self, fun member => fresh (inv.sent _ member), fun k at_k => ?_⟩
      rcases update_cases at_k with ⟨there, _⟩ | ⟨_, at_k⟩
      · exact there.trans here.symm
      · exact (fresh (inv.drawn k _ at_k).1).elim
    · obtain ⟨drawn', unsent, only⟩ := inv.drawn j id' at_j
      refine ⟨List.mem_cons_of_mem _ drawn', unsent, fun k at_k => ?_⟩
      rcases update_cases at_k with ⟨_, same⟩ | ⟨_, at_k⟩
      · cases same
        exact (fresh drawn').elim
      · exact only k at_k
  · rcases update_cases at_j with ⟨_, same⟩ | ⟨_, at_j⟩
    · cases same
    · obtain ⟨drawn', only⟩ := inv.claimed j id' at_j
      refine ⟨List.mem_cons_of_mem _ drawn', fun k at_k => ?_⟩
      rcases update_cases at_k with ⟨_, same⟩ | ⟨_, at_k⟩
      · cases same
        exact fresh drawn'
      · exact only k at_k

theorem plain_inv {casing : Casing} {op : Op} {draw : Draw} {value : op.Value} (inv : Inv w ph) (permitted : plain op = true)
    (performed : w.perform casing i op draw = some (value, w')) : Inv w' ph := by
  cases op with
  | claimRestoring => exact restoring_inv inv performed
  | beginPurgeExecution claimId => exact began_inv inv performed
  | _ =>
    refine inv_quiet inv (quiet_perform ?_ performed)
    exact permitted

end Invariant

section Runs
variable {casing : Casing}

theorem faulty_some {i : Nat} {w w' : World} {op : Op} {x : Draw × Settling} {reply : Except LakeError op.Value}
    (executed : (faulty casing).exec i w op x = some (reply, w')) : ∃ value after, w.perform casing i op x.1 = some (value, after) ∧
      reply = x.2.reply value ∧ w' = if x.2.landed then after else w := by
  obtain ⟨⟨value, after⟩, performed, same⟩ := Option.map_eq_some_iff.mp executed
  cases same
  exact ⟨value, after, performed, rfl, rfl⟩

theorem resolved {α : Type} {settling : Settling} {value found : α} (h : Except.ok found = settling.reply value) :
    value = found ∧ settling.landed = true := by
  cases settling with
  | resolves =>
    cases h
    exact ⟨rfl, rfl⟩
  | rejects landed e => cases h

theorem purges_preserves : Preserves (faulty casing) Purges (fun _ _ _ _ => True) Inv where
  env {w t w' ph} inv moved := by
    unfold faulty World.elapse at moved
    dsimp only at moved
    split at moved
    · cases moved
      exact inv_quiet inv (quiet_lake rfl (fun _ h => h) rfl)
    · cases moved
  step {i w op x reply w' ph q} inv _ executed permitted := by
    obtain ⟨value, after, performed, replied, rfl⟩ := faulty_some executed
    generalize at_ : ph i = p at permitted
    cases permitted with
    | plain permitted =>
      rw [← at_, Function.update_eq_self]
      split
      · exact plain_inv inv permitted performed
      · exact inv
    | drew =>
      obtain ⟨rfl, landed⟩ := resolved replied
      rw [if_pos landed]
      exact (drew_inv inv performed).2
    | undrawn =>
      rw [← at_, Function.update_eq_self]
      split
      · exact (drew_inv inv performed).1
      · exact inv
    | claimed =>
      split
      · exact claimed_inv inv at_ performed
      · exact claimed_phases inv at_
    | sent carries =>
      rw [← at_, Function.update_eq_self]
      split
      · exact sent_inv inv at_ carries performed
      · exact inv

end Runs

/-! ### The claim -/

/-- A stored lake and the messages under way, with every claim id in them already drawn. -/
structure Shelf where
  lake : LakeDocument
  files : FabFiles
  marks : FabFile → Option Marks
  grants : List AccessGrant
  now : Time
  queue : List DataLakeCleanupMessage
  drawn : List String
  known : ∀ id, lake.purgeClaimId = some id → id ∈ drawn
  queued : ∀ message ∈ queue, ∀ id, message.purgeClaimId = some id → id ∈ drawn
  started : lake.purgeStartedAt ≠ none → lake.status = .purging

def Shelf.world (before : Shelf) : World where
  lake := some before.lake
  grants := before.grants
  files := before.files
  marks := before.marks
  now := before.now
  drawn := before.drawn
  queue := before.queue
  log := before.queue.map fun message => .sent message.purgeClaimId

abbrev LakeConfig := Config Nat World Op Op.Value LakeError Unit
abbrev LakeAction := Action Nat (Draw × Settling) Time

def start (before : Shelf) (calls : Nat → LakeCall) : LakeConfig where
  store := before.world
  threads i := (calls i).program

/-- Where the lake is a moment later: once gone it stays gone, and it keeps its status. -/
def OnlyDisappears (now later : Option LakeDocument) : Prop :=
  (now = none → later = none) ∧ ∀ lake lake', now = some lake → later = some lake' → lake'.status = lake.status

/-- A purge and a restore exclude each other. -/
structure Excluded (casing : Casing) (c : LakeConfig) : Prop where
  final : begun c.store.log = true → ∀ sched c', (faulty casing).run c sched = some c' → OnlyDisappears c.store.lake c'.store.lake
  owned : ∀ carried stored, .began carried stored ∈ c.store.log → carried = stored
  fenced : ∀ later between earlier carried stored, c.store.log = later ++ .began carried stored :: between ++ .restoring :: earlier →
    .sent carried ∉ earlier

section Claim
variable {casing : Casing} {before : Shelf} {calls : Nat → LakeCall} {c c' : LakeConfig} {sched : List LakeAction}

theorem start_log {messages : List DataLakeCleanupMessage} {log : List Event}
    (same : log = messages.map fun message => .sent message.purgeClaimId) : staleClaims log = [] ∧ begun log = false ∧
      Justified Admitted log ∧ ∀ claimId ∈ sentClaims log, ∃ message ∈ messages, message.purgeClaimId = claimId := by
  subst same
  induction messages with
  | nil => exact ⟨rfl, rfl, trivial, nofun⟩
  | cons message rest ih =>
    obtain ⟨stale, begun, admitted, sent⟩ := ih
    refine ⟨stale, begun, ⟨(fun _ _ same => nomatch same), admitted⟩, fun claimId member => ?_⟩
    rcases List.mem_cons.mp member with here | there
    · exact ⟨message, List.mem_cons_self, here.symm⟩
    · obtain ⟨message', member', same⟩ := sent claimId there
      exact ⟨message', List.mem_cons_of_mem _ member', same⟩

theorem start_tracked : Tracked Purges Any Inv (start before calls) := by
  obtain ⟨stale, fresh, admitted, sent⟩ := start_log (rfl : before.world.log = _)
  refine ⟨fun _ => .free, ⟨fun lake id found named => ?_, fun id member => ?_, fun lake found started => ?_, fun done => ?_,
    fun lake found member => ?_, admitted, nofun, nofun⟩, fun i => call_follows (calls i)⟩
  · cases found
    exact before.known id named
  · obtain ⟨message, queued, same⟩ := sent _ member
    exact before.queued message queued id same
  · cases found
    exact before.started started
  · exact (Bool.false_ne_true (fresh.symm.trans done)).elim
  · rw [show staleClaims (start before calls).store.log = [] from stale] at member
    cases member

theorem run_tracked (tracked : Tracked Purges Any Inv c) (ran : (faulty casing).run c sched = some c') : Tracked Purges Any Inv c' :=
  run_invariant purges_preserves tracked (Semantics.meets_all fun _ _ _ _ => trivial) ran

/-- What a started purge and a lake that is gone leave to come. -/
structure Outlives (w w' : World) : Prop where
  begun : begun w.log = true → Purge.begun w'.log = true
  gone : w.lake = none → w'.lake = none

theorem outlives_refl {w : World} : Outlives w w := ⟨id, id⟩

theorem outlives_trans {w mid w' : World} (first : Outlives w mid) (second : Outlives mid w') : Outlives w w' :=
  ⟨fun h => second.begun (first.begun h), fun h => second.gone (first.gone h)⟩

theorem outlives_quiet {w w' : World} (quiet : Quiet w w') : Outlives w w' := by
  refine ⟨fun h => quiet.begun.trans h, fun gone => ?_⟩
  cases found : w'.lake with
  | none => rfl
  | some lake' =>
    obtain ⟨lake, was, _⟩ := quiet.lake lake' found
    cases gone.symm.trans was

theorem outlives_log {w w' : World} {e : Event} (lake : w'.lake = w.lake) (log : w'.log = e :: w.log) : Outlives w w' := by
  refine ⟨fun h => ?_, fun gone => lake.trans gone⟩
  rw [log]
  cases e <;> first | exact h | rfl

theorem outlives_update {w w' : World} {matching : LakeDocument → Bool} {set : LakeDocument → LakeDocument} {matched : Bool}
    (updated : w.updateLake matching set = (matched, w')) : Outlives w w' := by
  cases matched with
  | false =>
    cases World.updateLake_false updated
    exact outlives_refl
  | true =>
    obtain ⟨lake, found, _, rfl⟩ := World.updateLake_true updated
    exact ⟨id, fun gone => nomatch gone.symm.trans found⟩

theorem outlives_perform {i : Nat} {w w' : World} {op : Op} {draw : Draw} {value : op.Value} {p q : Phase}
    {reply : Except LakeError op.Value} (permitted : Purges p op reply q)
    (performed : w.perform casing i op draw = some (value, w')) : Outlives w w' := by
  by_cases quiet : unfenced op = true
  · exact outlives_quiet (quiet_perform quiet performed)
  cases permitted with
  | drew =>
    simp only [World.perform] at performed
    split at performed
    · cases performed
    · cases performed
      exact ⟨id, id⟩
  | undrawn =>
    simp only [World.perform] at performed
    split at performed
    · cases performed
    · cases performed
      exact ⟨id, id⟩
  | claimed => exact outlives_update (Option.some.inj performed)
  | sent _ =>
    cases performed
    exact outlives_log rfl rfl
  | plain permitted =>
    cases op with
    | claimRestoring =>
      simp only [World.perform] at performed
      split at performed
      · cases performed
      · generalize updated : w.updateLake _ _ = out at performed
        obtain ⟨matched, after⟩ := out
        cases performed
        split
        · exact outlives_trans (outlives_update updated) (outlives_log rfl rfl)
        · exact outlives_refl
    | beginPurgeExecution claimId =>
      simp only [World.perform] at performed
      generalize updated : w.updateLake _ _ = out at performed
      obtain ⟨matched, after⟩ := out
      cases performed
      split
      · exact outlives_trans (outlives_update updated) (outlives_log rfl rfl)
      · exact outlives_refl
    | _ => exact (quiet permitted).elim

theorem outlives_run (tracked : Tracked Purges Any Inv c) (ran : (faulty casing).run c sched = some c') : Outlives c.store c'.store := by
  have preserved : Preserves (faulty casing) Purges (fun _ _ _ _ => True) fun w _ => Outlives c.store w := by
    refine ⟨fun {w t w' ph} outlives moved => ?_, fun {i w op x reply w' ph q} outlives _ executed permitted => ?_⟩
    · unfold faulty World.elapse at moved
      dsimp only at moved
      split at moved
      · cases moved
        exact ⟨outlives.begun, outlives.gone⟩
      · cases moved
    · obtain ⟨value, after, performed, _, rfl⟩ := faulty_some executed
      split
      · exact outlives_trans outlives (outlives_perform permitted performed)
      · exact outlives
  obtain ⟨ph, _, follows⟩ := tracked
  obtain ⟨_, outlives, _⟩ := run_invariant preserved ⟨ph, outlives_refl, follows⟩ (Semantics.meets_all fun _ _ _ _ => trivial) ran
  exact outlives

theorem stale_before_restoring {between earlier : List Event} {claimId : Option String} (sent : claimId ∈ sentClaims earlier) :
    claimId ∈ staleClaims (between ++ .restoring :: earlier) ∧ claimId ∈ sentClaims (between ++ .restoring :: earlier) := by
  induction between with
  | nil => exact ⟨sent, sent⟩
  | cons e rest ih =>
    cases e with
    | sent sent => exact ⟨ih.1, List.mem_cons_of_mem _ ih.2⟩
    | restoring => exact ⟨ih.2, ih.2⟩
    | listedArchived thread => exact ih
    | matchedLive thread => exact ih
    | unarchived ids => exact ih
    | began carried stored => exact ih

theorem mem_sentClaims {log : List Event} {claimId : Option String} (member : .sent claimId ∈ log) : claimId ∈ sentClaims log := by
  induction log with
  | nil => cases member
  | cons e rest ih =>
    rcases List.mem_cons.mp member with here | there
    · subst here
      exact List.mem_cons_self
    · cases e with
      | sent sent => exact List.mem_cons_of_mem _ (ih there)
      | restoring => exact ih there
      | listedArchived thread => exact ih there
      | matchedLive thread => exact ih there
      | unarchived ids => exact ih there
      | began carried stored => exact ih there

theorem tracked_excluded (tracked : Tracked Purges Any Inv c) : Excluded casing c := by
  obtain ⟨ph, inv, _⟩ := id tracked
  refine ⟨fun done sched c' ran => ?_, fun carried stored member => ?_, fun later between earlier carried stored split sent => ?_⟩
  · have outlives := outlives_run tracked ran
    obtain ⟨_, inv', _⟩ := run_tracked tracked ran
    refine ⟨outlives.gone, fun lake lake' found found' => ?_⟩
    rw [inv'.started lake' found' (inv'.begun (outlives.begun done) lake' found'),
      inv.started lake found (inv.begun done lake found)]
  · obtain ⟨later, earlier, _, admitted⟩ := justified_member inv.admitted member
    exact (admitted carried stored rfl).1
  · have admitted := justified_at inv.admitted (split.trans (List.append_assoc _ _ _))
    exact (admitted carried stored rfl).2 (stale_before_restoring (mem_sentClaims sent)).1

end Claim

/-- In every run of the lifecycle calls, whatever fails: a started purge is final, a cleanup starts it only with the
claim that is stored, and no message sent before a restore ever starts one. -/
theorem purge_excludes_restore (casing : Casing) (before : Shelf) (calls : Nat → LakeCall) (sched : List LakeAction) :
    (faulty casing).Always (Excluded casing) (start before calls) sched := by
  rw [Semantics.always_iff]
  intro run _ c _ ran
  exact tracked_excluded (run_tracked start_tracked ran)

end Bike4Mind.DataLakes.Purge
