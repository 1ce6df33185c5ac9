import Bike4Mind.Approvals.EachSettlesOnce

/-! A remembered shell approval covers only what an answer that is still kept approved. -/

namespace Bike4Mind.Approvals

open Collections Texts

/-- An answer kept for a key of a session, which nothing has taken back since. -/
def KeptSince (history : List Standing) (sessionId key : Text) (always : ApprovalAlways) (tainted : Bool) : Prop :=
  ∃ before after, history = before ++ .kept sessionId key always tainted :: after ∧
    .revoked sessionId key ∉ after ∧ .forgotten sessionId ∉ after ∧ .disposed ∉ after

/-- A kept answer with a command of this pattern; over a tainted reply the card said so, and the pattern binds more than a runner. -/
def KeptPattern (history : List Standing) (sessionId toolNamespace : Text) (tainted : Bool) (pattern : Text) : Prop :=
  ∃ key always given, KeptSince history sessionId key always given ∧ always.toolNamespace = toolNamespace ∧
    (∃ command ∈ always.commands, command.pattern = pattern) ∧ (tainted = true → given = true ∧ hasBoundedTaintPrefix pattern = true)

/-- A command like one that was approved. -/
def Approved (history : List Standing) (sessionId toolNamespace : Text) (tainted : Bool) (command : ApprovalCommand) : Prop :=
  command.coverable = true ∧ (tainted = true → command.opaqueForm.any (· ≠ []) = false) ∧
    ∃ pattern, KeptPattern history sessionId toolNamespace tainted pattern ∧ ∃ literal ∈ literalPrefixes pattern, Extends literal command.text

/-- No NUL in the name of a tool. -/
def PlainName (toolNamespace : Text) : Prop := 0 ∉ toolNamespace

instance (toolNamespace : Text) : Decidable (PlainName toolNamespace) := inferInstanceAs (Decidable (0 ∉ toolNamespace))

/-- Patterns with no star but the one at their end. -/
def LiteralAlways (always : ApprovalAlways) : Prop :=
  PlainName always.toolNamespace ∧ ∀ command ∈ always.commands, Starless command.pattern

def LiteralOptions (options : ApprovalRequestOptions) : Prop := ∀ always, options.always = some always → LiteralAlways always

/-- An entry of a shell approval, and the answer it comes from. -/
def Backed (history : List Standing) (sessionId key : Text) (tainted : Bool) (entry : Text) : Prop :=
  ∃ always given, KeptSince history sessionId key always given ∧ ∃ command ∈ always.commands,
    entry = namespaced always.toolNamespace ++ command.pattern ∧ (tainted = true → given = true ∧ hasBoundedTaintPrefix command.pattern = true)

def StandingShell.entries (shell : StandingShell) (tainted : Bool) : List Text := if tainted then shell.overTaint else shell.patterns

/-- What stands comes from answers still kept, and a session with a shell approval has standing answers. -/
structure StandingSound (g : ApprovalGate) : Prop where
  backed : ∀ sessionId byKey key shell, g.standingShell.get? sessionId = some byKey → byKey.get? key = some shell →
    ∀ tainted, ∀ entry ∈ shell.entries tainted, Backed g.history sessionId key tainted entry
  stands : ∀ sessionId byKey, g.standingShell.get? sessionId = some byKey → (g.standing.get? sessionId).isSome = true

section Kept
variable {history : List Standing} {sessionId key : Text} {always : ApprovalAlways} {given tainted : Bool} {entry : Text} {next : Standing}

theorem KeptSince.last (history : List Standing) : KeptSince (history ++ [.kept sessionId key always given]) sessionId key always given :=
  ⟨history, [], rfl, by simp, by simp, by simp⟩

theorem KeptSince.later (kept : KeptSince history sessionId key always given) (revoked : next ≠ .revoked sessionId key)
    (forgotten : next ≠ .forgotten sessionId) (disposed : next ≠ .disposed) : KeptSince (history ++ [next]) sessionId key always given := by
  obtain ⟨before, after, same, noRevoke, noForget, noDispose⟩ := kept
  refine ⟨before, after ++ [next], by rw [same]; simp, ?_, ?_, ?_⟩
  · simp [noRevoke, Ne.symm revoked]
  · simp [noForget, Ne.symm forgotten]
  · simp [noDispose, Ne.symm disposed]

theorem Backed.later (backed : Backed history sessionId key tainted entry) (revoked : next ≠ .revoked sessionId key)
    (forgotten : next ≠ .forgotten sessionId) (disposed : next ≠ .disposed) : Backed (history ++ [next]) sessionId key tainted entry := by
  obtain ⟨always, given, kept, rest⟩ := backed
  exact ⟨always, given, kept.later revoked forgotten disposed, rest⟩

theorem mem_withCommands {toolNamespace : Text} {commands : List ApprovalCommand} {shell : StandingShell} {widened : Bool}
    (member : entry ∈ (commands.foldl (withCommand widened toolNamespace) shell).entries tainted) :
    entry ∈ shell.entries tainted ∨ ∃ command ∈ commands, entry = namespaced toolNamespace ++ command.pattern ∧
      (tainted = true → widened = true ∧ hasBoundedTaintPrefix command.pattern = true) := by
  induction commands generalizing shell with
  | nil => exact .inl member
  | cons command rest ih =>
    rcases ih member with early | ⟨later, there, same⟩
    · cases tainted with
      | false =>
        rcases mem_insertNew.mp early with same | old
        · exact .inr ⟨command, List.mem_cons_self, same, fun other => (by cases other)⟩
        · exact .inl old
      | true =>
        have early : entry ∈ if widened && hasBoundedTaintPrefix command.pattern then insertNew shell.overTaint (namespaced toolNamespace ++ command.pattern)
            else shell.overTaint := early
        split at early
        · rename_i bounded
          rcases mem_insertNew.mp early with same | old
          · exact .inr ⟨command, List.mem_cons_self, same, fun _ => by simpa using bounded⟩
          · exact .inl old
        · exact .inl early
    · exact .inr ⟨later, List.mem_cons_of_mem _ there, same⟩

end Kept

section Standing
variable {g : ApprovalGate}
open ApprovalGate

theorem StandingSound.congr {g' : ApprovalGate} (sound : StandingSound g) (standing : g'.standing = g.standing)
    (shell : g'.standingShell = g.standingShell) (history : g'.history = g.history) : StandingSound g' := by
  refine ⟨?_, ?_⟩
  · rw [shell, history]
    exact sound.backed
  · rw [shell, standing]
    exact sound.stands

theorem StandingSound.remember (sound : StandingSound g) (sessionId key : Text) (answer : ChatApprovalAnswer) (overTaint : Bool) :
    StandingSound (g.remember sessionId key answer overTaint) := by
  refine ⟨sound.backed, fun other byKey there => ?_⟩
  unfold ApprovalGate.remember
  rw [OrderedMap.get?_set]
  split
  · rfl
  · exact sound.stands other byKey there

theorem remember_stands (sessionId key : Text) (answer : ChatApprovalAnswer) (overTaint : Bool) :
    ((g.remember sessionId key answer overTaint).standing.get? sessionId).isSome = true := by
  unfold ApprovalGate.remember
  rw [OrderedMap.get?_set_self]
  rfl

theorem StandingSound.rememberShell (sound : StandingSound g) {sessionId : Text} (key : Text) (always : ApprovalAlways) (overTaint : Bool)
    (stands : (g.standing.get? sessionId).isSome = true) : StandingSound (g.rememberShell sessionId key always overTaint) := by
  have later : ∀ {other key' tainted entry}, Backed g.history other key' tainted entry →
      Backed (g.rememberShell sessionId key always overTaint).history other key' tainted entry := fun backed =>
    backed.later (by simp) (by simp) (by simp)
  refine ⟨fun other byKey key' shell there found tainted entry member => ?_, fun other byKey there => ?_⟩
  · unfold ApprovalGate.rememberShell at there
    rw [OrderedMap.get?_set] at there
    split at there
    · rename_i same
      subst same
      cases there
      rw [OrderedMap.get?_set] at found
      -- What stood for the key before, if anything did.
      have old : ∀ key' shell, ((g.standingShell.get? other).getD ∅).get? key' = some shell → ∀ entry ∈ shell.entries tainted,
          Backed g.history other key' tainted entry := by
        intro key' shell found entry member
        cases before : g.standingShell.get? other with
        | none =>
          rw [before] at found
          cases found
        | some byKey =>
          rw [before] at found
          exact sound.backed other byKey key' shell before found tainted entry member
      split at found
      · rename_i same
        subst same
        cases found
        have member : entry ∈ (always.commands.foldl (withCommand overTaint always.toolNamespace)
            ((((g.standingShell.get? other).getD ∅).get? key').getD {})).entries tainted := member
        rcases mem_withCommands member with early | ⟨command, given, same, bounded⟩
        · cases before : ((g.standingShell.get? other).getD ∅).get? key' with
          | none =>
            rw [before] at early
            cases tainted <;> cases early
          | some shell =>
            rw [before] at early
            exact later (old key' shell before entry early)
        · exact ⟨always, overTaint, KeptSince.last g.history, command, given, same, bounded⟩
      · exact later (old key' shell found entry member)
    · exact later (sound.backed other byKey key' shell there found tainted entry member)
  · unfold ApprovalGate.rememberShell at there
    rw [OrderedMap.get?_set] at there
    split at there
    · rename_i same
      subst same
      exact stands
    · exact sound.stands other byKey there

theorem StandingSound.keepAnswer (sound : StandingSound g) (r : Request) (answer : ChatApprovalAnswer) : StandingSound (g.keepAnswer r answer) := by
  unfold ApprovalGate.keepAnswer
  have remembered := sound.remember r.sessionId (standingKey r.key answer.optionId) answer r.options.tainted
  cases r.options.always with
  | none => exact remembered
  | some always => exact remembered.rememberShell r.key always r.options.tainted (remember_stands ..)

/-- Whether two gates have the same standing answers, and the same history of them. -/
def SameStanding (g g' : ApprovalGate) : Prop := g'.standing = g.standing ∧ g'.standingShell = g.standingShell ∧ g'.history = g.history

theorem settle_standing (g : ApprovalGate) (place : Nat) (answer : ChatApprovalAnswer) (settledBy : ApprovalSettledBy) :
    SameStanding g (g.settle place answer settledBy) ∨ ∃ r ∈ g.requests, SameStanding (g.keepAnswer r answer) (g.settle place answer settledBy) := by
  cases found : g.requests[place]? with
  | none =>
    rw [settle_gone found]
    exact .inl ⟨rfl, rfl, rfl⟩
  | some r =>
    cases waits : r.done with
    | true =>
      rw [settle_done found waits]
      exact .inl ⟨rfl, rfl, rfl⟩
    | false =>
      rw [settle_open found waits]
      unfold keepIf tellSettled
      by_cases keeps : r.options.keeps answer = true
      · refine .inr ⟨r, List.mem_of_getElem? found, ?_⟩
        rw [if_pos keeps]
        unfold ApprovalGate.keepAnswer
        cases r.options.always <;> cases r.announced <;> exact ⟨rfl, rfl, rfl⟩
      · rw [if_neg keeps]
        cases r.announced <;> exact .inl ⟨rfl, rfl, rfl⟩

theorem StandingSound.settle (sound : StandingSound g) (place : Nat) (answer : ChatApprovalAnswer) (settledBy : ApprovalSettledBy) :
    StandingSound (g.settle place answer settledBy) := by
  rcases settle_standing g place answer settledBy with ⟨standing, shell, history⟩ | ⟨r, _, standing, shell, history⟩
  · exact sound.congr standing shell history
  · exact (sound.keepAnswer r answer).congr standing shell history

theorem StandingSound.settleAll (sound : StandingSound g) (places : List Nat) (answer : ChatApprovalAnswer) (settledBy : ApprovalSettledBy) :
    StandingSound (g.settleAll places answer settledBy) := by
  induction places generalizing g with
  | nil => exact sound
  | cons place rest ih => exact ih (sound.settle place answer settledBy)

theorem StandingSound.forget (sound : StandingSound g) (sessionId : Text) : StandingSound (g.forgetStanding sessionId) := by
  refine ⟨fun other byKey key shell there found tainted entry member => ?_, fun other byKey there => ?_⟩
  · unfold forgetStanding at there
    rw [OrderedMap.get?_erase] at there
    split at there
    · cases there
    · rename_i apart
      exact (sound.backed other byKey key shell there found tainted entry member).later (by simp) (by simpa using Ne.symm apart) (by simp)
  · unfold forgetStanding at there ⊢
    rw [OrderedMap.get?_erase] at there ⊢
    split at there
    · cases there
    · rename_i apart
      rw [if_neg apart]
      exact sound.stands other byKey there

theorem StandingSound.revoke (sound : StandingSound g) (sessionId key : Text) : StandingSound (g.revoke sessionId key).2 := by
  unfold ApprovalGate.revoke
  cases keys : g.standing.get? sessionId with
  | none =>
    refine ⟨fun other byKey key' shell there found tainted entry member => ?_, sound.stands⟩
    have apart : other ≠ sessionId := by
      rintro rfl
      have stands := sound.stands other byKey there
      rw [keys] at stands
      cases stands
    exact (sound.backed other byKey key' shell there found tainted entry member).later (by simpa using fun same => absurd same.symm apart)
      (by simp) (by simp)
  | some keys =>
    have stood : ∀ other byKey, ((g.standingShell.get? sessionId).elim g.standingShell fun byKey =>
        g.standingShell.set sessionId (byKey.erase key)).get? other = some byKey → ∃ before, g.standingShell.get? other = some before ∧
          ∀ key' shell, byKey.get? key' = some shell → before.get? key' = some shell ∧ (other = sessionId → key' ≠ key) := by
      intro other byKey there
      cases shells : g.standingShell.get? sessionId with
      | none =>
        rw [shells] at there
        refine ⟨byKey, there, fun key' shell found => ⟨found, ?_⟩⟩
        rintro rfl
        exact absurd (shells.symm.trans there) (by simp)
      | some before =>
        rw [shells] at there
        have erased : (g.standingShell.set sessionId (before.erase key)).get? other = some byKey := there
        rw [OrderedMap.get?_set] at erased
        by_cases same : other = sessionId
        · subst same
          rw [if_pos rfl] at erased
          cases erased
          refine ⟨before, shells, fun key' shell found => ?_⟩
          rw [OrderedMap.get?_erase] at found
          split at found
          · cases found
          · rename_i apart
            exact ⟨found, fun _ => apart⟩
        · rw [if_neg same] at erased
          exact ⟨byKey, erased, fun key' shell found => ⟨found, fun own => absurd own same⟩⟩
    refine ⟨fun other byKey key' shell there found tainted entry member => ?_, fun other byKey there => ?_⟩
    · obtain ⟨before, early, kept⟩ := stood other byKey there
      obtain ⟨found, apart⟩ := kept key' shell found
      apply (sound.backed other before key' shell early found tainted entry member).later _ (by simp) (by simp)
      intro same
      cases same
      exact apart rfl rfl
    · obtain ⟨before, early, _⟩ := stood other byKey there
      show ((g.standing.set sessionId _).get? other).isSome = true
      rw [OrderedMap.get?_set]
      split
      · rfl
      · exact sound.stands other before early

theorem step_standing (sound : StandingSound g) (step : GateStep) : StandingSound (step.apply g) := by
  cases step with
  | request approvalId sessionId key aborted options =>
    cases aborted with
    | true =>
      have filed : StandingSound { g with pending := g.pending.set approvalId g.requests.length,
                                          requests := g.requests ++ [{ approvalId, sessionId, key, options }] } := sound.congr rfl rfl rfl
      exact filed.settle g.requests.length { decision := .deny } .stopped
    | false => exact sound.congr rfl rfl rfl
  | resolve id answer =>
    show StandingSound (g.resolve id answer)
    unfold ApprovalGate.resolve
    cases g.pending.get? id with
    | none => exact sound
    | some place => exact sound.settle place answer .user
  | abort place => exact sound.settle place { decision := .deny } .stopped
  | settleCovered sessionId => exact sound.congr rfl rfl rfl
  | rechecked place answer =>
    show StandingSound (g.rechecked place answer)
    unfold ApprovalGate.rechecked
    have waited : StandingSound { g with rechecking := g.rechecking.erase place } := sound.congr rfl rfl rfl
    split
    · cases answer with
      | none => exact waited
      | some answer => exact waited.settle place answer .covered
    · exact sound
  | cancelQuestions sessionId => exact sound.settleAll _ _ _
  | revoke sessionId key => exact sound.revoke sessionId key
  | forgetSession sessionId => exact (sound.forget sessionId).settleAll _ _ _
  | dispose => exact ⟨fun _ _ _ _ there => (by cases there), fun _ _ there => (by cases there)⟩

end Standing

/-! ### Patterns that were asked about -/

/-- The patterns of every request, and of every answer kept, are literal. -/
structure AllLiteral (g : ApprovalGate) : Prop where
  asked : ∀ r ∈ g.requests, LiteralOptions r.options
  kept : ∀ sessionId key always tainted, .kept sessionId key always tainted ∈ g.history → LiteralAlways always

section Literal
variable {g : ApprovalGate}
open ApprovalGate

theorem AllLiteral.keepAnswer (literal : AllLiteral g) {r : Request} (member : r ∈ g.requests) (answer : ChatApprovalAnswer) :
    AllLiteral (g.keepAnswer r answer) := by
  refine ⟨fun r' there => literal.asked r' (keepAnswer_requests g r answer ▸ there), ?_⟩
  unfold ApprovalGate.keepAnswer
  cases given : r.options.always with
  | none => exact literal.kept
  | some always =>
    intro sessionId key always' tainted there
    rcases List.mem_append.mp there with old | new
    · exact literal.kept sessionId key always' tainted old
    · cases List.mem_singleton.mp new
      exact literal.asked r member always given

theorem AllLiteral.settle (literal : AllLiteral g) (place : Nat) (answer : ChatApprovalAnswer) (settledBy : ApprovalSettledBy) :
    AllLiteral (g.settle place answer settledBy) := by
  refine ⟨fun r' there => ?_, ?_⟩
  · rcases mem_settle there with old | ⟨r, old, rfl⟩
    · exact literal.asked r' old
    · exact literal.asked r old
  · rcases settle_standing g place answer settledBy with ⟨_, _, history⟩ | ⟨r, member, _, _, history⟩
    · rw [history]
      exact literal.kept
    · rw [history]
      exact (literal.keepAnswer member answer).kept

theorem AllLiteral.settleAll (literal : AllLiteral g) (places : List Nat) (answer : ChatApprovalAnswer) (settledBy : ApprovalSettledBy) :
    AllLiteral (g.settleAll places answer settledBy) := by
  induction places generalizing g with
  | nil => exact literal
  | cons place rest ih => exact ih (literal.settle place answer settledBy)

theorem AllLiteral.event {g' : ApprovalGate} (literal : AllLiteral g) (requests : g'.requests = g.requests) {event : Standing}
    (history : g'.history = g.history ++ [event]) (other : ∀ sessionId key always tainted, .kept sessionId key always tainted ≠ event) : AllLiteral g' := by
  refine ⟨requests ▸ literal.asked, fun sessionId key always tainted there => ?_⟩
  rw [history] at there
  rcases List.mem_append.mp there with old | new
  · exact literal.kept sessionId key always tainted old
  · exact (other sessionId key always tainted (List.mem_singleton.mp new)).elim

theorem AllLiteral.congr {g' : ApprovalGate} (literal : AllLiteral g) (requests : g'.requests = g.requests) (history : g'.history = g.history) :
    AllLiteral g' := ⟨requests ▸ literal.asked, history ▸ literal.kept⟩

theorem AllLiteral.filed {g' : ApprovalGate} (literal : AllLiteral g) {r : Request} (plain : LiteralOptions r.options)
    (requests : g'.requests = g.requests ++ [r]) (history : g'.history = g.history) : AllLiteral g' := by
  refine ⟨fun r' there => ?_, history ▸ literal.kept⟩
  rw [requests] at there
  rcases List.mem_append.mp there with old | new
  · exact literal.asked r' old
  · rw [List.mem_singleton.mp new]
    exact plain

theorem step_literal (literal : AllLiteral g) (step : GateStep) (plain : ∀ options, step.asked = some options → LiteralOptions options) :
    AllLiteral (step.apply g) := by
  cases step with
  | request approvalId sessionId key aborted options =>
    have literally : LiteralOptions options := plain options rfl
    cases aborted with
    | true =>
      have filed : AllLiteral { g with pending := g.pending.set approvalId g.requests.length,
                                       requests := g.requests ++ [{ approvalId, sessionId, key, options }] } := literal.filed literally rfl rfl
      exact filed.settle g.requests.length { decision := .deny } .stopped
    | false => exact literal.filed literally rfl rfl
  | resolve id answer =>
    show AllLiteral (g.resolve id answer)
    unfold ApprovalGate.resolve
    cases g.pending.get? id with
    | none => exact literal
    | some place => exact literal.settle place answer .user
  | abort place => exact literal.settle place { decision := .deny } .stopped
  | settleCovered sessionId => exact literal.congr rfl rfl
  | rechecked place answer =>
    show AllLiteral (g.rechecked place answer)
    unfold ApprovalGate.rechecked
    have waited : AllLiteral { g with rechecking := g.rechecking.erase place } := literal.congr rfl rfl
    split
    · cases answer with
      | none => exact waited
      | some answer => exact waited.settle place answer .covered
    · exact literal
  | cancelQuestions sessionId => exact literal.settleAll _ _ _
  | revoke sessionId key =>
    show AllLiteral (g.revoke sessionId key).2
    unfold ApprovalGate.revoke
    cases g.standing.get? sessionId <;> exact literal.event rfl rfl (by simp)
  | forgetSession sessionId =>
    have forgotten : AllLiteral (g.forgetStanding sessionId) := literal.event rfl rfl (by simp)
    exact forgotten.settleAll _ _ _
  | dispose => exact (literal.settleAll g.pending.values { decision := .deny } .appQuit).event rfl rfl (by simp)

/-! ### What is covered was approved -/

/-- The names of two tools, of which an entry starts with the one and was made with the other. -/
theorem namespaced_cancel {name other pattern : Text} (plain : PlainName name) (plain' : PlainName other)
    (starts : namespaced name <+: namespaced other ++ pattern) : name = other := by
  obtain ⟨rest, same⟩ := starts
  unfold namespaced at same
  rw [List.append_assoc, List.append_assoc] at same
  have front : ∀ {text rest : Text}, PlainName text → (text ++ ([0] ++ rest)).takeWhile (· ≠ 0) = text := by
    intro text rest plain
    rw [List.takeWhile_append_of_pos]
    · simp
    · intro c member
      simpa using fun zero : c = 0 => plain (zero ▸ member)
  rw [← front plain, same, front plain']

theorem mem_own (sound : StandingSound g) (literal : AllLiteral g) {sessionId toolNamespace pattern : Text} {tainted : Bool} (plain : PlainName toolNamespace)
    (member : pattern ∈ g.own sessionId toolNamespace tainted) :
    Starless pattern ∧ KeptPattern g.history sessionId toolNamespace tainted pattern := by
  obtain ⟨entry, chosen, rfl⟩ := List.mem_map.mp member
  obtain ⟨there, starts⟩ := List.mem_filter.mp chosen
  rw [List.isPrefixOf_iff_prefix] at starts
  obtain ⟨shell, listed, inside⟩ := List.mem_flatMap.mp there
  cases stands : g.standingShell.get? sessionId with
  | none =>
    rw [stands] at listed
    cases listed
  | some byKey =>
    rw [stands] at listed
    obtain ⟨⟨key, shell⟩, filed, rfl⟩ := List.mem_map.mp listed
    obtain ⟨always, given, kept, command, asked, rfl, bounded⟩ :=
      sound.backed sessionId byKey key shell stands (OrderedMap.get?_of_mem filed) tainted entry inside
    obtain ⟨before, after, history, _⟩ := kept
    have literally := literal.kept sessionId key always given (history ▸ List.mem_append_right before List.mem_cons_self)
    have same := namespaced_cancel plain literally.1 starts
    have cut : (namespaced always.toolNamespace ++ command.pattern).drop (toolNamespace.length + 1) = command.pattern := by
      rw [same]
      exact List.drop_left' (by simp [namespaced])
    rw [cut]
    exact ⟨literally.2 command asked, key, always, given, ⟨before, after, history, by assumption⟩, same.symm, ⟨command, asked, rfl⟩, bounded⟩

theorem covers_approves (sound : StandingSound g) (literal : AllLiteral g) {sessionId : Text} {always : ApprovalAlways} {tainted : Bool}
    (plain : PlainName always.toolNamespace) (covers : g.coversCommands sessionId always tainted = true) :
    ∀ command ∈ always.commands, Approved g.history sessionId always.toolNamespace tainted command := by
  intro command member
  have each := List.all_eq_true.mp (Bool.and_eq_true_iff.mp covers).2 command member
  obtain ⟨safe, some⟩ := Bool.and_eq_true_iff.mp each
  obtain ⟨coverable, clear⟩ := Bool.and_eq_true_iff.mp safe
  obtain ⟨pattern, mine, matches_⟩ := List.any_eq_true.mp some
  obtain ⟨starless, kept⟩ := mem_own sound literal plain mine
  refine ⟨coverable, fun tainted => ?_, pattern, kept, patternMatches_starless starless matches_⟩
  rw [tainted] at clear
  simpa using clear

theorem run_standing (sound : StandingSound g) (steps : List GateStep) : StandingSound (steps.foldl GateStep.apply g) := by
  induction steps generalizing g with
  | nil => exact sound
  | cons step rest ih => exact ih (step_standing sound step)

theorem run_literal (literal : AllLiteral g) (steps : List GateStep)
    (plain : ∀ step ∈ steps, ∀ options, step.asked = some options → LiteralOptions options) : AllLiteral (steps.foldl GateStep.apply g) := by
  induction steps generalizing g with
  | nil => exact literal
  | cons step rest ih =>
    exact ih (step_literal literal step (plain step List.mem_cons_self)) fun later there => plain later (List.mem_cons_of_mem _ there)

end Literal

/-! ### Every run -/

/-- Either open, under its id and announced, or settled once, and paired when it was announced. -/
def SettlesOnce (g : ApprovalGate) (place : Nat) (r : Request) : Prop :=
  (r.done = false ∧ g.pending.get? r.approvalId = some place ∧ g.callsOf place = [.requested r.sessionId]) ∨
    (r.done = true ∧ (∀ id, g.pending.get? id ≠ some place) ∧ ∃ settlement,
      (settlement.asked = false ∧ g.callsOf place = [.resolved settlement]) ∨
        (settlement.asked = true ∧ g.callsOf place = [.requested r.sessionId, .settled r.sessionId, .resolved settlement]))

theorem reached_settlesOnce {used : List Text} {g : ApprovalGate} (reached : Reached used g) {place : Nat} {r : Request}
    (found : g.requests[place]? = some r) : SettlesOnce g place r := by
  have gone : r.done = true → ∀ id, g.pending.get? id ≠ some place := by
    intro done id there
    obtain ⟨r', found', _, waits⟩ := (reached.paired.pending_iff id place).mp there
    rw [found] at found'
    cases found'
    exact Bool.false_ne_true (waits.symm.trans done)
  generalize same : g.callsOf place = calls
  have told := reached.paired.told place r found
  rw [same] at told
  unfold SettlesOnce
  rw [same]
  cases told with
  | silent waits unasked =>
    have asked := (reached.each r (List.mem_of_getElem? found)).1 waits
    exact absurd (unasked.symm.trans asked) Bool.false_ne_true
  | waiting waits _ => exact .inl ⟨waits, (reached.paired.pending_iff r.approvalId place).mpr ⟨r, found, rfl, waits⟩, rfl⟩
  | unasked done _ settlement quiet => exact .inr ⟨done, gone done, settlement, .inl ⟨quiet, rfl⟩⟩
  | answered done _ settlement asked => exact .inr ⟨done, gone done, settlement, .inr ⟨asked, rfl⟩⟩

/-- Whatever the interleaving: while every pattern asked about is literal, what is covered was approved and still is;
each request settles once; and only an answer to a pending id does anything. -/
theorem covers_only_approved (steps : List GateStep) (distinct : (steps.filterMap GateStep.drawn).Nodup) :
    ((∀ step ∈ steps, ∀ options, step.asked = some options → LiteralOptions options) →
      ∀ sessionId always tainted, PlainName always.toolNamespace → (runGate steps).coversCommands sessionId always tainted = true →
        ∀ command ∈ always.commands, Approved (runGate steps).history sessionId always.toolNamespace tainted command) ∧
    (∀ place r, (runGate steps).requests[place]? = some r → SettlesOnce (runGate steps) place r) ∧
    ∀ id answer, ((runGate steps).pending.get? id = none → (runGate steps).resolve id answer = runGate steps) ∧
      ∀ place, (runGate steps).pending.get? id = some place → ∃ r, ((runGate steps).resolve id answer).requests[place]? = some r ∧ r.done = true := by
  have reached := gate_reached steps distinct
  refine ⟨fun plain sessionId always tainted name covers => ?_, fun place r found => reached_settlesOnce reached found, fun id answer => ⟨fun absent => ?_, fun place there => ?_⟩⟩
  · have sound : StandingSound (runGate steps) :=
      run_standing ⟨fun _ _ _ _ there => (by cases there), fun _ _ there => (by cases there)⟩ steps
    have literal : AllLiteral (runGate steps) := run_literal ⟨fun _ member => (by cases member), fun _ _ _ _ member => (by cases member)⟩ steps plain
    exact covers_approves sound literal name covers
  · unfold ApprovalGate.resolve
    rw [absent]
  · obtain ⟨r, found, _, waits⟩ := (reached.paired.pending_iff id place).mp there
    unfold ApprovalGate.resolve
    rw [there]
    refine ⟨{ r with done := true }, ?_, rfl⟩
    show (ApprovalGate.settle _ _ _ _).requests[place]? = _
    rw [ApprovalGate.settle_requests found waits, List.getElem?_set_self (List.getElem?_eq_some_iff.mp found).1]

/-- A command on a card, as its prefix and what it is remembered as. -/
def shellCard (text pattern : String) : ApprovalAlways :=
  { toolNamespace := ascii "bash_execute", commands := [{ text := ascii text, pattern := ascii pattern, coverable := true }] }

/-- A card that is answered with "always". -/
def answeredAlways (always : ApprovalAlways) : List GateStep :=
  [.request (ascii "1") (ascii "chat") (ascii "key") false { always := some always }, .resolve (ascii "1") { decision := .always }]

theorem commit_approved : Approved (runGate (answeredAlways (shellCard "git commit" "git commit *"))).history (ascii "chat") (ascii "bash_execute") false
    { text := ascii "git commit -m x", pattern := ascii "git commit *", coverable := true } := by
  refine (covers_only_approved (answeredAlways (shellCard "git commit" "git commit *")) (by decide)).1 (fun step member options asked => ?_) (ascii "chat")
    (shellCard "git commit -m x" "git commit *") false (by decide) (by decide) _ List.mem_cons_self
  rcases List.mem_cons.mp member with rfl | member
  · cases asked
    intro always same
    cases same
    exact ⟨by decide, by decide⟩
  · cases List.mem_singleton.mp member
    cases asked

/-- A star inside a token covers commands that nobody approved. -/
theorem starred_task_covers : (runGate (answeredAlways (shellCard "npm run test:*" "npm run test:* *"))).coversCommands (ascii "chat")
      (shellCard "npm run test:deploy" "npm run test:deploy *") false = true ∧
    ¬∀ command ∈ (shellCard "npm run test:deploy" "npm run test:deploy *").commands,
      Approved (runGate (answeredAlways (shellCard "npm run test:*" "npm run test:* *"))).history (ascii "chat") (ascii "bash_execute") false command := by
  refine ⟨by decide, fun approved => ?_⟩
  obtain ⟨_, _, pattern, ⟨key, always, given, ⟨before, after, history, _⟩, _, ⟨command, asked, rfl⟩, _⟩, literal, chosen, reads⟩ := approved _ List.mem_cons_self
  have only : (runGate (answeredAlways (shellCard "npm run test:*" "npm run test:* *"))).history =
      [.kept (ascii "chat") (ascii "key") (shellCard "npm run test:*" "npm run test:* *") false] := by decide
  rw [only] at history
  have member : Standing.kept (ascii "chat") key always given ∈ before ++ Standing.kept (ascii "chat") key always given :: after :=
    List.mem_append_right _ List.mem_cons_self
  rw [← history] at member
  cases List.mem_singleton.mp member
  cases List.mem_singleton.mp asked
  have front : literal <+: ascii "npm run test:deploy" := by
    rcases reads with same | ⟨more, same⟩
    · exact same ▸ List.prefix_rfl
    · exact ⟨SPACE :: more, same.symm⟩
  have apart : ∀ literal ∈ literalPrefixes (ascii "npm run test:* *"), ¬literal <+: ascii "npm run test:deploy" := by decide
  exact apart literal chosen front

end Bike4Mind.Approvals
