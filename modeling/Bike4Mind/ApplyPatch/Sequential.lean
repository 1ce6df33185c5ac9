import Bike4Mind.ApplyPatch.Reading
import Bike4Mind.Collections.OrderedSet

/-!
A patch as its operations one after another, each on the files the last one left, and the proof that the
view of an accepted plan is the outcome of just that.
-/

namespace Bike4Mind.ApplyPatch
open Concurrency Collections

abbrev Files := Path → Option String

/-! ### The operations one after another -/

/-- Where an update moves its file. -/
def ResolvedOp.destination? (r : ResolvedOp) : Option Path :=
  match r.op with
  | .update .. => r.moveTarget.filter (· ≠ r.target)
  | .add .. | .delete _ => none

/-- The text of a file after the hunks of an update. -/
def updatedText (chunks : List PatchChunk) (content : String) : String :=
  patchedText (splitText content) (applyChunks (fun _ _ _ _ => "") (splitText content).lines chunks []).lines

def applyOp (r : ResolvedOp) (files : Files) : Files :=
  match r.op with
  | .add _ lines => Function.update files r.target (some (addedText lines))
  | .delete _ => Function.update files r.target none
  | .update _ _ chunks =>
    let content := (files r.target).map (updatedText chunks)
    match r.destination? with
    | some moveTarget => Function.update (Function.update files moveTarget content) r.target none
    | none => Function.update files r.target content

def applyOps (resolved : List ResolvedOp) (files : Files) : Files := resolved.foldl (fun files r => applyOp r files) files

/-! ### Where moved contents come from -/

/-- Follows one operation: a file moved along keeps the path it first stood at. -/
def carry (r : ResolvedOp) (origin : Path → Option Path) : Path → Option Path :=
  match r.destination? with
  | some moveTarget => Function.update origin moveTarget (some ((origin r.target).getD r.target))
  | none => origin

/-- The path at which the content last moved onto a path had stood before the patch moved it. -/
def originOf (resolved : List ResolvedOp) : Path → Option Path := resolved.foldl (fun origin r => carry r origin) fun _ => none

def ResolvedOp.mentions (r : ResolvedOp) (seen : List Path) : List Path :=
  (r.target :: r.destination?.toList).foldl insertNew seen

/-- The paths of a patch in the order it first names them. -/
def mentioned (resolved : List ResolvedOp) : List Path := resolved.foldl (fun seen r => r.mentions seen) []

/-! ### The view follows the operations -/

/-- The planner has read `seen` from `start`, and its view of these paths is `files` and `origin`. -/
structure Viewed (start : Files) (files : Files) (origin : Path → Option Path) (seen : List Path) (s : Planning) : Prop where
  keys : s.view.keys = seen
  disk : s.disk.keys = seen
  recorded : ∀ {p state}, s.disk.get? p = some state → state.file = start p
  reads : ∀ {p entry}, s.view.get? p = some entry → entry.file = files p
  renamed : ∀ {p entry}, s.view.get? p = some entry → entry.renamedFrom = origin p
  untouched : ∀ {p}, p ∉ seen → files p = start p
  unmoved : ∀ {p}, p ∉ seen → origin p = none
  sources : ∀ {p q}, origin p = some q → q ∈ seen

theorem viewed_empty (start : Files) : Viewed start start (fun _ => none) [] {} where
  keys := rfl
  disk := rfl
  recorded h := by cases h
  reads h := by cases h
  renamed h := by cases h
  untouched _ := rfl
  unmoved _ := rfl
  sources h := by cases h

theorem keys_insertNew {ν : Type} {m : OrderedMap Path ν} {seen : List Path} {path : Path} {v : ν} (keys : m.keys = seen) :
    (m.set path v).keys = insertNew seen path := by
  subst keys
  unfold insertNew
  split
  · rename_i there
    exact OrderedMap.keys_set_of_mem there
  · rename_i fresh
    exact OrderedMap.keys_set_of_not_mem fresh

section Steps
variable {context : ToolContext} {fs fs' : FileSystem} {files : Files} {origin : Path → Option Path} {seen : List Path}
variable {s s' : Planning}

theorem Viewed.congr (h : Viewed fs.files files origin seen s) (view : s'.view = s.view) (disk : s'.disk = s.disk) :
    Viewed fs.files files origin seen s' where
  keys := view ▸ h.keys
  disk := disk ▸ h.disk
  recorded := disk ▸ h.recorded
  reads := view ▸ h.reads
  renamed := view ▸ h.renamed
  untouched := h.untouched
  unmoved := h.unmoved
  sources := h.sources

theorem Viewed.assign (h : Viewed fs.files files origin seen s) {target : Path} (there : target ∈ seen) (entry : Entry)
    (source : Option Path) (renamed : entry.renamedFrom = source) (known : ∀ q, source = some q → q ∈ seen) :
    Viewed fs.files (Function.update files target entry.file) (Function.update origin target source) seen (s.assign target entry) where
  keys := by
    rw [← h.keys]
    exact OrderedMap.keys_set_of_mem (h.keys ▸ there)
  disk := h.disk
  recorded := h.recorded
  reads := by
    intro p found held
    change (s.view.set target entry).get? p = some found at held
    rw [OrderedMap.get?_set] at held
    by_cases same : p = target
    · rw [if_pos same] at held
      cases held
      rw [same, Function.update_self]
    · rw [if_neg same] at held
      rw [Function.update_of_ne same]
      exact h.reads held
  renamed := by
    intro p found held
    change (s.view.set target entry).get? p = some found at held
    rw [OrderedMap.get?_set] at held
    by_cases same : p = target
    · rw [if_pos same] at held
      cases held
      rw [same, Function.update_self, renamed]
    · rw [if_neg same] at held
      rw [Function.update_of_ne same]
      exact h.renamed held
  untouched := by
    intro p absent
    have other : p ≠ target := fun same => absent (same ▸ there)
    rw [Function.update_of_ne other]
    exact h.untouched absent
  unmoved := by
    intro p absent
    have other : p ≠ target := fun same => absent (same ▸ there)
    rw [Function.update_of_ne other]
    exact h.unmoved absent
  sources := by
    intro p q from'
    by_cases same : p = target
    · rw [same, Function.update_self] at from'
      exact known q from'
    · rw [Function.update_of_ne same] at from'
      exact h.sources from'

theorem entryFor_exec {target : Path} {entry : Entry} (h : Viewed fs.files files origin seen s)
    (ran : (s.entryFor target).exec FileSystem.perform fs = (.ok (entry, s'), fs')) :
    Viewed fs.files files origin (insertNew seen target) s' ∧ s'.view.get? target = some entry ∧
      s'.problems = s.problems ∧ s'.notes = s.notes := by
  unfold Planning.entryFor at ran
  split at ran
  · rename_i known found
    cases ran
    have there : target ∈ seen := h.keys ▸ OrderedMap.mem_keys_iff.mpr ⟨entry, found⟩
    unfold insertNew
    rw [if_pos there]
    exact ⟨h, found, rfl, rfl⟩
  · rename_i fresh
    obtain ⟨state, mid, read, rest⟩ := Program.exec_bind_ok ran
    cases rest
    have file := readTarget_exec read
    have absent : target ∉ seen := h.keys ▸ OrderedMap.get?_none_iff.mp fresh
    refine ⟨?_, OrderedMap.get?_set_self, rfl, rfl⟩
    constructor
    · exact keys_insertNew h.keys
    · exact keys_insertNew h.disk
    · intro p found held
      rw [OrderedMap.get?_set] at held
      by_cases same : p = target
      · rw [if_pos same] at held
        cases held
        rw [same, file]
      · rw [if_neg same] at held
        exact h.recorded held
    · intro p found held
      rw [OrderedMap.get?_set] at held
      by_cases same : p = target
      · rw [if_pos same] at held
        cases held
        rw [same, h.untouched absent]
        exact file
      · rw [if_neg same] at held
        exact h.reads held
    · intro p found held
      rw [OrderedMap.get?_set] at held
      by_cases same : p = target
      · rw [if_pos same] at held
        cases held
        rw [same, h.unmoved absent]
      · rw [if_neg same] at held
        exact h.renamed held
    · exact fun other => h.untouched fun there => other (mem_insertNew.mpr (Or.inr there))
    · exact fun other => h.unmoved fun there => other (mem_insertNew.mpr (Or.inr there))
    · exact fun from' => mem_insertNew.mpr (Or.inr (h.sources from'))

theorem Viewed.rewrite (h : Viewed fs.files files origin seen s) {target : Path} {entry : Entry}
    (known : s.view.get? target = some entry) (entry' : Entry) (kept : entry'.renamedFrom = entry.renamedFrom) :
    Viewed fs.files (Function.update files target entry'.file) origin seen (s.assign target entry') := by
  have there : target ∈ seen := h.keys ▸ OrderedMap.mem_keys_iff.mpr ⟨entry, known⟩
  have assigned := h.assign there entry' _ (kept.trans (h.renamed known)) fun q from' => h.sources from'
  rwa [Function.update_eq_self] at assigned

/-! Problems only grow, so one refused operation refuses the patch. -/

theorem refuse_grows {problem : String} : s.problems <+: (s.refuse problem).problems := List.prefix_append _ _

theorem entryFor_problems {target : Path} {entry : Entry}
    (ran : (s.entryFor target).exec FileSystem.perform fs = (.ok (entry, s'), fs')) : s'.problems = s.problems := by
  unfold Planning.entryFor at ran
  split at ran
  · cases ran
    rfl
  · obtain ⟨state, mid, _, rest⟩ := Program.exec_bind_ok ran
    cases rest
    rfl

theorem planAdd_problems {target : Path} {path : String} {lines : List String} {entry : Entry} :
    s.problems <+: (planAdd context target path lines entry s).problems := by
  unfold planAdd
  split
  · exact refuse_grows
  · split
    · exact refuse_grows
    · exact List.prefix_rfl

theorem planDelete_problems {target : Path} {entry : Entry} : s.problems <+: (planDelete context target entry s).problems := by
  unfold planDelete
  split
  · exact refuse_grows
  · exact List.prefix_rfl

theorem noteMatch_view {target : Path} {loosest : MatchLevel} : (noteMatch context target loosest s).view = s.view ∧
    (noteMatch context target loosest s).disk = s.disk ∧ (noteMatch context target loosest s).problems = s.problems := by
  unfold noteMatch
  split <;> exact ⟨rfl, rfl, rfl⟩

theorem planMove_problems {target moveTarget : Path} {entry : Entry} {content : String}
    (ran : (planMove context target moveTarget entry content s).exec FileSystem.perform fs = (.ok s', fs')) :
    s.problems <+: s'.problems := by
  obtain ⟨⟨destination, named⟩, mid, asked, rest⟩ := Program.exec_bind_ok ran
  have kept : named.problems = s.problems := entryFor_problems asked
  dsimp only at rest
  split at rest
  · cases rest
    exact kept ▸ refuse_grows
  · cases rest
    exact kept ▸ List.prefix_rfl

theorem planUpdate_problems {target : Path} {path : String} {moveTarget : Option Path} {chunks : List PatchChunk} {entry : Entry}
    (ran : (planUpdate context target path moveTarget chunks entry s).exec FileSystem.perform fs = (.ok s', fs')) :
    s.problems <+: s'.problems := by
  unfold planUpdate at ran
  dsimp only at ran
  split at ran
  · cases ran
    exact refuse_grows
  · split at ran
    · cases ran
      exact refuse_grows
    · obtain ⟨applied, mid, _, rest⟩ := Program.exec_bind_ok ran
      split at rest
      · cases rest
        exact List.prefix_append _ _
      · split at rest
        · cases rest
          exact refuse_grows
        · obtain ⟨_, _, kept⟩ := @noteMatch_view context s target applied.loosest
          split at rest
          · exact kept ▸ planMove_problems rest
          · cases rest
            exact kept ▸ List.prefix_rfl

theorem planOp_problems {r : ResolvedOp} (ran : (planOp context r s).exec FileSystem.perform fs = (.ok s', fs')) :
    s.problems <+: s'.problems := by
  obtain ⟨⟨entry, named⟩, mid, asked, rest⟩ := Program.exec_bind_ok ran
  have kept : named.problems = s.problems := entryFor_problems asked
  rw [← kept]
  dsimp only at rest
  split at rest
  · cases rest
    exact planAdd_problems
  · cases rest
    exact planDelete_problems
  · exact planUpdate_problems rest

theorem planOps_problems {resolved : List ResolvedOp}
    (ran : (planOps context resolved s).exec FileSystem.perform fs = (.ok s', fs')) : s.problems <+: s'.problems := by
  induction resolved generalizing s fs with
  | nil =>
    cases ran
    exact List.prefix_rfl
  | cons r rest ih =>
    obtain ⟨next, mid, stepped, ran⟩ := Program.exec_bind_ok ran
    exact (planOp_problems stepped).trans (ih ran)

/-! An operation that was not refused moved the view. -/

theorem refuse_problems {problem : String} : (s.refuse problem).problems ≠ [] := by
  unfold Planning.refuse
  simp

theorem newFile_ok {lines : List String} {content : String} (h : newFile lines = .ok content) : content = addedText lines := by
  unfold newFile at h
  cases checked : assertNoControlCharacters (String.intercalate "\n" lines) "the added lines" with
  | error message =>
    rw [checked] at h
    cases h
  | ok clean =>
    rw [checked] at h
    change (if _ then _ else _) = _ at h
    split at h
    · cases h
    · cases h
      rfl

theorem updatedFile_ok {split : SplitText} {lines : List String} {chunks : List PatchChunk} {content : String}
    (h : updatedFile split lines chunks = .ok content) : content = patchedText split lines := by
  unfold updatedFile at h
  cases checked : assertNoControlCharacters (String.intercalate "\n" (chunks.flatMap PatchChunk.addedLines)) "the added lines" with
  | error message =>
    rw [checked] at h
    cases h
  | ok clean =>
    rw [checked] at h
    change (if _ then _ else _) = _ at h
    split at h
    · cases h
    · cases h
      rfl

/-- Hunks that all locate give the lines they give without the hints. -/
theorem locate_exec {target : Path} {chunks : List PatchChunk} {lines : List String} {applied : AppliedChunks}
    (ran : (locate context target chunks lines).exec FileSystem.perform fs = (.ok applied, fs')) :
    applied.lines = (applyChunks (fun _ _ _ _ => "") lines chunks []).lines := by
  unfold locate at ran
  dsimp only at ran
  split at ran
  · cases ran
    exact applyChunks_wording.1
  · obtain ⟨others, mid, _, rest⟩ := Program.exec_bind_ok ran
    split at rest
    · cases rest
      exact applyChunks_wording.1
    · cases rest
      exact applyChunks_wording.1

theorem planAdd_accepted {target : Path} {path : String} {lines : List String} {entry : Entry}
    (accepted : (planAdd context target path lines entry s).problems = []) :
    planAdd context target path lines entry s = s.assign target { entry with present := true, content := addedText lines } := by
  unfold planAdd at accepted ⊢
  split at accepted
  · exact (refuse_problems accepted).elim
  · rename_i absent
    rw [if_neg absent]
    split at accepted
    · exact (refuse_problems accepted).elim
    · rename_i content made
      rw [newFile_ok made]

theorem planDelete_accepted {target : Path} {entry : Entry} (accepted : (planDelete context target entry s).problems = []) :
    planDelete context target entry s = s.assign target { entry with present := false, content := "" } := by
  unfold planDelete at accepted ⊢
  split at accepted
  · exact (refuse_problems accepted).elim
  · rename_i present
    rw [if_neg present]

theorem planMove_accepted {target moveTarget : Path} {entry : Entry} {content : String}
    (h : Viewed fs.files files origin seen s) (known : s.view.get? target = some entry) (other : moveTarget ≠ target)
    (ran : (planMove context target moveTarget entry content s).exec FileSystem.perform fs = (.ok s', fs'))
    (accepted : s'.problems = []) :
    Viewed fs.files (Function.update (Function.update files moveTarget (some content)) target none)
      (Function.update origin moveTarget (some ((origin target).getD target))) (insertNew seen moveTarget) s' := by
  obtain ⟨⟨destination, named⟩, mid, asked, rest⟩ := Program.exec_bind_ok ran
  obtain ⟨viewed, _, problems, _⟩ := entryFor_exec h asked
  dsimp only at rest
  split at rest
  · cases rest
    exact (refuse_problems accepted).elim
  · cases rest
    have source := h.renamed known
    have there : target ∈ seen := h.keys ▸ OrderedMap.mem_keys_iff.mpr ⟨entry, known⟩
    have origins : ∀ q, some (entry.renamedFrom.getD target) = some q → q ∈ insertNew seen moveTarget := by
      rintro q ⟨⟩
      apply mem_insertNew.mpr
      cases first : entry.renamedFrom with
      | none => exact Or.inr there
      | some q => exact Or.inr (h.sources (source.symm.trans first))
    have moved := viewed.assign (mem_insertNew.mpr (Or.inl rfl))
      { present := true, content := content, renamedFrom := some (entry.renamedFrom.getD target) } _ rfl origins
    rw [source] at moved
    have left := moved.assign (mem_insertNew.mpr (Or.inr there)) { entry with present := false, content := "" }
      (Function.update origin moveTarget (some ((origin target).getD target)) target)
      (source.trans (Function.update_of_ne other.symm _ _).symm) fun q from' => moved.sources from'
    rw [Function.update_eq_self] at left
    rw [← source] at left ⊢
    exact left

/-- What an accepted update does to the view, at its own path or at the one it moves to. -/
theorem planUpdate_accepted {target : Path} {path : String} {moveTarget : Option Path} {chunks : List PatchChunk} {entry : Entry}
    (h : Viewed fs.files files origin seen s) (known : s.view.get? target = some entry)
    (ran : (planUpdate context target path moveTarget chunks entry s).exec FileSystem.perform fs = (.ok s', fs'))
    (accepted : s'.problems = []) :
    ∃ content, files target = some content ∧
      (∀ destination, moveTarget.filter (· ≠ target) = some destination →
        Viewed fs.files (Function.update (Function.update files destination (some (updatedText chunks content))) target none)
          (Function.update origin destination (some ((origin target).getD target))) (insertNew seen destination) s') ∧
      (moveTarget.filter (· ≠ target) = none →
        Viewed fs.files (Function.update files target (some (updatedText chunks content))) origin seen s') := by
  unfold planUpdate at ran
  dsimp only at ran
  split at ran
  · cases ran
    exact (refuse_problems accepted).elim
  · rename_i present
    split at ran
    · cases ran
      exact (refuse_problems accepted).elim
    · obtain ⟨applied, mid, located, rest⟩ := Program.exec_bind_ok ran
      have same : mid = fs := (congrArg Prod.snd located).symm.trans (exec_readOnly locate_readOnly fs)
      subst same
      split at rest
      · rename_i missed
        cases rest
        have none_missed := congrArg List.length (List.append_eq_nil_iff.mp accepted).2
        rw [List.length_map] at none_missed
        exact (missed none_missed).elim
      · split at rest
        · cases rest
          exact (refuse_problems accepted).elim
        · rename_i content made
          have text : content = updatedText chunks entry.content := by
            rw [updatedFile_ok made, locate_exec located]
            rfl
          have held : files target = some entry.content := by
            rw [← h.reads known]
            exact if_pos (by simpa using present)
          obtain ⟨view, disk, _⟩ := @noteMatch_view context s target applied.loosest
          have noted := h.congr view disk
          have known' : (noteMatch context target applied.loosest s).view.get? target = some entry := view ▸ known
          subst text
          refine ⟨entry.content, held, fun destination moved => ?_, fun stays => ?_⟩
          · rw [moved] at rest
            have other : destination ≠ target := by
              have kept := Option.mem_filter_iff.mp (Option.mem_def.mpr moved)
              simpa using kept.2
            exact planMove_accepted noted known' other rest accepted
          · rw [stays] at rest
            cases rest
            have viewed := noted.rewrite known' { entry with content := updatedText chunks entry.content } rfl
            have file : TargetState.file { entry.toTargetState with content := updatedText chunks entry.content } =
                some (updatedText chunks entry.content) := if_pos (by simpa using present)
            rw [file] at viewed
            exact viewed

theorem planOp_accepted {r : ResolvedOp} (h : Viewed fs.files files origin seen s)
    (ran : (planOp context r s).exec FileSystem.perform fs = (.ok s', fs')) (accepted : s'.problems = []) :
    Viewed fs.files (applyOp r files) (carry r origin) (r.mentions seen) s' := by
  obtain ⟨⟨entry, named⟩, mid, asked, rest⟩ := Program.exec_bind_ok ran
  have same : mid = fs := (congrArg Prod.snd asked).symm.trans (exec_readOnly entryFor_readOnly fs)
  subst same
  obtain ⟨viewed, known, _⟩ := entryFor_exec h asked
  unfold applyOp carry ResolvedOp.mentions ResolvedOp.destination?
  cases kind : r.op with
  | add path lines =>
    rw [kind] at rest
    cases rest
    rw [planAdd_accepted accepted]
    exact viewed.rewrite known { entry with present := true, content := addedText lines } rfl
  | delete path =>
    rw [kind] at rest
    cases rest
    rw [planDelete_accepted accepted]
    exact viewed.rewrite known { entry with present := false, content := "" } rfl
  | update path moveTo chunks =>
    rw [kind] at rest
    obtain ⟨content, held, away, stays⟩ := planUpdate_accepted viewed known rest accepted
    cases moved : r.moveTarget.filter (· ≠ r.target) with
    | some moveTarget =>
      dsimp only
      rw [held]
      exact away moveTarget moved
    | none =>
      dsimp only
      rw [held]
      exact stays moved

theorem planOps_accepted {resolved : List ResolvedOp} (h : Viewed fs.files files origin seen s)
    (ran : (planOps context resolved s).exec FileSystem.perform fs = (.ok s', fs')) (accepted : s'.problems = []) :
    Viewed fs.files (applyOps resolved files) (resolved.foldl (fun origin r => carry r origin) origin)
      (resolved.foldl (fun seen r => r.mentions seen) seen) s' := by
  induction resolved generalizing s files origin seen with
  | nil =>
    cases ran
    exact h
  | cons r rest ih =>
    obtain ⟨next, mid, stepped, continued⟩ := Program.exec_bind_ok ran
    have same : mid = fs := (congrArg Prod.snd stepped).symm.trans (exec_readOnly planOp_readOnly fs)
    subst same
    have clean : next.problems = [] := List.prefix_nil.mp (accepted ▸ planOps_problems continued)
    exact ih (planOp_accepted h stepped clean) continued

end Steps

/-- The view of an accepted plan is what the operations make of the files one after another. -/
theorem view_sequential {context : ToolContext} {fs fs' : FileSystem} {resolved : List ResolvedOp} {s : Planning}
    (ran : (planOps context resolved {}).exec FileSystem.perform fs = (.ok s, fs')) (accepted : s.problems = []) :
    Viewed fs.files (applyOps resolved fs.files) (originOf resolved) (mentioned resolved) s :=
  planOps_accepted (viewed_empty fs.files) ran accepted

end Bike4Mind.ApplyPatch
