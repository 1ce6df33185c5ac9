import Bike4Mind.Texts.CodeUnits
import Mathlib.Data.Rat.Floor

/-! `SmartChunker.chunkText`: sentences, words and slices within the token limit. -/

namespace Bike4Mind.FileChunks

open Texts

/-- `items.slice(j, j + size)` for every `size`-th `j`, for a size that is not zero -/
def slicesOf {α : Type} (size : Nat) : List α → List (List α)
  | [] => []
  | x :: rest => (x :: rest).take size :: slicesOf size (rest.drop (size - 1))
termination_by items => items.length
decreasing_by
  simp only [List.length_cons, List.length_drop]
  omega

/-- The tokenizer of the OpenAI models. Where a slice of the tokens cuts a character in two it decodes to a replacement
character, so that something to read stays something to read. -/
structure Encoder where
  encode : Text → List Nat
  decode : List Nat → Text
  encode_nil : encode [] = []
  decode_visible : ∀ size text, 0 < size → (∃ c ∈ text, isSpace c = false) →
    ∃ segment ∈ slicesOf size (encode text), ∃ c ∈ decode segment, isSpace c = false

inductive EmbeddingModel where
  | openAI (encoder : Encoder)
  | voyageAI
  | bedrock
  | ollama

def EmbeddingModel.charsPerToken : EmbeddingModel → ℚ
  | .voyageAI => 37 / 10
  | _ => 4

structure SmartChunker where
  model : EmbeddingModel
  chunkTokenLimit : Nat
  positive : 0 < chunkTokenLimit

structure Chunk where
  text : Text
  tokenCount : Nat
deriving DecidableEq

def SPACE : CodeUnit := 0x20

def NEWLINE : CodeUnit := 0x0a

def isLetterOrDigit (c : CodeUnit) : Bool :=
  (0x61 ≤ c && c ≤ 0x7a) || (0x41 ≤ c && c ≤ 0x5a) || (0x30 ≤ c && c ≤ 0x39)

/-- `/data:[^;\s]+;base64,[a-zA-Z0-9+/]+=*/g` -/
def DATA_URL_RE : Regex CodeUnit :=
  .seq (.literal (ascii "data:"))
    (.seq (.plus (.unit fun c => decide (c ≠ 0x3b) && !isSpace c))
      (.seq (.literal (ascii ";base64,"))
        (.seq (.plus (.unit fun c => isLetterOrDigit c || decide (c = 0x2b) || decide (c = 0x2f))) (.star true (.only 0x3d)))))

def DATA_URL_OMITTED : Text := ascii "[DATA_URL_OMITTED]"

def omitDataUrls (content : Text) : Text := DATA_URL_RE.replace content fun _ => DATA_URL_OMITTED

/-- `split` at the whitespace that stands behind what `behind` accepts. -/
def splitSpace (behind : Option CodeUnit → Bool) (before : Option CodeUnit) (piece : Text) : Text → List Text
  | [] => [piece]
  | c :: rest =>
    if behind before && isSpace c then piece :: splitSpace behind (some c) [] (rest.dropWhile isSpace)
    else splitSpace behind (some c) (piece ++ [c]) rest
termination_by text => text.length
decreasing_by
  · have shorter := (List.dropWhile_sublist isSpace : (rest.dropWhile isSpace).Sublist rest).length_le
    simp only [List.length_cons]
    omega
  · simp only [List.length_cons]
    omega

/-- `[.!?]` -/
def endsSentence (c : CodeUnit) : Bool := c = 0x2e || c = 0x21 || c = 0x3f

/-- `content.split(/(?<=[.!?])\s+/)` -/
def sentencesOf (content : Text) : List Text := splitSpace (fun before => before.any endsSentence) none [] content

/-- `sentence.split(/\s+/)` -/
def wordsOf (sentence : Text) : List Text := splitSpace (fun _ => true) none [] sentence

/-- The chunks so far, and what the next one has gathered. -/
structure Gathered where
  chunks : List Chunk
  text : Text
  tokens : Nat
deriving DecidableEq

namespace Gathered

def pushed (gathered : Gathered) : List Chunk := gathered.chunks ++ [⟨trim gathered.text, gathered.tokens⟩]

/-- `if (currentChunk.trim().length > 0) chunks.push(…)` -/
def saved (gathered : Gathered) : List Chunk := if (trim gathered.text).length > 0 then gathered.pushed else gathered.chunks

/-- What has been gathered is saved; only then is it started over. -/
def flushed (gathered : Gathered) : Gathered :=
  if (trim gathered.text).length > 0 then ⟨gathered.pushed, [], 0⟩ else gathered

def add (gathered : Gathered) (text : Text) (tokens : Nat) : Gathered :=
  { gathered with text := gathered.text ++ text, tokens := gathered.tokens + tokens }

end Gathered

namespace SmartChunker
variable (self : SmartChunker)

def countTokens (text : Text) : Nat :=
  match self.model with
  | .openAI encoder => (encoder.encode text).length
  | .voyageAI => ⌈(text.length : ℚ) / (37 / 10)⌉₊
  | .bedrock => ⌈(text.length : ℚ) / 4⌉₊
  | .ollama => ⌈(text.length : ℚ) / 4⌉₊

def splitOversizedSegment (text : Text) : List Chunk :=
  match self.model with
  | .openAI encoder =>
    ((slicesOf self.chunkTokenLimit (encoder.encode text)).map fun segmentTokens =>
      (⟨encoder.decode segmentTokens, segmentTokens.length⟩ : Chunk)).filter fun chunk => (trim chunk.text).length > 0
  | model =>
    let charsPerChunk := ⌊(self.chunkTokenLimit : ℚ) * model.charsPerToken⌋₊
    ((slicesOf charsPerChunk text).filter fun segment => (trim segment).length > 0).map fun segment =>
      ⟨segment, self.countTokens segment⟩

def addWord (gathered : Gathered) (word : Text) : Gathered :=
  let wordWithSpace := word ++ [SPACE]
  let wordTokens := self.countTokens wordWithSpace
  if wordTokens > self.chunkTokenLimit then
    let gathered := gathered.flushed
    { gathered with chunks := gathered.chunks ++ self.splitOversizedSegment word }
  else if gathered.tokens + wordTokens > self.chunkTokenLimit then
    (Gathered.mk gathered.saved [] 0).add wordWithSpace wordTokens
  else gathered.add wordWithSpace wordTokens

def addSentence (gathered : Gathered) (sentence : Text) : Gathered :=
  let sentenceTokens := self.countTokens sentence
  if sentenceTokens > self.chunkTokenLimit then
    let gathered := gathered.flushed
    { gathered with chunks := ((wordsOf sentence).foldl self.addWord ⟨gathered.chunks, [], 0⟩).saved }
  else if gathered.tokens + sentenceTokens > self.chunkTokenLimit then
    (Gathered.mk gathered.pushed [] 0).add (sentence ++ [SPACE]) sentenceTokens
  else gathered.add (sentence ++ [SPACE]) sentenceTokens

def chunkText (content : Text) : List Chunk :=
  ((sentencesOf (omitDataUrls content)).foldl self.addSentence ⟨[], [], 0⟩).saved

end SmartChunker

/-! ### What is left without whitespace -/

/-- A text with its whitespace removed. -/
def solid (text : Text) : Text := text.filter fun c => !isSpace c

section Solid
variable {text text' : Text}

theorem solid_append (text text' : Text) : solid (text ++ text') = solid text ++ solid text' := List.filter_append ..

theorem solid_blank (blank : ∀ c ∈ text, isSpace c = true) : solid text = [] :=
  List.filter_eq_nil_iff.mpr fun c member => by simp [blank c member]

theorem solid_eq_nil : solid text = [] ↔ trim text = [] := by
  rw [trim_eq_nil]
  unfold solid
  simp

theorem solid_dropWhile (text : Text) : solid (text.dropWhile isSpace) = solid text := by
  induction text with
  | nil => rfl
  | cons c rest ih =>
    by_cases space : isSpace c
    · rw [List.dropWhile_cons_of_pos space, ih]
      simp [solid, space]
    · rw [List.dropWhile_cons_of_neg space]

theorem solid_reverse (text : Text) : solid text.reverse = (solid text).reverse := List.filter_reverse ..

theorem solid_trim (text : Text) : solid (trim text) = solid text := by
  unfold trim
  rw [solid_reverse, solid_dropWhile, solid_reverse, solid_dropWhile, List.reverse_reverse]

theorem solid_ne_nil : solid text ≠ [] ↔ ∃ c ∈ text, isSpace c = false := by
  unfold solid
  simp

theorem solid_space : solid [SPACE] = [] := rfl

theorem solid_add_space (text : Text) : solid (text ++ [SPACE]) = solid text := by
  rw [solid_append, solid_space, List.append_nil]

theorem splitSpace_solid (behind : Option CodeUnit → Bool) (before : Option CodeUnit) (piece text : Text) :
    solid (splitSpace behind before piece text).flatten = solid piece ++ solid text := by
  induction before, piece, text using splitSpace.induct behind with
  | case1 before piece =>
    rw [splitSpace, List.flatten_cons, List.flatten_nil, List.append_nil]
    exact (List.append_nil _).symm
  | case2 before piece c rest cut ih =>
    rw [splitSpace, if_pos cut, List.flatten_cons, solid_append, ih, solid_dropWhile]
    have space := (Bool.and_eq_true_iff.mp cut).2
    simp [solid, space]
  | case3 before piece c rest uncut ih =>
    rw [splitSpace, if_neg uncut, ih, solid_append, List.append_assoc, ← solid_append]
    rfl

theorem slicesOf_flatten {α : Type} {size : Nat} (positive : 0 < size) (items : List α) : (slicesOf size items).flatten = items := by
  induction items using slicesOf.induct size with
  | case1 => rw [slicesOf, List.flatten_nil]
  | case2 x rest ih =>
    have tail : rest.drop (size - 1) = (x :: rest).drop size := by
      obtain ⟨less, same⟩ := Nat.exists_eq_succ_of_ne_zero positive.ne'
      rw [same]
      rfl
    rw [slicesOf, List.flatten_cons, ih, tail, List.take_append_drop]

theorem slicesOf_length {α : Type} {size : Nat} {items slice : List α} (member : slice ∈ slicesOf size items) : slice.length ≤ size := by
  induction items using slicesOf.induct size with
  | case1 =>
    rw [slicesOf] at member
    cases member
  | case2 x rest ih =>
    rw [slicesOf] at member
    rcases List.mem_cons.mp member with first | later
    · rw [first]
      exact List.length_take_le _ _
    · exact ih later

end Solid

/-- A data URL leaves its mark, so a text with something to read has still something to read. -/
theorem omitDataUrls_solid {content : Text} (some : solid content ≠ []) : solid (omitDataUrls content) ≠ [] := by
  obtain ⟨c, kept⟩ := List.exists_mem_of_ne_nil _ some
  obtain ⟨member, visible⟩ := List.mem_filter.mp kept
  rcases Regex.mem_replace member with stays | ⟨hit, replaced⟩
  · exact List.ne_nil_of_mem (List.mem_filter.mpr ⟨stays, visible⟩)
  · have bracket : (0x5b : CodeUnit) ∈ DATA_URL_OMITTED := by decide
    exact List.ne_nil_of_mem (List.mem_filter.mpr ⟨replaced bracket, rfl⟩)

/-! ### The chunks spell the text -/

/-- What the chunks say, without whitespace. -/
def spelled (chunks : List Chunk) : Text := solid (chunks.map (·.text)).flatten

section Spelled
variable {chunks chunks' : List Chunk} {gathered : Gathered}

theorem spelled_append (chunks chunks' : List Chunk) : spelled (chunks ++ chunks') = spelled chunks ++ spelled chunks' := by
  unfold spelled
  rw [List.map_append, List.flatten_append, solid_append]

theorem spelled_singleton (text : Text) (tokens : Nat) : spelled [⟨text, tokens⟩] = solid text := by
  unfold spelled
  rw [List.map_singleton, List.flatten_singleton]

namespace Gathered

/-- What has been saved and gathered so far. -/
def spelling (gathered : Gathered) : Text := spelled gathered.chunks ++ solid gathered.text

theorem pushed_spelling (gathered : Gathered) : spelled gathered.pushed = gathered.spelling := by
  unfold pushed spelling
  rw [spelled_append, spelled_singleton, solid_trim]

theorem blank_spelling (blank : ¬(trim gathered.text).length > 0) : gathered.spelling = spelled gathered.chunks := by
  have none : solid gathered.text = [] := solid_eq_nil.mpr (List.length_eq_zero_iff.mp (by omega))
  unfold spelling
  rw [none, List.append_nil]

theorem saved_spelling (gathered : Gathered) : spelled gathered.saved = gathered.spelling := by
  unfold saved
  split
  · exact pushed_spelling gathered
  · rename_i blank
    exact (blank_spelling blank).symm

theorem flushed_spelling (gathered : Gathered) : spelled gathered.flushed.chunks = gathered.spelling ∧ solid gathered.flushed.text = [] := by
  unfold flushed
  split
  · exact ⟨pushed_spelling gathered, rfl⟩
  · rename_i blank
    exact ⟨(blank_spelling blank).symm, solid_eq_nil.mpr (List.length_eq_zero_iff.mp (by omega))⟩

theorem restarted_spelling (chunks : List Chunk) : (Gathered.mk chunks [] 0).spelling = spelled chunks := List.append_nil _

theorem add_spelling (gathered : Gathered) (text : Text) (tokens : Nat) :
    (gathered.add text tokens).spelling = gathered.spelling ++ solid text := by
  unfold add spelling
  rw [solid_append, List.append_assoc]

end Gathered

end Spelled

/-! ### Models that count characters -/

namespace SmartChunker
variable {self : SmartChunker}

/-- The embedding models outside the OpenAI family. -/
def CountsCharacters (self : SmartChunker) : Prop := ∀ encoder, self.model ≠ .openAI encoder

def charsPerChunk (self : SmartChunker) : Nat := ⌊(self.chunkTokenLimit : ℚ) * self.model.charsPerToken⌋₊

theorem charsPerToken_ge (model : EmbeddingModel) : 1 ≤ model.charsPerToken := by
  cases model <;> norm_num [EmbeddingModel.charsPerToken]

theorem charsPerChunk_pos (self : SmartChunker) : 0 < self.charsPerChunk := by
  have limit : (1 : ℚ) ≤ self.chunkTokenLimit := by exact_mod_cast self.positive
  have ratio := charsPerToken_ge self.model
  apply Nat.floor_pos.mpr
  nlinarith

theorem countTokens_eq (counts : self.CountsCharacters) (text : Text) :
    self.countTokens text = ⌈(text.length : ℚ) / self.model.charsPerToken⌉₊ := by
  unfold countTokens
  cases model : self.model with
  | openAI encoder => exact (counts encoder model).elim
  | voyageAI => rfl
  | bedrock => rfl
  | ollama => rfl

/-- A text fits the limit exactly when it has no more characters than a slice. -/
theorem fits_iff (counts : self.CountsCharacters) (text : Text) :
    self.countTokens text ≤ self.chunkTokenLimit ↔ text.length ≤ self.charsPerChunk := by
  have ratio : 0 < self.model.charsPerToken := lt_of_lt_of_le one_pos (charsPerToken_ge self.model)
  unfold charsPerChunk
  rw [countTokens_eq counts, Nat.ceil_le, div_le_iff₀ ratio, Nat.le_floor_iff (by positivity)]

theorem splitOversizedSegment_eq (counts : self.CountsCharacters) (text : Text) : self.splitOversizedSegment text =
    ((slicesOf self.charsPerChunk text).filter fun segment => (trim segment).length > 0).map fun segment =>
      ⟨segment, self.countTokens segment⟩ := by
  unfold splitOversizedSegment charsPerChunk
  cases model : self.model with
  | openAI encoder => exact (counts encoder model).elim
  | voyageAI => rfl
  | bedrock => rfl
  | ollama => rfl

theorem filter_solid (texts : List Text) : solid (texts.filter fun text => (trim text).length > 0).flatten = solid texts.flatten := by
  induction texts with
  | nil => rfl
  | cons text texts ih =>
    rw [List.flatten_cons, solid_append, ← ih, List.filter_cons]
    split
    · rw [List.flatten_cons, solid_append]
    · rename_i blank
      have none : solid text = [] := solid_eq_nil.mpr (by simpa using blank)
      rw [none, List.nil_append]

theorem splitOversizedSegment_spelled (counts : self.CountsCharacters) (text : Text) :
    spelled (self.splitOversizedSegment text) = solid text := by
  unfold spelled
  rw [splitOversizedSegment_eq counts, List.map_map]
  have texts := filter_solid (slicesOf self.charsPerChunk text)
  rw [slicesOf_flatten self.charsPerChunk_pos] at texts
  rw [← texts]
  exact congrArg (fun texts => solid texts.flatten) (List.map_id _)

theorem splitOversizedSegment_fits (counts : self.CountsCharacters) {text : Text} {chunk : Chunk}
    (member : chunk ∈ self.splitOversizedSegment text) :
    chunk.tokenCount = self.countTokens chunk.text ∧ self.countTokens chunk.text ≤ self.chunkTokenLimit := by
  rw [splitOversizedSegment_eq counts] at member
  obtain ⟨segment, kept, same⟩ := List.mem_map.mp member
  subst same
  exact ⟨rfl, (fits_iff counts segment).mpr (slicesOf_length (List.mem_filter.mp kept).1)⟩

theorem addWord_spelling (counts : self.CountsCharacters) (gathered : Gathered) (word : Text) :
    (self.addWord gathered word).spelling = gathered.spelling ++ solid word := by
  simp only [addWord]
  split
  · obtain ⟨chunks, text⟩ := gathered.flushed_spelling
    simp only [Gathered.spelling]
    rw [spelled_append, chunks, text, splitOversizedSegment_spelled counts, List.append_nil]
    rfl
  · split
    · rw [Gathered.add_spelling, Gathered.restarted_spelling, Gathered.saved_spelling, solid_add_space]
    · rw [Gathered.add_spelling, solid_add_space]

theorem addWords_spelling (counts : self.CountsCharacters) (gathered : Gathered) (words : List Text) :
    (words.foldl self.addWord gathered).spelling = gathered.spelling ++ solid words.flatten := by
  induction words generalizing gathered with
  | nil => exact (List.append_nil _).symm
  | cons word words ih => rw [List.foldl_cons, ih, addWord_spelling counts, List.flatten_cons, solid_append, List.append_assoc]

theorem addSentence_spelling (counts : self.CountsCharacters) (gathered : Gathered) (sentence : Text) :
    (self.addSentence gathered sentence).spelling = gathered.spelling ++ solid sentence := by
  simp only [addSentence]
  split
  · obtain ⟨chunks, text⟩ := gathered.flushed_spelling
    have words : solid (wordsOf sentence).flatten = solid sentence := splitSpace_solid _ none [] sentence
    unfold Gathered.spelling
    dsimp only
    rw [text, List.append_nil, Gathered.saved_spelling, addWords_spelling counts, Gathered.restarted_spelling, chunks, words]
    rfl
  · split
    · rw [Gathered.add_spelling, Gathered.restarted_spelling, Gathered.pushed_spelling, solid_add_space]
    · rw [Gathered.add_spelling, solid_add_space]

theorem addSentences_spelling (counts : self.CountsCharacters) (gathered : Gathered) (sentences : List Text) :
    (sentences.foldl self.addSentence gathered).spelling = gathered.spelling ++ solid sentences.flatten := by
  induction sentences generalizing gathered with
  | nil => exact (List.append_nil _).symm
  | cons sentence sentences ih =>
    rw [List.foldl_cons, ih, addSentence_spelling counts, List.flatten_cons, solid_append, List.append_assoc]

/-- Nothing of the text is lost or moved before the chunks are checked. -/
theorem chunkText_spelled (counts : self.CountsCharacters) (content : Text) :
    spelled (self.chunkText content) = solid (omitDataUrls content) := by
  have sentences : solid (sentencesOf (omitDataUrls content)).flatten = solid (omitDataUrls content) :=
    splitSpace_solid _ none [] _
  unfold chunkText
  rw [Gathered.saved_spelling, addSentences_spelling counts, sentences]
  rfl

end SmartChunker

/-! ### Which texts have chunks -/

section Blank
variable {content word : Text} {before : Option CodeUnit} {piece : Text}

theorem omitDataUrls_blank (blank : ∀ c ∈ content, isSpace c = true) : omitDataUrls content = content := by
  unfold omitDataUrls
  induction content with
  | nil => decide
  | cons c rest ih =>
    have fails : DATA_URL_RE.first (c :: rest) = none := by
      rw [Regex.first_eq_find]
      unfold DATA_URL_RE
      rw [Regex.find_seq, Regex.find_literal_take, if_neg]
      intro opens
      have same := (List.prefix_iff_eq_take.mp (of_decide_eq_true opens)).symm
      have marker : (ascii "data:").head? = some 0x64 := by decide
      rw [← same] at marker
      have letter : c = 0x64 := Option.some.inj marker
      have space := blank c List.mem_cons_self
      rw [letter] at space
      exact Bool.noConfusion space
    have blind : Regex.Blind fun _ : Match CodeUnit => DATA_URL_OMITTED := fun _ _ _ _ => rfl
    rw [Regex.replace_plain blind fails, ih fun d member => blank d (List.mem_cons_of_mem _ member)]

theorem splitSpace_blank {behind : Option CodeUnit → Bool} {text : Text} (start : behind before = false)
    (never : ∀ c ∈ text, behind (some c) = false) : splitSpace behind before piece text = [piece ++ text] := by
  induction text generalizing before piece with
  | nil => rw [splitSpace, List.append_nil]
  | cons c rest ih =>
    rw [splitSpace, if_neg (by rw [start]; exact Bool.false_ne_true), ih (never c List.mem_cons_self) fun d member =>
      never d (List.mem_cons_of_mem _ member), List.append_assoc]
    rfl

theorem sentencesOf_blank (blank : ∀ c ∈ content, isSpace c = true) : sentencesOf content = [content] := by
  refine splitSpace_blank rfl fun c member => ?_
  have space := blank c member
  show endsSentence c = false
  unfold endsSentence
  rw [Bool.or_eq_false_iff, Bool.or_eq_false_iff, decide_eq_false_iff_not, decide_eq_false_iff_not, decide_eq_false_iff_not]
  refine ⟨⟨fun same => ?_, fun same => ?_⟩, fun same => ?_⟩ <;> rw [same] at space <;> exact Bool.noConfusion space

theorem wordsOf_solid (visible : ∀ c ∈ piece, isSpace c = false) {text : Text}
    (member : word ∈ splitSpace (fun _ => true) before piece text) : ∀ c ∈ word, isSpace c = false := by
  induction before, piece, text using splitSpace.induct (fun _ => true) with
  | case1 before piece =>
    rw [splitSpace] at member
    rw [List.mem_singleton.mp member]
    exact visible
  | case2 before piece c rest cut ih =>
    rw [splitSpace, if_pos cut] at member
    rcases List.mem_cons.mp member with first | later
    · rw [first]
      exact visible
    · exact ih (fun _ none => by cases none) later
  | case3 before piece c rest uncut ih =>
    rw [splitSpace, if_neg uncut] at member
    refine ih (fun d inside => ?_) member
    rcases List.mem_append.mp inside with early | last
    · exact visible d early
    · rw [List.mem_singleton.mp last]
      simpa using uncut

theorem wordsOf_blank (blank : ∀ c ∈ content, isSpace c = true) : ∀ word ∈ wordsOf content, word = [] := by
  intro word member
  have visible := @wordsOf_solid word none [] (fun _ none => by cases none) content member
  have whole : solid (wordsOf content).flatten = [] := (splitSpace_solid _ none [] content).trans (solid_blank blank)
  have part : solid word = [] := by
    by_contra some
    obtain ⟨c, inside, seen⟩ := solid_ne_nil.mp some
    exact solid_ne_nil.mpr ⟨c, List.mem_flatten_of_mem member inside, seen⟩ whole
  by_contra some
  obtain ⟨c, inside⟩ := List.exists_mem_of_ne_nil word some
  exact solid_ne_nil.mpr ⟨c, inside, visible c inside⟩ part

end Blank

namespace Gathered
variable {gathered : Gathered}

/-- Something to read has been saved or gathered. -/
def Reached (gathered : Gathered) : Prop := gathered.chunks ≠ [] ∨ solid gathered.text ≠ []

theorem pushed_ne_nil : gathered.pushed ≠ [] := List.append_ne_nil_of_right_ne_nil _ (List.cons_ne_nil _ _)

theorem visible_iff : (trim gathered.text).length > 0 ↔ solid gathered.text ≠ [] := by
  rw [Ne, solid_eq_nil, ← List.length_eq_zero_iff]
  omega

theorem saved_ne_nil : gathered.saved ≠ [] ↔ gathered.Reached := by
  unfold saved Reached
  split
  · rename_i visible
    exact ⟨fun _ => .inr (visible_iff.mp visible), fun _ => pushed_ne_nil⟩
  · rename_i blank
    exact ⟨.inl, fun reached => reached.resolve_right fun visible => blank (visible_iff.mpr visible)⟩

theorem flushed_ne_nil : gathered.flushed.chunks ≠ [] ↔ gathered.Reached := by
  rw [← saved_ne_nil]
  unfold saved flushed
  split <;> rfl

theorem flushed_blank (nothing : ¬gathered.Reached) : gathered.flushed = gathered := by
  unfold flushed
  exact if_neg fun visible => nothing (.inr (visible_iff.mp visible))

theorem add_reached {text : Text} {tokens : Nat} : (gathered.add text tokens).Reached ↔ gathered.Reached ∨ solid text ≠ [] := by
  unfold add Reached
  rw [solid_append]
  simp only [ne_eq, List.append_eq_nil_iff, not_and_or, or_assoc]

theorem restarted_reached {chunks : List Chunk} : (Gathered.mk chunks [] 0).Reached ↔ chunks ≠ [] :=
  ⟨fun reached => reached.resolve_right fun visible => visible rfl, .inl⟩

end Gathered

namespace SmartChunker
variable {self : SmartChunker}

theorem splitOversizedSegment_nil : self.splitOversizedSegment [] = [] := by
  unfold splitOversizedSegment
  cases self.model with
  | openAI encoder =>
    dsimp only
    rw [encoder.encode_nil, slicesOf]
    rfl
  | voyageAI =>
    dsimp only
    rw [slicesOf]
    rfl
  | bedrock =>
    dsimp only
    rw [slicesOf]
    rfl
  | ollama =>
    dsimp only
    rw [slicesOf]
    rfl

theorem splitOversizedSegment_ne_nil {text : Text} (visible : solid text ≠ []) : self.splitOversizedSegment text ≠ [] := by
  by_cases counts : self.CountsCharacters
  · intro nothing
    have same := splitOversizedSegment_spelled counts text
    rw [nothing] at same
    exact visible same.symm
  · unfold CountsCharacters at counts
    push Not at counts
    obtain ⟨encoder, model⟩ := counts
    unfold splitOversizedSegment
    rw [model]
    obtain ⟨segment, member, c, inside, seen⟩ :=
      encoder.decode_visible self.chunkTokenLimit text self.positive (solid_ne_nil.mp visible)
    have kept : 0 < (trim (encoder.decode segment)).length := by
      rw [List.length_pos_iff, ne_eq, ← solid_eq_nil]
      exact solid_ne_nil.mpr ⟨c, inside, seen⟩
    exact List.ne_nil_of_mem (List.mem_filter.mpr ⟨List.mem_map.mpr ⟨segment, member, rfl⟩, decide_eq_true kept⟩)

theorem addWord_reached {gathered : Gathered} {word : Text} (reached : gathered.Reached ∨ solid word ≠ []) :
    (self.addWord gathered word).Reached := by
  simp only [addWord]
  split
  · left
    dsimp only
    rcases reached with before | visible
    · exact List.append_ne_nil_of_left_ne_nil (Gathered.flushed_ne_nil.mpr before) _
    · exact List.append_ne_nil_of_right_ne_nil _ (splitOversizedSegment_ne_nil visible)
  · split
    · rw [Gathered.add_reached, Gathered.restarted_reached, Gathered.saved_ne_nil, solid_add_space]
      exact reached
    · rw [Gathered.add_reached, solid_add_space]
      exact reached

theorem addWords_reached {gathered : Gathered} {words : List Text} (reached : gathered.Reached ∨ solid words.flatten ≠ []) :
    (words.foldl self.addWord gathered).Reached := by
  induction words generalizing gathered with
  | nil => exact reached.resolve_right fun visible => visible rfl
  | cons word words ih =>
    apply ih
    rw [List.flatten_cons, solid_append, ne_eq, List.append_eq_nil_iff, not_and_or, ← or_assoc] at reached
    exact reached.imp_left addWord_reached

theorem addWord_nil {gathered : Gathered} (nothing : ¬gathered.Reached) : ¬(self.addWord gathered []).Reached := by
  simp only [addWord]
  split
  · rw [Gathered.flushed_blank nothing, splitOversizedSegment_nil, List.append_nil]
    exact nothing
  · split
    · rw [Gathered.add_reached, Gathered.restarted_reached, Gathered.saved_ne_nil, List.nil_append, solid_space]
      exact fun either => either.elim nothing fun visible => visible rfl
    · rw [Gathered.add_reached, List.nil_append, solid_space]
      exact fun either => either.elim nothing fun visible => visible rfl

theorem addWords_nil {gathered : Gathered} {words : List Text} (nothing : ¬gathered.Reached) (blank : ∀ word ∈ words, word = []) :
    ¬(words.foldl self.addWord gathered).Reached := by
  induction words generalizing gathered with
  | nil => exact nothing
  | cons word words ih =>
    rw [List.foldl_cons, blank word List.mem_cons_self]
    exact ih (addWord_nil nothing) fun other member => blank other (List.mem_cons_of_mem _ member)

theorem addSentence_reached {gathered : Gathered} {sentence : Text} (reached : gathered.Reached ∨ solid sentence ≠ []) :
    (self.addSentence gathered sentence).Reached := by
  simp only [addSentence]
  split
  · left
    dsimp only
    rw [Gathered.saved_ne_nil]
    apply addWords_reached
    rw [Gathered.restarted_reached, Gathered.flushed_ne_nil]
    have words : solid (wordsOf sentence).flatten = solid sentence := splitSpace_solid _ none [] sentence
    rw [words]
    exact reached
  · split
    · rw [Gathered.add_reached, Gathered.restarted_reached, solid_add_space]
      exact .inl Gathered.pushed_ne_nil
    · rw [Gathered.add_reached, solid_add_space]
      exact reached

theorem addSentences_reached {gathered : Gathered} {sentences : List Text} (reached : gathered.Reached ∨ solid sentences.flatten ≠ []) :
    (sentences.foldl self.addSentence gathered).Reached := by
  induction sentences generalizing gathered with
  | nil => exact reached.resolve_right fun visible => visible rfl
  | cons sentence sentences ih =>
    apply ih
    rw [List.flatten_cons, solid_append, ne_eq, List.append_eq_nil_iff, not_and_or, ← or_assoc] at reached
    exact reached.imp_left addSentence_reached

theorem chunkText_blank {content : Text} (blank : ∀ c ∈ content, isSpace c = true) : self.chunkText content = [] := by
  by_contra some
  unfold chunkText at some
  rw [omitDataUrls_blank blank, sentencesOf_blank blank, ← ne_eq, Gathered.saved_ne_nil, List.foldl_cons, List.foldl_nil] at some
  have start : ¬(Gathered.mk [] [] 0).Reached := by
    rw [Gathered.restarted_reached]
    exact fun some => some rfl
  revert some
  simp only [addSentence]
  split
  · intro either
    rw [Gathered.flushed_blank start] at either
    refine either.elim (fun some => ?_) fun visible => visible rfl
    exact addWords_nil start (wordsOf_blank blank) (Gathered.saved_ne_nil.mp some)
  · rw [if_neg (by omega), Gathered.add_reached, solid_add_space]
    exact fun either => either.elim start fun visible => visible (solid_blank blank)

theorem chunkText_ne_nil {content : Text} : self.chunkText content ≠ [] ↔ ∃ c ∈ content, isSpace c = false := by
  constructor
  · intro some
    by_contra blank
    push Not at blank
    exact some (chunkText_blank fun c member => by simpa using blank c member)
  · intro visible
    have sentences : solid (sentencesOf (omitDataUrls content)).flatten = solid (omitDataUrls content) :=
      splitSpace_solid _ none [] _
    refine Gathered.saved_ne_nil.mpr (addSentences_reached (.inr ?_))
    rw [sentences]
    exact omitDataUrls_solid (solid_ne_nil.mpr visible)

end SmartChunker

end Bike4Mind.FileChunks
