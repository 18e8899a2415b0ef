import YapLang.Proofs.LexicalForms

/-!
# Source text is tiled by its tokens

The tokens of a source text, the gaps and the comments between them make up the text, without
anything left out or counted twice. Where a token stands can be told from the text in front of it
alone: its line from the line feeds, its column from the characters since the last of them. If
scanning fails, the same holds of the text in front of the place of the error, and nothing that
could stand there does.
-/
namespace YapLang

/-! ### Places -/

/-- The place right after a text: its line feeds tell the line, and the characters behind the last
of them the column. -/
def Position.afterText (cs : List Char) : Position :=
  ⟨1 + cs.count '\n', 1 + (cs.reverse.takeWhile (· ≠ '\n')).length⟩

theorem Position.after_afterText (cs : List Char) (c : Char) :
    (afterText cs).after c = afterText (cs ++ [c]) := by
  by_cases feed : c = '\n'
  · simp [afterText, after, feed, Nat.add_assoc]
  · simp [afterText, after, feed, Nat.add_comm]

theorem Position.afterAll_afterText (before cs : List Char) :
    (afterText before).afterAll cs = afterText (before ++ cs) := by
  induction cs generalizing before with
  | nil => rw [List.append_nil]; rfl
  | cons c cs ih =>
    rw [afterAll, List.foldl_cons, ← afterAll, after_afterText, ih, List.append_assoc]
    rfl

/-! ### Words -/

namespace Lexeme

/-- The words that are keywords. -/
def keywords : List String :=
  ["function", "let", "if", "else", "for", "while", "return", "break", "continue"]

/-- The words of the older vocabulary, and the keywords that they stand for. -/
def slang : List (String × String) :=
  [ ("skibidi", "function"), ("rizz", "let"), ("cooked", "let"), ("edging", "if"),
    ("amogus", "else"), ("flex", "for"), ("goon", "while"), ("bussin", "return"),
    ("bruh", "break"), ("grind", "continue") ]

/-- A token of the kind and text is written as the piece. It has the text of the piece, but for
words of the older vocabulary and the call marker; and no name is one of the words that stand for
keywords. -/
inductive Writes : Form → (piece : String) → Token.Kind → String → Prop where
  | string {piece} : Writes .string piece .string piece
  | number {piece} : Writes .number piece .number piece
  | punctuation {piece} : Writes .punctuation piece .punctuation piece
  | callMarker {piece} : Writes .callMarker piece .keyword "call"
  | keyword {piece} : piece ∈ keywords → Writes .word piece .keyword piece
  | slang {piece keyword} : (piece, keyword) ∈ slang → Writes .word piece .keyword keyword
  | name {piece} : piece ∉ keywords → (∀ keyword, (piece, keyword) ∉ slang) →
      Writes .word piece .identifier piece

theorem listed_of_keyword? {word keyword : String} (found : keyword? word = some keyword) :
    (word = keyword ∧ word ∈ keywords) ∨ (word, keyword) ∈ slang := by
  unfold keyword? at found
  split at found <;> cases found <;> decide

theorem not_mem_of_keyword? {word : String} (none : keyword? word = none) :
    word ∉ keywords ∧ ∀ keyword, (word, keyword) ∉ slang := by
  have known : ∀ word ∈ keywords, keyword? word ≠ .none := by decide
  have older : ∀ entry ∈ slang, keyword? entry.1 ≠ .none := by decide
  exact ⟨fun listed => known word listed none, fun keyword listed => older _ listed none⟩

theorem writes_of_token? {form : Form} {piece text : String} {kind : Token.Kind}
    (kept : token? form piece = some (kind, text)) : Writes form piece kind text := by
  cases form <;> simp only [token?] at kept
  case blockComment | lineComment | gap => cases kept
  case callMarker =>
    cases kept
    exact .callMarker
  case string =>
    cases kept
    exact .string
  case number =>
    cases kept
    exact .number
  case punctuation =>
    cases kept
    exact .punctuation
  case word =>
    split at kept
    next keyword known =>
      cases kept
      rcases listed_of_keyword? known with ⟨rfl, listed⟩ | listed
      · exact .keyword listed
      · exact .slang listed
    next unknown =>
      cases kept
      obtain ⟨noKeyword, noSlang⟩ := not_mem_of_keyword? unknown
      exact .name noKeyword noSlang

/-- The forms of what stands between tokens. -/
def Form.IsFiller (form : Form) : Prop :=
  form = .gap ∨ form = .lineComment ∨ form = .blockComment

theorem isFiller_of_token? {form : Form} {piece : String} (none : token? form piece = none) :
    form.IsFiller := by
  cases form <;> simp only [token?] at none
  case blockComment => exact .inr (.inr rfl)
  case lineComment => exact .inr (.inl rfl)
  case gap => exact .inl rfl
  case word => split at none <;> cases none
  all_goals cases none

end Lexeme

/-! ### Tiles -/

open Lexeme (Form Writes)

/-- Between the text in front of it and the rest behind it, the text is made of fillers and of the
written forms of the tokens, in that order. Each token stands where its written form begins. -/
inductive Token.Tile : (before text rest : List Char) → List Token → Prop where
  | done {before rest} : Tile before [] rest []
  | filler {before piece text rest tokens} (form : Form) :
      form.IsFiller → form.Chosen piece (text ++ rest) →
      Tile (before ++ piece) text rest tokens → Tile before (piece ++ text) rest tokens
  | token {before piece text rest kind word tokens} (form : Form) :
      Writes form (String.ofList piece) kind word → form.Chosen piece (text ++ rest) →
      Tile (before ++ piece) text rest tokens →
      Tile before (piece ++ text) rest (⟨kind, word, .afterText before⟩ :: tokens)

namespace Token

/-- A piece in front of a tiled text is a filler, or it is the token that is kept for it. -/
theorem Tile.cut {form : Form} {before piece text rest : List Char} {tokens : List Token}
    (chosen : form.Chosen piece (text ++ rest)) (tile : Tile (before ++ piece) text rest tokens)
    (front : List Token) :
    ∃ more, Tile before (piece ++ text) rest more ∧
      (keep form piece (.afterText before) front).reverse ++ tokens = front.reverse ++ more := by
  unfold keep
  split
  next kind word kept =>
    -- a piece that is kept is a token at the place where it begins
    have written := Lexeme.writes_of_token? kept
    exact ⟨_, .token form written chosen tile, by simp⟩
  next none =>
    -- and one that is not kept is a gap or a comment
    have filler := Lexeme.isFiller_of_token? none
    exact ⟨tokens, .filler form filler chosen tile, rfl⟩

/-- What the outcome of scanning tells of a text that stands behind another one, after the tokens of
which it was reached: it is tiled as a whole, or up to a character where nothing fits. -/
def Told (before text : List Char) (front : List Token) : Except SourceError (List Token) → Prop
  | .ok tokens => ∃ more, Tile before text [] more ∧ tokens = front.reverse ++ more
  | .error e => ∃ tiled c rest more,
      text = tiled ++ c :: rest ∧ Tile before tiled (c :: rest) more ∧
      e = .noToken c (.afterText (before ++ tiled)) ∧
      ∀ form piece after, piece ++ after = c :: rest → ¬Form.Fits form piece after

theorem Told.cut {form : Form} {before piece text : List Char} {front : List Token}
    {outcome : Except SourceError (List Token)} (chosen : form.Chosen piece text)
    (told : Told (before ++ piece) text (keep form piece (.afterText before) front) outcome) :
    Told before (piece ++ text) front outcome := by
  cases outcome with
  | ok tokens =>
    obtain ⟨more, tile, rfl⟩ := told
    exact tile.cut (by rwa [List.append_nil]) front
  | error e =>
    obtain ⟨tiled, c, rest, more, rfl, tile, rfl, nothing⟩ := told
    obtain ⟨others, further, -⟩ := tile.cut chosen front
    refine ⟨piece ++ tiled, c, rest, others, by rw [List.append_assoc], further, ?_, nothing⟩
    rw [List.append_assoc]

/-- Each piece takes at least one character, so the fuel lasts as long as the text. -/
theorem told_scanFrom {fuel : Nat} {text : List Char} (enough : text.length ≤ fuel)
    (before : List Char) (front : List Token) :
    Told before text front (scanFrom fuel (.afterText before) front text) := by
  induction fuel generalizing text before front with
  | zero =>
    obtain rfl : text = [] := List.length_eq_zero_iff.1 (Nat.le_zero.1 enough)
    exact ⟨[], .done, by simp⟩
  | succ fuel ih =>
    cases text with
    | nil => exact ⟨[], .done, by simp⟩
    | cons c cs =>
      cases found : Lexeme.first? (c :: cs) with
      | none =>
        rw [scanFrom, found]
        refine ⟨[], c, cs, [], rfl, .done, by rw [List.append_nil], ?_⟩
        exact fun form piece after whole => Lexeme.not_fits_of_first? found form whole
      | some first =>
        obtain ⟨form, piece, rest⟩ := first
        obtain ⟨-, -, nonempty⟩ := Lexeme.of_first? found
        obtain ⟨whole, chosen⟩ := Lexeme.chosen_of_first? found
        have shorter : rest.length ≤ fuel := by
          have positive : 0 < piece.length := List.length_pos_iff.2 nonempty
          have lengths := congrArg List.length whole
          rw [List.length_append] at lengths
          omega
        -- the rest is tiled behind the piece, and the piece is set in front of it
        have told := ih shorter (before ++ piece) (keep form piece (.afterText before) front)
        rw [← Position.afterAll_afterText] at told
        rw [scanFrom, found, ← whole]
        exact told.cut chosen

/-- Source text is tiled by its tokens, the gaps and the comments, and each token stands where its
lexeme begins. If there are no tokens for it, then its part in front of the place of the error is
tiled, and at that place no form of a token, a gap or a comment fits. -/
theorem scanning_tiles_source (source : String) :
    match scan source with
    | .ok tokens => Tile [] source.toList [] tokens
    | .error e => ∃ before c rest tokens, source.toList = before ++ c :: rest ∧
        Tile [] before (c :: rest) tokens ∧ e = .noToken c (.afterText before) ∧
        ∀ form piece after, piece ++ after = c :: rest → ¬Form.Fits form piece after := by
  have told := told_scanFrom (Nat.le_of_eq (String.length_toList (s := source))) [] []
  rw [show scanFrom source.length (.afterText []) [] source.toList = scan source from rfl] at told
  cases outcome : scan source with
  | ok tokens =>
    rw [outcome] at told
    obtain ⟨more, tile, rfl⟩ := told
    exact tile
  | error e =>
    rw [outcome] at told
    obtain ⟨before, c, rest, tokens, whole, tile, rfl, nothing⟩ := told
    exact ⟨before, c, rest, tokens, whole, tile, rfl, nothing⟩

end Token

end YapLang
