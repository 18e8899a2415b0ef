import YapLang.Proofs.LexicalForms
import YapLang.Proofs.TextLetters
import YapLang.Tree.Reading

/-!
# What the tokens of source text stand for

Every number token stands for a double, and so does every text with the form of a number. A string
token is quoted text; read as source text it stands for a text, and read as data it stands for that
text too.
-/
namespace YapLang

/-! ### Numbers -/

theorem Token.Lexical.exists_numeral {t : Token} (lexical : t.Lexical) (kind : t.kind = .number) :
    ∃ n : Numeral, n.Formed ∧ t.text = String.ofList n.text := by
  obtain ⟨_, text, _⟩ := t
  obtain rfl := kind
  obtain ⟨form, cs, piece, rest, cut, kept⟩ := lexical
  have fits := Lexeme.Form.fits_of_cut? cut
  cases form <;> simp only [Lexeme.token?] at kept
  case number =>
    cases kept
    obtain ⟨n, formed, rfl⟩ := fits
    exact ⟨n, formed, rfl⟩
  case word => split at kept <;> cases kept
  all_goals cases kept

theorem Token.Lexical.exists_number {t : Token} (lexical : t.Lexical) (kind : t.kind = .number) :
    ∃ x, Text.tokenNumber? t.text = some x := by
  obtain ⟨n, formed, text⟩ := lexical.exists_numeral kind
  exact ⟨_, by rw [text, Numeral.tokenNumber?_text formed]⟩

/-- What counts as a number in a text is read as that number. -/
theorem Text.tokenNumber?_of_signedNumber? {cs : List Char} {x : Float}
    (counts : signedNumber? cs = some x) : tokenNumber? (String.ofList cs) = some x := by
  have joined := Numeral.splitSign_append cs
  have isSign : ∀ c ∈ (Numeral.splitSign cs).1, c = '+' ∨ c = '-' := Numeral.mem_splitSign
  unfold signedNumber? at counts
  generalize Numeral.splitSign cs = parts at joined isSign counts
  obtain ⟨sign, magnitude⟩ := parts
  subst joined
  dsimp only at isSign counts ⊢
  split at counts
  next isWord =>
    cases counts
    subst isWord
    cases sign with
    | none => rfl
    | some c => rcases isSign c rfl with rfl | rfl <;> rfl
  next =>
    obtain ⟨n, isNumeral, rfl⟩ := Option.map_eq_some_iff.1 counts
    unfold Numeral.ofText? at isNumeral
    split at isNumeral
    next found =>
      cases isNumeral
      -- nothing is left over, so the whole text is the numeral
      have isText := Numeral.text_append_of_split? found
      rw [List.append_nil] at isText
      rw [← isText]
      exact Numeral.tokenNumber?_signed (Numeral.formed_of_split? found) isSign
    next => cases isNumeral

/-! ### Quoted texts -/

theorem Token.Lexical.quotable {t : Token} (lexical : t.Lexical) (kind : t.kind = .string) :
    ∃ quote body, (quote = '"' ∨ quote = '\'') ∧ t.text.toList = quote :: (body ++ [quote]) ∧
      Lexeme.Quotable quote body := by
  obtain ⟨_, text, _⟩ := t
  obtain rfl := kind
  obtain ⟨form, cs, piece, rest, cut, kept⟩ := lexical
  have fits := Lexeme.Form.fits_of_cut? cut
  cases form <;> simp only [Lexeme.token?] at kept
  case string =>
    cases kept
    rwa [String.toList_ofList]
  case word => split at kept <;> cases kept
  all_goals cases kept

namespace Text

/-- A carriage return counts as a line end. -/
def lineFeed (c : Char) : Char :=
  if c = '\r' then '\n' else c

/-- Without line feeds, every carriage return ends a line on its own. -/
theorem unifyLineEnds_of_not_mem {cs : List Char} (none : '\n' ∉ cs) :
    unifyLineEnds cs = cs.map lineFeed := by
  fun_induction unifyLineEnds cs with
  | case1 => simp at none
  | case2 rest _ ih => simp [lineFeed, ih (by simp_all)]
  | case3 c rest _ other ih =>
    have plain : c ≠ '\r' := fun same => other same
    simp [lineFeed, plain, ih (by simp_all)]
  | case4 => rfl

theorem lineFeed_eq_null {c : Char} : lineFeed c = '\x00' ↔ c = '\x00' := by
  unfold lineFeed
  split
  next same => simp [same]
  · rfl

end Text

namespace Lexeme.Quotable

open Text (lineFeed)

variable {quote : Char} {body : List Char}

theorem not_mem_newline (quotable : Quotable quote body) : '\n' ∉ body := by
  induction quotable with
  | nil => simp
  | escaped inLine _ ih => simp [ih, inLine.symm]
  | plain _ _ inLine _ ih => simp [ih, inLine.symm]

/-- The quote that ends the text is the first one that closes it, unless a line ends before it. -/
theorem closing?_eq (isQuote : quote = '"' ∨ quote = '\'') (quotable : Quotable quote body) :
    Text.closing? quote (body.map lineFeed ++ [quote]) = none ∨
      Text.closing? quote (body.map lineFeed ++ [quote]) = some (body.map lineFeed, []) := by
  induction quotable with
  | nil => rcases isQuote with rfl | rfl <;> exact .inr rfl
  | @escaped c body _ _ ih =>
    have backslash : lineFeed '\\' = '\\' := rfl
    simp only [List.map_cons, List.cons_append, backslash, Text.closing?]
    rcases ih with ih | ih <;> simp [ih]
  | @plain c body notEscape other inLine _ ih =>
    -- a carriage return is where a line ends, as it is read here
    by_cases ends : c = '\r'
    · left
      have feed : lineFeed c = '\n' := if_pos ends
      have notQuote : '\n' ≠ quote := by rcases isQuote with rfl | rfl <;> decide
      simp [feed, Text.closing?, notQuote]
    · have same : lineFeed c = c := if_neg ends
      simp only [List.map_cons, List.cons_append, same]
      rw [Text.closing?, if_neg other, if_neg inLine]
      · rcases ih with ih | ih <;> simp [ih]
      · exact fun _ _ escape => absurd escape notEscape

/-- Quoted text is not taken for the beginning of one that runs over several lines. -/
theorem take_ne (isQuote : quote = '"' ∨ quote = '\'') (quotable : Quotable quote body) :
    (body.map lineFeed ++ [quote]).take 2 ≠ [quote, quote] := by
  cases quotable with
  | nil => simp
  | escaped =>
    rcases isQuote with rfl | rfl <;> simp [lineFeed]
  | @plain c body _ other _ _ =>
    have differs : lineFeed c ≠ quote := by
      unfold lineFeed
      split
      · rcases isQuote with rfl | rfl <;> decide
      · exact other
    simp [differs]

end Lexeme.Quotable

namespace Datum

open Text (lineFeed)

variable [CharacterNames]

/-- After a quote comes quoted text, with no word in front of it. -/
theorem scan?_quote {quote : Char} (isQuote : quote = '"' ∨ quote = '\'') (fuel : Nat)
    (cs : List Char) :
    Piece.scan? (fuel + 2) 0 true (quote :: cs) = do
      let split ← Piece.body? quote cs
      let value ← Text.bodyValue? split.1
      let pieces ← Piece.scan? fuel 0 false split.2
      return .text value :: pieces := by
  -- a quote is neither a blank, a comment nor the end of a line
  have line : Piece.margin? 0 0 (quote :: cs) = some (0, quote :: cs) := by
    rcases isQuote with rfl | rfl <;> rfl
  have word : Piece.first? (quote :: cs) = do
      let split ← Piece.body? quote cs
      return (← Piece.ofBody? split.1 (.plain false), split.2) := by
    rcases isQuote with rfl | rfl <;> rfl
  have inLine : Piece.scan? (fuel + 2) 0 true (quote :: cs) = do
      let first ← Piece.first? (quote :: cs)
      let pieces ← Piece.scan? fuel (first.1.depthAfter 0) false first.2
      return first.1 :: pieces := by
    rw [Piece.scan?, line]
    rcases isQuote with rfl | rfl <;> rfl
  rw [inLine, word]
  cases Piece.body? quote cs with
  | none => rfl
  | some split =>
    cases value : Text.bodyValue? split.1 with
    | none => simp [Piece.ofBody?, value]
    | some text => simp [Piece.ofBody?, value, Piece.depthAfter]

/-- The only piece of quoted text is that text. -/
theorem pieces_of_quotable {quote : Char} {body : List Char} {s : String}
    (isQuote : quote = '"' ∨ quote = '\'') (whole : s.toList = quote :: (body ++ [quote]))
    (quotable : Lexeme.Quotable quote body) :
    Piece.ofText? s = (Text.literalValue? s).map fun value => [.text value] := by
  have plain : lineFeed quote = quote := by rcases isQuote with rfl | rfl <;> rfl
  have noFeed : '\n' ∉ s.toList := by
    have differs : '\n' ≠ quote := by rcases isQuote with rfl | rfl <;> decide
    simp [whole, differs, quotable.not_mem_newline]
  have unified : Text.unifyLineEnds s.toList = quote :: (body.map lineFeed ++ [quote]) := by
    rw [Text.unifyLineEnds_of_not_mem noFeed, whole]
    simp [plain]
  have noMargin :
      s.toList.dropWhile (fun c => decide (c = ' ') || decide (c = '\t')) = s.toList := by
    rw [whole]
    rcases isQuote with rfl | rfl <;> rfl
  -- null characters are refused by both, in the text as written and as it is unified
  have null : s.contains '\x00' = (body.map lineFeed ++ [quote]).contains '\x00' := by
    have differs : '\x00' ≠ quote := by rcases isQuote with rfl | rfl <;> decide
    rw [String.contains_char_eq, whole, Bool.eq_iff_iff]
    simp [differs, Text.lineFeed_eq_null]
  rw [Piece.ofText?, Text.literalValue?, unified, noMargin, unified, null]
  dsimp only
  split
  · rfl
  · rw [scan?_quote isQuote, Piece.body?, if_neg (quotable.take_ne isQuote)]
    rcases quotable.closing?_eq isQuote with none | closes
    · rw [none]
      rfl
    · rw [closes]
      have nothing : Piece.scan? (2 * (quote :: (body.map lineFeed ++ [quote])).length) 0 false [] =
          some [] := rfl
      cases value : Text.bodyValue? (body.map lineFeed) with
      | none | some =>
        simp only [Option.bind_eq_bind, Option.bind_some, value, nothing]
        rfl

omit [CharacterNames] in
theorem read_text (value : Text) :
    (PieceReading.literal 2 nestingLimit).run' [.text value] = some (.ok (.text value)) := by
  have empty : "" ++ value = value := Text.empty_append value
  -- adjacent texts are joined from the empty one on
  conv => rhs; rw [← empty]
  rfl

/-- Read as data, a string token of source text stands for the text that it is. -/
theorem ofText_of_string {t : Token} (lexical : t.Lexical) (kind : t.kind = .string) :
    ofText t.text = (Node.literal t.text).map .text := by
  obtain ⟨quote, body, isQuote, whole, quotable⟩ := lexical.quotable kind
  have pieces := pieces_of_quotable isQuote whole quotable
  unfold ofText Node.literal
  rw [pieces]
  cases Text.literalValue? t.text with
  | none => rfl
  | some value =>
    have read := read_text value
    simpa [bind, Option.bind, Except.map] using congrArg (Option.getD · (.error .malformed)) read

end Datum

end YapLang
