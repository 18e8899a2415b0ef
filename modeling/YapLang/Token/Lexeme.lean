import YapLang.Number.Numeral
import YapLang.Token

/-!
# Lexemes

The forms of text between which source text is cut: comments, blanks, and the written forms of
tokens. Each recognizer takes the longest piece of its form off the front of a text and returns it
with what follows; put together again they are the text. Where several forms fit, the first one in
the order of `Lexeme.Form.all` counts.
-/
namespace YapLang.Lexeme

/-- A piece of text and what follows it. -/
abbrev Cut := List Char × List Char

/-- Puts characters that were read before in front of the piece. -/
def Cut.prepend (cs : List Char) (cut : Cut) : Cut :=
  (cs ++ cut.1, cut.2)

/-- The piece is not empty, and the two parts together are the text. -/
def Cut.Of (cs : List Char) (cut : Cut) : Prop :=
  cut.1 ++ cut.2 = cs ∧ cut.1 ≠ []

theorem Cut.Of.prepend {cs front : List Char} {cut : Cut} (h : cut.Of cs) :
    (cut.prepend front).Of (front ++ cs) := by
  simp_all [Cut.Of, Cut.prepend]

/-- Everything up to and including the end of a block comment. -/
def commentEnd? : List Char → Option Cut
  | '*' :: '/' :: rest => some (['*', '/'], rest)
  | c :: rest => (commentEnd? rest).map (Cut.prepend [c])
  | [] => none

def blockComment? : List Char → Option Cut
  | '/' :: '*' :: rest => (commentEnd? rest).map (Cut.prepend ['/', '*'])
  | _ => none

def lineComment? : List Char → Option Cut
  | '/' :: '/' :: rest =>
    some ('/' :: '/' :: rest.takeWhile (· ≠ '\n'), rest.dropWhile (· ≠ '\n'))
  | _ => none

def isWordStart (c : Char) : Bool :=
  c.isAlpha || c == '_' || c == '$'

def isWordChar (c : Char) : Bool :=
  c.isAlphanum || c == '_' || c == '$'

/-- The call marker is two words with any blanks between them. -/
def callMarker? : List Char → Option Cut
  | 'h' :: 'o' :: 'p' :: rest =>
    let blanks := rest.takeWhile Text.isBlank
    match rest.dropWhile Text.isBlank with
    | 'o' :: 'n' :: more =>
      -- without blanks it is one word, and so is `on` with more letters
      if blanks.isEmpty || more.head?.any isWordChar then none
      else some ('h' :: 'o' :: 'p' :: (blanks ++ ['o', 'n']), more)
    | _ => none
  | _ => none

/-- Everything up to and including the closing quote, on one line. A backslash takes the character
after it along. -/
def stringEnd? (quote : Char) : List Char → Option Cut
  | [] => none
  | '\\' :: [] => none
  | '\\' :: c :: rest =>
    -- an escaped line break does not continue the string
    if c = '\n' then none else (stringEnd? quote rest).map (Cut.prepend ['\\', c])
  | c :: rest =>
    if c = quote then some ([c], rest)
    else if c = '\n' then none
    else (stringEnd? quote rest).map (Cut.prepend [c])

def string? : List Char → Option Cut
  | quote :: rest =>
    if quote = '"' ∨ quote = '\'' then (stringEnd? quote rest).map (Cut.prepend [quote]) else none
  | [] => none

def number? (cs : List Char) : Option Cut :=
  (Numeral.split? cs).map fun (numeral, rest) => (numeral.text, rest)

def word? : List Char → Option Cut
  | c :: rest =>
    if isWordStart c then some (c :: rest.takeWhile isWordChar, rest.dropWhile isWordChar) else none
  | [] => none

/-- The characters that may stand between tokens. -/
def isGapChar (c : Char) : Bool :=
  c == ' ' || c == '\t' || c == '\x0c' || c == '\r' || c == '\n'

def gap? (cs : List Char) : Option Cut :=
  if (cs.takeWhile isGapChar).isEmpty then none
  else some (cs.takeWhile isGapChar, cs.dropWhile isGapChar)

/-- The punctuation marks, those that start with a shorter mark before it. -/
def marks : List (List Char) :=
  [ "===", "!==", "==", "!=", "<=", ">=", "&&", "||", "++", "--", "-", "+", "*", "/", "%", "=", "<",
    ">", "!", "(", ")", "\x7b", "\x7d", "[", "]", ";", ",", "." ].map String.toList

def punctuation? (cs : List Char) : Option Cut :=
  (marks.find? (·.isPrefixOf cs)).map fun mark => (mark, cs.drop mark.length)

/-- The forms of pieces. -/
inductive Form where
  | blockComment
  | lineComment
  | callMarker
  | string
  | number
  | word
  | gap
  | punctuation
  deriving DecidableEq, Repr

namespace Form

/-- All forms, in the order in which they are tried. -/
def all : List Form :=
  [blockComment, lineComment, callMarker, string, number, word, gap, punctuation]

def cut? : Form → List Char → Option Cut
  | blockComment => blockComment?
  | lineComment => lineComment?
  | callMarker => callMarker?
  | string => string?
  | number => number?
  | word => word?
  | gap => gap?
  | punctuation => punctuation?

end Form

/-- The first piece of a text: its form and the cut after it. -/
def first? (cs : List Char) : Option (Form × Cut) :=
  Form.all.findSome? fun form => (form.cut? cs).map fun cut => (form, cut)

/-! ### Cutting loses nothing -/

theorem of_commentEnd? {cs : List Char} {cut : Cut} (found : commentEnd? cs = some cut) :
    cut.Of cs := by
  fun_induction commentEnd? cs generalizing cut with
  | case1 rest =>
    cases found
    simp [Cut.Of]
  | case2 c rest _ ih =>
    obtain ⟨tail, tailFound, rfl⟩ := Option.map_eq_some_iff.1 found
    exact (ih tailFound).prepend
  | case3 => cases found

theorem of_stringEnd? {quote : Char} {cs : List Char} {cut : Cut}
    (found : stringEnd? quote cs = some cut) : cut.Of cs := by
  fun_induction stringEnd? quote cs generalizing cut with
  | case1 => cases found
  | case2 => cases found
  | case3 => cases found
  | case4 c rest _ ih =>
    obtain ⟨tail, tailFound, rfl⟩ := Option.map_eq_some_iff.1 found
    exact (ih tailFound).prepend
  | case5 =>
    cases found
    simp [Cut.Of]
  | case6 => cases found
  | case7 c rest _ _ _ _ ih =>
    obtain ⟨tail, tailFound, rfl⟩ := Option.map_eq_some_iff.1 found
    exact (ih tailFound).prepend

theorem of_callMarker? {cs : List Char} {cut : Cut} (found : callMarker? cs = some cut) :
    cut.Of cs := by
  unfold callMarker? at found
  split at found
  · rename_i rest
    have blanks := List.takeWhile_append_dropWhile (p := Text.isBlank) (l := rest)
    simp only at found
    split at found
    · rename_i more word
      split at found
      · cases found
      · cases found
        rw [word] at blanks
        simp [Cut.Of, blanks]
    · cases found
  · cases found

theorem of_punctuation? {cs : List Char} {cut : Cut} (found : punctuation? cs = some cut) :
    cut.Of cs := by
  obtain ⟨mark, markFound, rfl⟩ := Option.map_eq_some_iff.1 found
  -- the mark was found because the text starts with it
  have starts : mark <+: cs := by simpa using List.find?_some markFound
  have listed := List.mem_of_find?_eq_some markFound
  constructor
  · obtain ⟨rest, rfl⟩ := starts
    simp
  · rintro rfl
    revert listed
    decide

/-- Every form cuts a text into a piece that is not empty and the rest. -/
theorem Form.of_cut? {form : Form} {cs : List Char} {cut : Cut} (found : form.cut? cs = some cut) :
    cut.Of cs := by
  cases form <;> simp only [Form.cut?] at found
  case blockComment =>
    unfold blockComment? at found
    split at found
    · obtain ⟨tail, tailFound, rfl⟩ := Option.map_eq_some_iff.1 found
      exact (of_commentEnd? tailFound).prepend
    · cases found
  case lineComment =>
    unfold lineComment? at found
    split at found
    · cases found
      simp [Cut.Of]
    · cases found
  case callMarker => exact of_callMarker? found
  case string =>
    unfold string? at found
    split at found
    · split at found
      · obtain ⟨tail, tailFound, rfl⟩ := Option.map_eq_some_iff.1 found
        exact (of_stringEnd? tailFound).prepend
      · cases found
    · cases found
  case number =>
    obtain ⟨⟨numeral, rest⟩, numeralFound, rfl⟩ := Option.map_eq_some_iff.1 found
    exact ⟨Numeral.text_append_of_split? numeralFound, Numeral.text_ne_nil_of_split? numeralFound⟩
  case word =>
    unfold word? at found
    split at found
    · split at found
      · cases found
        simp [Cut.Of]
      · cases found
    · cases found
  case gap =>
    unfold gap? at found
    split at found
    · cases found
    · cases found
      simp_all [Cut.Of]
  case punctuation => exact of_punctuation? found

theorem of_first? {cs : List Char} {form : Form} {cut : Cut}
    (found : first? cs = some (form, cut)) : form.cut? cs = some cut ∧ cut.Of cs := by
  obtain ⟨tried, _, triedFound⟩ := List.exists_of_findSome?_eq_some found
  obtain ⟨triedCut, cutAt, same⟩ := Option.map_eq_some_iff.1 triedFound
  cases same
  exact ⟨cutAt, Form.of_cut? cutAt⟩

/-- The keywords and the word that each of them may also be written with. -/
def keyword? : String → Option String
  | "function" | "skibidi" => some "function"
  | "let" | "rizz" | "cooked" => some "let"
  | "if" | "edging" => some "if"
  | "else" | "amogus" => some "else"
  | "for" | "flex" => some "for"
  | "while" | "goon" => some "while"
  | "return" | "bussin" => some "return"
  | "break" | "bruh" => some "break"
  | "continue" | "grind" => some "continue"
  | _ => none

/-- The text of the keyword that stands for the call marker. -/
def callKeyword : String := "call"

/-- The kind and text of the token that a piece is, if it is one. -/
def token? (form : Form) (piece : String) : Option (Token.Kind × String) :=
  match form with
  | .blockComment | .lineComment | .gap => none
  | .callMarker => some (.keyword, callKeyword)
  | .string => some (.string, piece)
  | .number => some (.number, piece)
  | .punctuation => some (.punctuation, piece)
  | .word =>
    match keyword? piece with
    | some keyword => some (.keyword, keyword)
    | none => some (.identifier, piece)

end YapLang.Lexeme
