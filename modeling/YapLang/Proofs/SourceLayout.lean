import Mathlib.Tactic.FinCases
import YapLang.Proofs.SourceJoins
import YapLang.Proofs.Tiling

/-!
# The layout of source text

The tokens of a source text can be laid out anew, each written as its text and an empty comment
between any two. No token runs on into a space, so the same tokens are cut off again, and only their
places have changed. Reading does not look at these: the program is the same, and so is what an
error says apart from its place.
-/
namespace YapLang

/-! ### Written tokens -/

namespace Token

/-- How a token is written. Only the call marker is not written as its text. -/
def written (t : Token) : String :=
  if t.kind = .keyword ∧ t.text = Lexeme.callKeyword then "hop on" else t.text

/-- What is written between two tokens. -/
def separator : String := " /**/ "

def layOut (tokens : List Token) : String :=
  separator.intercalate (tokens.map written)

end Token

namespace Lexeme

/-- What follows a token that is laid out. -/
def Apart (rest : List Char) : Prop :=
  rest = [] ∨ ∃ more, rest = Token.separator.toList ++ more

theorem Apart.ends {rest : List Char} (apart : Apart rest) : Ends rest := by
  rcases apart with rfl | ⟨more, rfl⟩
  · exact ⟨⟨Text.stops_nil _, Text.stops_nil _⟩, Text.stops_nil _⟩
  · exact ends_append (by decide) more

theorem cuts_keyword {keyword : String} (listed : keyword ∈ keywords) :
    Cuts keyword WordEnds [(.keyword, keyword)] := by
  have table : ∀ keyword ∈ keywords, keyword? keyword = some keyword ∧
      keyword.toList.head?.any isWordStart = true ∧ keyword.toList.tail.all isWordChar = true := by
    decide
  obtain ⟨known, starts, inside⟩ := table keyword listed
  cases letters : keyword.toList with
  | nil => simp [letters] at starts
  | cons c cs =>
    rw [letters] at starts inside
    have piece := cuts_word letters starts (List.all_eq_true.1 inside)
    simpa [token?, known] using piece

theorem cuts_callMarker : Cuts "hop on" WordEnds [(.keyword, callKeyword)] := by
  apply cuts_piece .callMarker
  intro rest ends
  have blank : Text.isBlank ' ' = true := by decide
  apply first?_of_cut?
  · have marker := callMarker?_of_blanks (List.cons_ne_nil ' ' []) (by simpa using blank) ends.1
    exact marker
  · intro other earlier
    cases other
    case blockComment | lineComment => rfl
    all_goals exact absurd earlier (by decide)

/-- No mark goes on in a space. -/
theorem cuts_mark {mark : String} (listed : mark.toList ∈ marks) :
    Cuts mark Apart [(.punctuation, mark)] := by
  apply cuts_piece .punctuation
  intro rest apart
  generalize mark.toList = mark at listed
  rcases apart with rfl | ⟨more, rfl⟩
  · fin_cases listed <;> rfl
  · fin_cases listed <;> rfl

theorem cuts_quoted {quote : Char} {body : List Char} (isQuote : quote = '"' ∨ quote = '\'')
    (quotable : Quotable quote body) {text : String}
    (whole : text.toList = quote :: (body ++ [quote])) :
    Cuts text (fun _ => True) [(.string, text)] := by
  apply cuts_string
  intro rest
  rw [whole, List.cons_append, List.append_assoc, string?, if_pos isQuote]
  rw [List.singleton_append, stringEnd?_of_quotable isQuote quotable]
  rfl

theorem cuts_separator : Cuts Token.separator (fun _ => True) [] :=
  cuts_literal 2 " " (fun _ => rfl) (by decide)

end Lexeme

open Lexeme

/-- Every token but the call marker can be laid out as its text. -/
theorem Lexeme.cuts_of_writes {form : Form} {piece rest : List Char} {kind : Token.Kind}
    {text : String} (writes : Writes form (String.ofList piece) kind text)
    (fits : form.Fits piece rest) :
    (kind, text) = (.keyword, callKeyword) ∨ Cuts text Apart [(kind, text)] := by
  cases writes with
  | callMarker => exact .inl rfl
  | string =>
    obtain ⟨quote, body, isQuote, rfl, quotable⟩ := fits
    exact .inr ((cuts_quoted isQuote quotable String.toList_ofList).mono fun _ _ => trivial)
  | number =>
    obtain ⟨n, formed, rfl⟩ := fits
    exact .inr ((cuts_number formed String.toList_ofList).mono fun _ apart => apart.ends.2)
  | punctuation => exact .inr (cuts_mark (by rwa [String.toList_ofList]))
  | keyword listed => exact .inr ((cuts_keyword listed).mono fun _ apart => apart.ends.1)
  | slang listed =>
    have table : ∀ entry ∈ slang, entry.2 ∈ keywords := by decide
    exact .inr ((cuts_keyword (table _ listed)).mono fun _ apart => apart.ends.1)
  | name noKeyword noSlang =>
    obtain ⟨c, cs, rfl, starts, inside⟩ := fits
    have unknown : keyword? (String.ofList (c :: cs)) = none := by
      cases known : keyword? (String.ofList (c :: cs)) with
      | none => rfl
      | some keyword =>
        rcases listed_of_keyword? known with ⟨-, listed⟩ | listed
        · exact absurd listed noKeyword
        · exact absurd listed (noSlang keyword)
    have isName : IsName (String.ofList (c :: cs)) :=
      ⟨c, cs, String.toList_ofList, starts, inside, unknown⟩
    exact .inr ((cuts_name isName).mono fun _ apart => apart.ends.1)

/-- In front of what follows it when it is laid out, a token is cut off as it was. -/
theorem Token.Lexical.cuts_written {t : Token} (lexical : t.Lexical) :
    Cuts t.written Apart [t.shape] := by
  obtain ⟨form, cs, piece, rest, cut, kept⟩ := lexical
  have fits := Form.fits_of_cut? cut
  by_cases marker : t.kind = .keyword ∧ t.text = callKeyword
  · rw [written, if_pos marker, shape, marker.1, marker.2]
    exact cuts_callMarker.mono fun _ apart => apart.ends.1
  · rw [written, if_neg marker]
    rcases cuts_of_writes (writes_of_token? kept) fits with same | cuts
    · exact absurd (Prod.mk.inj same) marker
    · exact cuts

theorem Lexeme.cuts_layOut {tokens : List Token} (lexical : ∀ t ∈ tokens, t.Lexical) :
    Cuts (Token.layOut tokens) Apart (tokens.map Token.shape) := by
  unfold Token.layOut
  induction tokens with
  | nil => exact fun _ _ _ splits => splits
  | cons t tokens ih =>
    obtain ⟨first, others⟩ := List.forall_mem_cons.1 lexical
    cases tokens with
    | nil => simpa using first.cuts_written
    | cons u tokens =>
      -- the separator is lost, and keeps apart what stands on its two sides
      have rest := cuts_separator.append (ih others) fun _ _ => trivial
      have whole := first.cuts_written.append rest fun more _ => by
        rw [String.toList_append, List.append_assoc]
        exact .inr ⟨_, rfl⟩
      simpa [String.append_assoc] using whole

/-! ### Readings of tokens in other places -/

/-- What an error tells apart from its place does not depend on places. -/
theorem Rejection.told_placed (rejection : Rejection) (place : Position → Position)
    (ts us : List Token) :
    ((rejection.placed place).toError us).expectedFound? = (rejection.toError ts).expectedFound? ∧
      ((rejection.placed place).toError us).complaint = (rejection.toError ts).complaint := by
  cases rejection with
  | unexpected expected rest =>
    -- the token that is found is described by its kind and its text
    cases rest with
    | nil | cons => exact ⟨rfl, rfl⟩
  | strayJump | badTarget | badNumber | unhashable | nestedTooDeeply => exact ⟨rfl, rfl⟩

theorem Reading.program_alike [CharacterNames] {ts us : List Token}
    (same : ts.map Token.shape = us.map Token.shape) (limit : Nat) :
    (∃ tree, program Node.literal limit ts = .ok tree ∧ program Node.literal limit us = .ok tree) ∨
      ∃ rejection rejection', program Node.literal limit ts = .error rejection ∧
        program Node.literal limit us = .error rejection' ∧
        rejection.placed (fun _ => .start) = rejection'.placed fun _ => .start := by
  have alike := program_placed Node.literal (fun _ => Position.start) limit ts
  rw [map_placed_of_shapes same, program_placed] at alike
  cases first : program Node.literal limit ts with
  | ok tree => exact .inl ⟨tree, rfl, program_of_shapes same first⟩
  | error rejection =>
    cases second : program Node.literal limit us with
    | ok tree =>
      rw [first, second] at alike
      cases alike
    | error rejection' =>
      rw [first, second] at alike
      exact .inr ⟨rejection, rejection', rfl, rfl, (Except.error.inj alike).symm⟩

namespace Node

open Reading

theorem ofSource_of_scan [CharacterNames] {source : String} {tokens : List Token}
    (scanned : Token.scan source = .ok tokens) :
    ofSource source =
      (program literal Tree.nestingLimit tokens).mapError (Rejection.toError tokens) := by
  rw [ofSource, scanned]
  show Tree.ofTokens literal tokens = _
  unfold Tree.ofTokens
  cases program literal Tree.nestingLimit tokens with
  | error | ok => rfl

/-- The tokens of source text, laid out anew with an empty comment between any two, are scanned as
the same tokens. They are the same program, or an error in it has the same cause. -/
theorem laid_out_source_reads_alike [CharacterNames] (source : String) (tokens : List Token)
    (scanned : Token.scan source = .ok tokens) :
    ∃ again, Token.scan (Token.layOut tokens) = .ok again ∧
      again.map Token.shape = tokens.map Token.shape ∧
      match ofSource source, ofSource (Token.layOut tokens) with
      | .ok tree, .ok tree' => tree' = tree
      | .error e, .error e' => e'.expectedFound? = e.expectedFound? ∧ e'.complaint = e.complaint
      | _, _ => False := by
  have cuts := Lexeme.cuts_layOut (Token.lexical_of_scan scanned) [] [] (.inl rfl) .done
  rw [List.append_nil, List.append_nil] at cuts
  obtain ⟨again, scannedAgain, same⟩ := Lexeme.scan_of_splits cuts
  refine ⟨again, scannedAgain, same, ?_⟩
  rw [ofSource_of_scan scanned, ofSource_of_scan scannedAgain]
  rcases program_alike same.symm Tree.nestingLimit with
    ⟨tree, first, second⟩ | ⟨rejection, rejection', first, second, alike⟩
  · rw [first, second]
    rfl
  · rw [first, second]
    have told := rejection.told_placed (fun _ => .start) tokens []
    have told' := rejection'.told_placed (fun _ => .start) again []
    rw [← alike] at told'
    exact ⟨told'.1.symm.trans told.1, told'.2.symm.trans told.2⟩

/-- A word of the older vocabulary, the marker on two lines before the name that it begins with, and
the beginning of a comment inside a text. In both layouts a number stands where a name should. -/
theorem laid_out_source_reads_alike_marker :
    let _ : CharacterNames := .none
    let source := "cooked .5;hop\non hop('/*')//"
    let tokens : List Token :=
      [ ⟨.keyword, "let", ⟨1, 1⟩⟩, ⟨.number, ".5", ⟨1, 8⟩⟩, ⟨.punctuation, ";", ⟨1, 10⟩⟩,
        ⟨.keyword, "call", ⟨1, 11⟩⟩, ⟨.identifier, "hop", ⟨2, 4⟩⟩, ⟨.punctuation, "(", ⟨2, 7⟩⟩,
        ⟨.string, "'/*'", ⟨2, 8⟩⟩, ⟨.punctuation, ")", ⟨2, 12⟩⟩ ]
    let relaid := "let /**/ .5 /**/ ; /**/ hop on /**/ hop /**/ ( /**/ '/*' /**/ )"
    Token.scan source = .ok tokens ∧ Token.layOut tokens = relaid ∧
      ∃ again, Token.scan relaid = .ok again ∧ again.map Token.shape = tokens.map Token.shape ∧
        ∃ e, ofSource relaid = .error e ∧
          e.expectedFound? = some ("identifier", "number '.5'") := by
  intro names source tokens relaid
  have scanned : Token.scan source = .ok tokens := by
    rw [Token.scan]
    simp only [source, String.reduceToList]
    rfl
  have laid : Token.layOut tokens = relaid := by decide +kernel
  have failed : ofSource source =
      .error (.unexpected "identifier" (some ⟨.number, ".5", ⟨1, 8⟩⟩) ⟨1, 8⟩) := by
    rw [ofSource, scanned]
    rfl
  obtain ⟨again, scannedAgain, same, alike⟩ := laid_out_source_reads_alike source tokens scanned
  rw [laid] at scannedAgain alike
  rw [failed] at alike
  refine ⟨scanned, laid, again, scannedAgain, same, ?_⟩
  cases read : ofSource relaid with
  | ok tree =>
    rw [read] at alike
    exact alike.elim
  | error e =>
    rw [read] at alike
    exact ⟨e, rfl, alike.1.trans rfl⟩

end Node

end YapLang
