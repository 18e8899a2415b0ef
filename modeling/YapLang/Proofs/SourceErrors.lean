import YapLang.Proofs.ViablePrefixes

/-!
# Source text fails with syntax errors only

Reading takes the texts of tokens for numbers and for literals, and tokens made by hand can fail
there in ways that are no errors of the language. Tokens of source text cannot. Every number token
is a numeral, whatever the scripts of its digits, and a numeral is a number. A string token is
quoted text, which denotes a text or is malformed; that it would hold a collection is out of the
question. So source text is read as a program or has a syntax error.
-/
namespace YapLang

/-- Whether an error is one of the language. The others come from what the text of a token is taken
for. -/
def SourceError.isSyntax : SourceError → Bool
  | badNumber _ | unhashable _ => false
  | noToken .. | unexpected .. | strayJump _ | badTarget .. | nestedTooDeeply => true

/-- The scanner knows one error. -/
theorem Token.noToken_of_scanFrom {fuel : Nat} {p : Position} {before : List Token} {cs : List Char}
    {e : SourceError} (failed : scanFrom fuel p before cs = .error e) :
    ∃ c position, e = .noToken c position := by
  fun_induction scanFrom fuel p before cs with
  | case1 => cases failed
  | case2 | case3 =>
    cases failed
    exact ⟨_, _, rfl⟩
  | case4 _ _ _ _ _ _ _ _ _ ih => exact ih failed

namespace Reading

/-! ### Number tokens and string tokens -/

section

variable {τ : Type} {literal : String → Except Datum.Fault τ} {t : Token} (budget : Nat)
  (expression : Reading (Tree τ)) (rest : List Token)

theorem primary_number {x : Float} (kind : t.kind = .number)
    (number : Text.tokenNumber? t.text = some x) :
    primary literal budget expression (t :: rest) = .ok (.number (.double x), rest) := by
  rw [primary, bind_of_ok get_apply]
  simp only [kind, number]
  rfl

theorem primary_string {value : τ} (kind : t.kind = .string)
    (denotes : literal t.text = .ok value) :
    primary literal budget expression (t :: rest) = .ok (.text value, rest) := by
  rw [primary, bind_of_ok get_apply]
  simp only [kind, denotes]
  rfl

theorem primary_malformed (kind : t.kind = .string)
    (malformed : literal t.text = .error .malformed) :
    primary literal budget expression (t :: rest) =
      .error (.unexpected "valid string literal" (t :: rest)) := by
  rw [primary, bind_of_ok get_apply]
  simp only [kind, malformed]
  rfl

end

/-- Read as data, a string token of source text is the text that it denotes, or it is malformed. -/
theorem ofText_of_lexical [CharacterNames] {t : Token} (lexical : t.Lexical)
    (kind : t.kind = .string) :
    (∃ value, Text.literalValue? t.text = some value ∧ Datum.ofText t.text = .ok (.text value)) ∨
      (Text.literalValue? t.text = none ∧ Datum.ofText t.text = .error .malformed) := by
  rw [Datum.ofText_of_string lexical kind, Node.literal]
  cases Text.literalValue? t.text with
  | none => exact .inr ⟨rfl, rfl⟩
  | some value => exact .inl ⟨value, rfl, rfl⟩

/-! ### Whole programs -/

/-- Of the rejections of lexical tokens, each says after which tokens it came, so none of them is
about the text of a token. -/
theorem isSyntax_of_after [CharacterNames] {D : List Token → Prop} {tokens : List Token}
    {rejection : Rejection} (after : rejection.After D tokens) :
    (rejection.toError tokens).isSyntax = true := by
  cases rejection with
  | badNumber | unhashable => exact after.elim
  | _ => rfl

/-- Tokens of source text are read as a program, or they are rejected with a syntax error, both as
texts and as data. -/
theorem ofTokens_of_lexical [CharacterNames] {tokens : List Token}
    (lexical : ∀ t ∈ tokens, t.Lexical) :
    (∃ tree data, Node.ofTokens tokens = .ok tree ∧ Tree.ofTokens Datum.ofText tokens = .ok data) ∨
      ∃ e : SourceError, e.isSyntax = true ∧ Node.ofTokens tokens = .error e ∧
        Tree.ofTokens Datum.ofText tokens = .error e := by
  unfold Node.ofTokens Tree.ofTokens
  cases outcome : program Node.literal Tree.nestingLimit tokens with
  | ok tree =>
    obtain ⟨data, read⟩ := program_of_alike readsAlike_ofText lexical outcome
    rw [read]
    exact .inl ⟨tree, data, rfl, rfl⟩
  | error rejection =>
    have rejected := (program_eq_error readsAlike_ofText lexical).2 outcome
    rw [rejected]
    exact .inr ⟨_, isSyntax_of_after (program_after lexical outcome), rfl, rfl⟩

end Reading

/-- Every number token of a source text is a numeral and read as its number; every string token is
read as the text that it denotes, or it denotes none and is rejected as such. The text as a whole is
read as a program or has a syntax error, and it makes no difference whether string tokens are read
as texts or as data of any kind. -/
theorem source_fails_as_syntax_only [CharacterNames] (source : String) :
    (∀ tokens, Token.scan source = .ok tokens → ∀ t ∈ tokens,
      (t.kind = .number → ∃ n : Numeral, n.Formed ∧ t.text = String.ofList n.text ∧
        ∀ budget expression rest, Reading.primary Datum.ofText budget expression (t :: rest) =
          .ok (.number (.double (n.toDouble false)), rest)) ∧
      (t.kind = .string →
        (∃ value, Text.literalValue? t.text = some value ∧
          ∀ budget expression rest, Reading.primary Datum.ofText budget expression (t :: rest) =
            .ok (.text (.text value), rest)) ∨
        (Text.literalValue? t.text = none ∧
          ∀ budget expression rest, Reading.primary Datum.ofText budget expression (t :: rest) =
            .error (.unexpected "valid string literal" (t :: rest))))) ∧
    ((∃ tree data, Node.ofSource source = .ok tree ∧
        (Token.scan source).bind (Tree.ofTokens Datum.ofText) = .ok data) ∨
      ∃ e : SourceError, e.isSyntax = true ∧ Node.ofSource source = .error e ∧
        (Token.scan source).bind (Tree.ofTokens Datum.ofText) = .error e) := by
  constructor
  · intro tokens scanned t member
    have lexical := Token.lexical_of_scan scanned t member
    constructor
    · intro kind
      obtain ⟨n, formed, text⟩ := lexical.exists_numeral kind
      have number : Text.tokenNumber? t.text = some (n.toDouble false) := by
        rw [text, Numeral.tokenNumber?_text formed]
      exact ⟨n, formed, text, fun budget expression rest =>
        Reading.primary_number budget expression rest kind number⟩
    · intro kind
      rcases Reading.ofText_of_lexical lexical kind with
        ⟨value, isText, denotes⟩ | ⟨none, malformed⟩
      · exact .inl ⟨value, isText, fun budget expression rest =>
          Reading.primary_string budget expression rest kind denotes⟩
      · exact .inr ⟨none, fun budget expression rest =>
          Reading.primary_malformed budget expression rest kind malformed⟩
  · unfold Node.ofSource
    cases scanned : Token.scan source with
    -- where no token begins, there is nothing to read yet
    | error e =>
      obtain ⟨c, position, rfl⟩ := Token.noToken_of_scanFrom scanned
      exact .inr ⟨_, rfl, rfl, rfl⟩
    | ok tokens => exact Reading.ofTokens_of_lexical (Token.lexical_of_scan scanned)

/-- Digits of two scripts in one numeral, and an escape without its second digit. -/
theorem source_fails_as_syntax_only_scripts :
    let _ : CharacterNames := .none
    let source := "٣५.e1 + '\\x4';"
    let number : Token := ⟨.number, "٣५.e1", ⟨1, 1⟩⟩
    let string : Token := ⟨.string, "'\\x4'", ⟨1, 9⟩⟩
    let tokens : List Token :=
      [number, ⟨.punctuation, "+", ⟨1, 7⟩⟩, string, ⟨.punctuation, ";", ⟨1, 14⟩⟩]
    Token.scan source = .ok tokens ∧
      (∃ n : Numeral, n.Formed ∧ number.text = String.ofList n.text ∧
        ∀ budget expression rest, Reading.primary Datum.ofText budget expression (number :: rest) =
          .ok (.number (.double (n.toDouble false)), rest)) ∧
      (∀ budget expression rest, Reading.primary Datum.ofText budget expression (string :: rest) =
        .error (.unexpected "valid string literal" (string :: rest))) ∧
      ∃ e : SourceError, e.isSyntax = true ∧ Node.ofSource source = .error e := by
  intro names source number string tokens
  have scanned : Token.scan source = .ok tokens := by decide +kernel
  have noText : Text.literalValue? string.text = none := by decide +kernel
  have fails : (Node.ofSource source).toBool = false := by decide +kernel
  obtain ⟨single, whole⟩ := source_fails_as_syntax_only source
  obtain ⟨isNumeral, -⟩ := single tokens scanned number (by simp [tokens])
  obtain ⟨-, isQuoted⟩ := single tokens scanned string (by simp [tokens])
  refine ⟨scanned, isNumeral rfl, ?_, ?_⟩
  · rcases isQuoted rfl with ⟨value, isText, -⟩ | ⟨-, rejected⟩
    · rw [noText] at isText
      cases isText
    · exact rejected
  · rcases whole with ⟨tree, -, read, -⟩ | ⟨e, isSyntax, failed, -⟩
    · rw [read] at fails
      cases fails
    · exact ⟨e, isSyntax, failed⟩

end YapLang
