import YapLang.Proofs.GrammarCompleteness
import YapLang.Proofs.ScriptExpressions
import YapLang.Proofs.WholeNumbers

/-!
# Members of a script and their tokens

A member is written as its object, a point and a name. The object stands in parentheses if it is
weaker than a member, and the three are cut at their seams, with one exception: a number that is
printed as digits alone takes the point behind it for its own, and with it the first letter of the
name if that makes an exponent of the digits in the name. A number with a point or an exponent of
its own leaves the point of the member alone. So the tokens stay apart unless the object is a whole
number below `10 ^ 21`, and this is so whatever the object contains: in its parts, too, a number may
have taken a point.
-/
namespace YapLang

open Grammar
open Lexeme (Cuts Ends WordEnds)

/-! ### A point after digits -/

namespace Numeral

/-- The sign of a number. -/
def isSign (c : Char) : Bool :=
  c == '+' || c == '-'

theorem splitSign_of_stops {cs : List Char} (unsigned : Text.Stops isSign cs) :
    splitSign cs = (none, cs) := by
  unfold splitSign
  split
  · exact absurd (Text.stops_cons.1 unsigned) (by decide)
  · exact absurd (Text.stops_cons.1 unsigned) (by decide)
  · rfl

/-- Digits and a point behind them are a numeral, together with the exponent that may follow. -/
theorem split?_digits_point {whole : List Char} (nonempty : whole ≠ [])
    (inside : ∀ c ∈ whole, Text.isDigit c = true) {more : List Char}
    (ends : Text.Stops Text.isDigit more) :
    split? (whole ++ '.' :: more) =
      some (⟨whole, true, [], (splitExponent more).1⟩, (splitExponent more).2) := by
  have pointStops : Text.Stops Text.isDigit ('.' :: more) := Text.stops_cons.2 (by decide)
  simp [split?, Text.takeWhile_append_of_stops inside pointStops,
    Text.dropWhile_append_of_stops inside pointStops, Text.takeWhile_of_stops ends,
    Text.dropWhile_of_stops ends, nonempty]

end Numeral

namespace Lexeme

/-- What may follow a member. A digit or a sign could make an exponent of the name. -/
structure MemberEnds (rest : List Char) : Prop where
  word : WordEnds rest
  digits : Text.Stops Text.isDigit rest
  unsigned : Text.Stops Numeral.isSign rest

/-- What may follow any expression. -/
structure ExpressionEnds (rest : List Char) : Prop extends MemberEnds rest where
  pointless : Text.Stops (· == '.') rest

theorem memberEnds_point (rest : List Char) : MemberEnds ('.' :: rest) where
  word := ⟨Text.stops_cons.2 (by decide), Text.stops_cons.2 (by decide)⟩
  digits := Text.stops_cons.2 (by decide)
  unsigned := Text.stops_cons.2 (by decide)

theorem expressionEnds_nil : ExpressionEnds [] where
  word := ⟨Text.stops_nil _, Text.stops_nil _⟩
  digits := Text.stops_nil _
  unsigned := Text.stops_nil _
  pointless := Text.stops_nil _

theorem MemberEnds.prolongs {rest : List Char} (ends : MemberEnds rest) :
    Text.Stops Numeral.prolongs rest := by
  intro c first
  have noDigit := ends.digits c first
  have noWord := ends.word.1 c first
  have unlike (letter : Char) (inside : isWordChar letter = true) : (c == letter) = false := by
    rw [beq_eq_false_iff_ne]
    rintro rfl
    exact absurd inside (by simp [noWord])
  simp [Numeral.prolongs, noDigit, unlike 'e' (by decide), unlike 'E' (by decide)]

theorem ExpressionEnds.ends {rest : List Char} (ends : ExpressionEnds rest) : Ends rest := by
  refine ⟨ends.word, fun c first => ?_⟩
  have noPoint := ends.pointless c first
  have no := ends.prolongs c first
  simp only [Numeral.prolongs, Bool.or_eq_false_iff] at no
  simp only [Numeral.continues, no.1.1, no.1.2, no.2, Bool.or_false]
  simpa using noPoint

theorem expressionEnds_append {text : List Char} (check : endsBefore text = true)
    (unsigned : text.head?.any Numeral.isSign = false) (rest : List Char) :
    ExpressionEnds (text ++ rest) := by
  obtain ⟨word, number⟩ := ends_append check rest
  cases text with
  | nil => cases check
  | cons c text =>
    have no := Text.stops_cons.1 number
    simp only [Numeral.continues, Bool.or_eq_false_iff] at no
    exact ⟨⟨word, Text.stops_cons.2 no.1.1.1, Text.stops_cons.2 (by simpa using unsigned)⟩,
      Text.stops_cons.2 no.1.1.2⟩

/-- A number with a point or an exponent of its own leaves a point that follows it alone. -/
theorem cuts_closed_number {text : String} {n : Numeral} (formed : n.Formed)
    (written : text.toList = n.text) (closed : ¬(n.point = false ∧ n.exponent = none)) :
    Cuts text MemberEnds [(.number, text)] := by
  apply cuts_piece .number
  intro rest ends
  rw [written]
  apply first?_of_split?
  exact Numeral.split?_text_of_closed formed ends.prolongs fun pointless plain =>
    absurd ⟨pointless, plain⟩ closed

/-- Of a name behind a point, a number takes the letter of an exponent and the digits behind it, or
nothing. How much that is does not depend on what follows the name. -/
theorem exists_splitExponent {name : String} (isName : IsName name) :
    ∃ exponent tail, (∀ d ∈ tail, isWordChar d = true) ∧ Text.Stops Text.isDigit tail ∧
      ∀ rest, MemberEnds rest →
        Numeral.splitExponent (name.toList ++ rest) = (exponent, tail ++ rest) := by
  obtain ⟨c, cs, letters, starts, inside, -⟩ := isName
  have unsigned : Text.Stops Numeral.isSign cs := by
    intro d first
    have word := inside d (List.mem_of_mem_head? first)
    rw [Numeral.isSign, Bool.or_eq_false_iff, beq_eq_false_iff_ne, beq_eq_false_iff_ne]
    constructor
    · rintro rfl
      exact absurd word (by decide)
    · rintro rfl
      exact absurd word (by decide)
  have noSign {rest : List Char} (ends : MemberEnds rest) :
      Numeral.splitSign (cs ++ rest) = (none, cs ++ rest) :=
    Numeral.splitSign_of_stops (Text.stops_append unsigned ends.unsigned)
  -- only the letter of an exponent with a digit right behind it is taken
  by_cases takes : (c = 'e' ∨ c = 'E') ∧ cs.takeWhile Text.isDigit ≠ []
  · refine ⟨some ⟨c, none, cs.takeWhile Text.isDigit⟩, cs.dropWhile Text.isDigit, ?_,
      Text.stops_dropWhile _ _, fun rest ends => ?_⟩
    · exact fun d member => inside d ((List.dropWhile_suffix _).subset member)
    · obtain ⟨taken, left⟩ := Text.run_append cs ends.digits
      simp [letters, Numeral.splitExponent, takes.1, noSign ends, taken, left, takes.2]
  · refine ⟨none, c :: cs, ?_, Text.stops_cons.2 (isDigit_of_isWordStart starts), ?_⟩
    · intro d member
      rcases List.mem_cons.1 member with rfl | member
      · exact isWordChar_of_isWordStart starts
      · exact inside d member
    · intro rest ends
      obtain ⟨taken, -⟩ := Text.run_append cs ends.digits
      rw [not_and, not_not] at takes
      simp only [letters, List.cons_append, Numeral.splitExponent, noSign ends, taken]
      split
      · rename_i isMark
        rw [takes isMark]
        rfl
      · rfl

/-- What is left of a name, if anything is, is a word. -/
theorem exists_cuts_tail {tail : List Char} (inside : ∀ d ∈ tail, isWordChar d = true)
    (noDigit : Text.Stops Text.isDigit tail) :
    ∃ shapes, Cuts (String.ofList tail) WordEnds shapes := by
  cases tail with
  | nil => exact ⟨[], fun rest more _ splits => by simpa using splits⟩
  | cons c cs =>
    have starts : isWordStart c = true := by
      refine (isWordStart_or_isDigit (inside c List.mem_cons_self)).resolve_right fun digit => ?_
      have no := Text.stops_cons.1 noDigit
      exact absurd (Text.isDigit_of_isDigit digit) (by simp [no])
    exact ⟨_, cuts_word String.toList_ofList starts fun d member =>
      inside d (List.mem_cons_of_mem c member)⟩

theorem cuts_digits {digits : String} (nonempty : digits.toList ≠ [])
    (areDigits : ∀ c ∈ digits.toList, Text.isDigit c = true) :
    Cuts digits (Text.Stops Numeral.continues) [(.number, digits)] := by
  have formed : Numeral.Formed ⟨digits.toList, false, [], none⟩ :=
    ⟨.inl nonempty, areDigits, by simp, by simp, by simp⟩
  exact cuts_number formed (by simp [Numeral.text, Numeral.exponentText])

/-- Digits, a point and a name are not cut at the point: the first token is a longer number. -/
theorem exists_cuts_digits {digits name : String} (nonempty : digits.toList ≠ [])
    (areDigits : ∀ c ∈ digits.toList, Text.isDigit c = true) (isName : IsName name) :
    ∃ number more, number ≠ digits ∧
      Cuts (digits ++ "." ++ name) MemberEnds ((.number, number) :: more) := by
  obtain ⟨exponent, tail, inside, noDigit, split⟩ := exists_splitExponent isName
  obtain ⟨more, tailCuts⟩ := exists_cuts_tail inside noDigit
  refine ⟨String.ofList (Numeral.text ⟨digits.toList, true, [], exponent⟩), more, ?_, ?_⟩
  · intro same
    have lengths := congrArg (·.toList.length) same
    simp [Numeral.text] at lengths
  · intro rest after ends splits
    have nameStops : Text.Stops Text.isDigit (name.toList ++ rest) := by
      obtain ⟨c, cs, letters, starts, -, -⟩ := isName
      rw [letters]
      exact Text.stops_cons.2 (isDigit_of_isWordStart starts)
    have numeral := Numeral.split?_digits_point nonempty areDigits nameStops
    rw [split rest ends] at numeral
    have word := tailCuts rest after ends.word splits
    rw [String.toList_ofList] at word
    simpa [token?] using Splits.cut (first?_of_split? numeral) word

/-- The text has no halves, and in front of whatever meets the condition, it is cut into tokens, the
same ones always. -/
def Cuttable (text : Text) (follow : List Char → Prop) : Prop :=
  text.IsWhole ∧ ∃ shapes, Cuts text.head follow shapes

namespace Cuttable

variable {text : Text} {follow follow' : List Char → Prop}

theorem append {a b : Text} (first : Cuttable a follow) (second : Cuttable b follow')
    (fits : ∀ rest, follow' rest → follow (b.head.toList ++ rest)) : Cuttable (a ++ b) follow' := by
  obtain ⟨a, _⟩ := a
  obtain ⟨b, _⟩ := b
  obtain ⟨rfl, shapes, cuts⟩ := first
  obtain ⟨rfl, shapes', cuts'⟩ := second
  exact ⟨rfl, shapes ++ shapes', cuts.append cuts' fits⟩

theorem mono (cuttable : Cuttable text follow) (fits : ∀ rest, follow' rest → follow rest) :
    Cuttable text follow' := by
  obtain ⟨whole, shapes, cuts⟩ := cuttable
  exact ⟨whole, shapes, cuts.mono fits⟩

theorem of_reads {D : List Token → Prop} (reads : Reads text follow D) : Cuttable text follow := by
  obtain ⟨whole, shapes, cuts, -⟩ := reads
  exact ⟨whole, shapes, cuts⟩

theorem exists_whole (cuttable : Cuttable text follow) :
    ∃ (s : String) (shapes : List (Token.Kind × String)), text = s ∧ Cuts s follow shapes := by
  obtain ⟨whole, shapes, cuts⟩ := cuttable
  exact ⟨text.head, shapes, congrArg (Text.mk _) whole, cuts⟩

end Cuttable

end Lexeme

/-! ### Expressions -/

namespace Node

/-- Whether the node is an expression. -/
def isExpression : Node → Bool
  | .number _ | .text _ | .identifier _ | .binary .. | .logical .. | .unary .. | .assignment ..
  | .update .. | .call .. | .property .. | .index .. | .array _ => true
  | _ => false

/-- Whether the node is a literal of a whole number below `10 ^ 21`. -/
def isWholeLiteral : Node → Bool
  | .number (.double x) => (Double.toInt? x).any (· < 10 ^ 21)
  | _ => false

theorem properExpression_of_occurs [CharacterNames] {source : String} {tree node : Node}
    (parsed : ofSource source = .ok tree) (occurs : tree.Occurs node)
    (isExpression : node.isExpression = true) : ProperExpression node := by
  obtain ⟨body, program, -⟩ := proper_of_ofSource parsed
  -- neither the whole program nor any of its statements is an expression
  rcases proper_of_occurs parsed occurs with rfl | expression | ⟨inLoop, statement⟩
  · rw [program] at isExpression
    cases isExpression
  · exact expression
  · cases statement <;> cases isExpression

end Node

namespace Script

open Lexeme (Cuttable ExpressionEnds MemberEnds)

/-- The text of an expression, written with its strength, is cut into tokens where it may stand. -/
structure Tokenized (e : Node) (piece : Piece) : Prop where
  opens : Opens piece.1
  cuttable : Cuttable piece.1 ExpressionEnds
  dotted : memberStrength ≤ piece.2 → e.isWholeLiteral = false → Cuttable piece.1 MemberEnds

/-- The expression has a text, and the text is cut into tokens. -/
def HasTokens (e : Node) : Prop :=
  ∃ piece, expression e = .ok piece ∧ Tokenized e piece

/-- The marks that stand around parts of an expression. -/
def brackets : List String :=
  ["(", ")", "[", "]"]

theorem cuttable_bracket {mark : String} (listed : mark ∈ brackets) :
    Cuttable mark Anything ∧ ∀ rest, ExpressionEnds (mark.toList ++ rest) := by
  constructor
  · simp only [brackets, List.mem_cons, List.not_mem_nil, or_false] at listed
    rcases listed with rfl | rfl | rfl | rfl <;>
      exact ⟨rfl, _, Lexeme.cuts_literal 1 "" (fun _ => rfl) (by decide)⟩
  · have table : ∀ mark ∈ brackets, Lexeme.endsBefore mark.toList = true ∧
        mark.toList.head?.any Numeral.isSign = false := by decide
    obtain ⟨check, unsigned⟩ := table mark listed
    exact Lexeme.expressionEnds_append check unsigned

theorem cuttable_between {a b : String} {text : Text} (opening : a ∈ brackets)
    (closing : b ∈ brackets) (inner : Cuttable text ExpressionEnds) :
    Cuttable (a ++ text ++ b) Anything := by
  have front := (cuttable_bracket opening).1.append inner fun _ _ => trivial
  obtain ⟨mark, ends⟩ := cuttable_bracket closing
  exact front.append mark fun rest _ => ends rest

namespace Tokenized

variable {e : Node} {piece : Piece}

theorem within (tokenized : Tokenized e piece) (place : Nat) :
    Cuttable (piece.within place) ExpressionEnds := by
  unfold Piece.within
  split
  · exact (cuttable_between (by decide) (by decide) tokenized.cuttable).mono fun _ _ => trivial
  · exact tokenized.cuttable

theorem withinDotted (tokenized : Tokenized e piece) (other : e.isWholeLiteral = false) :
    Cuttable (piece.within memberStrength) MemberEnds := by
  unfold Piece.within
  split
  · exact (cuttable_between (by decide) (by decide) tokenized.cuttable).mono fun _ _ => trivial
  · rename_i enough
    exact tokenized.dotted (Nat.le_of_not_lt enough) other

theorem ofLoose {text : Text} {strength : Nat} (weak : strength < memberStrength)
    (opens : Opens text) (cuttable : Cuttable text ExpressionEnds) :
    Tokenized e (text, strength) :=
  ⟨opens, cuttable, fun strong => absurd strong (Nat.not_le_of_lt weak)⟩

theorem ofChain {text : Text} (opens : Opens text) (cuttable : Cuttable text MemberEnds) :
    Tokenized e (text, memberStrength) :=
  ⟨opens, cuttable.mono fun _ ends => ends.toMemberEnds, fun _ _ => cuttable⟩

/-- A text that is read back is cut into tokens to be read. -/
theorem ofWritten [CharacterNames] (written : Written e piece)
    (other : ∀ value, e ≠ .number value) :
    Tokenized e piece where
  opens := written.opens
  cuttable := (Cuttable.of_reads written.reads).mono fun _ ends => ends.ends
  dotted strong _ := (Cuttable.of_reads (written.dotted strong other)).mono fun _ ends => ends.word

end Tokenized

/-! ### Literals -/

theorem tokenized_text (value : Text) :
    Tokenized (.text value)
      (Text.JsonString.encode Text.JsonString.isPlainAscii value, memberStrength) := by
  apply Tokenized.ofChain
  · exact ⟨'"', by simp [Text.JsonString.encode], by decide⟩
  · rw [Text.JsonString.encode_isPlainAscii]
    have cuts := Lexeme.cuts_string (Text.JsonString.string?_asciiText value)
    exact ⟨rfl, _, cuts.mono fun _ _ => trivial⟩

theorem tokenized_infinity :
    Tokenized (.number (.double (Double.ofMagnitudeBits false Double.infinityBits)))
      (Layout.printed.double (Double.ofMagnitudeBits false Double.infinityBits),
        memberStrength) := by
  have text : Layout.printed.double (Double.ofMagnitudeBits false Double.infinityBits) =
      "Infinity" := Layout.printed.double_infinity
  rw [text]
  apply Tokenized.ofChain (opens_name isName_infinity)
  exact ⟨rfl, _, (Lexeme.cuts_name isName_infinity).mono fun _ ends => ends.word⟩

theorem isWholeLiteral_iff (x : Float) : Node.isWholeLiteral (.number (.double x)) = true ↔
    ∃ k, Double.toInt? x = some k ∧ k < 10 ^ 21 := by
  simp [Node.isWholeLiteral, Option.any_eq_true]

theorem tokenized_finite [CharacterNames] {bits : Nat} (finite : bits < Double.infinityBits) :
    Tokenized (.number (.double (Double.ofMagnitudeBits false bits)))
      (Layout.printed.double (Double.ofMagnitudeBits false bits), memberStrength) := by
  have written := written_finite finite
  refine ⟨written.opens, ?_, fun _ other => ?_⟩
  · exact (Cuttable.of_reads written.reads).mono fun _ ends => ends.ends
  · obtain ⟨n, plain, text, digits⟩ := Layout.exists_numeral_digits finite
    refine ⟨rfl, _, Lexeme.cuts_closed_number plain.formed text ?_⟩
    rw [digits, ← isWholeLiteral_iff, other]
    exact Bool.false_ne_true

/-- The text of a number that is printed as digits alone, which needs no parentheses. -/
theorem digits_of_isWholeLiteral {e : Node} (proper : Node.ProperExpression e)
    (isWhole : e.isWholeLiteral = true) {piece : Piece} (text : expression e = .ok piece) :
    ∃ digits : String, piece.within memberStrength = digits ∧ digits.toList ≠ [] ∧
      ∀ c ∈ digits.toList, Text.isDigit c = true := by
  cases proper with
  | @number bits number =>
    cases text
    rcases Nat.lt_or_eq_of_le number with finite | rfl
    · obtain ⟨n, plain, written, digits⟩ := Layout.exists_numeral_digits finite
      obtain ⟨pointless, noExponent⟩ := digits.2 ((isWholeLiteral_iff _).1 isWhole)
      have whole : n.text = n.whole := by
        simp [Numeral.text, pointless, plain.pointless pointless, noExponent, Numeral.exponentText]
      refine ⟨_, by rw [Piece.within, if_neg (Nat.lt_irrefl _)], ?_⟩
      rw [written, whole]
      exact ⟨plain.nonempty, plain.formed.whole⟩
    · exact absurd isWhole (by decide +kernel)
  | _ => cases isWhole

/-! ### Expressions with parts -/

theorem tokenized_operation {level : Precedence} {op : String} (isOperator : op ∈ level.operators)
    {left right e : Node} {first second : Piece} (leftTokenized : Tokenized left first)
    (rightTokenized : Tokenized right second) :
    Tokenized e (first.within (levelStrength level) ++ " " ++ op ++ " " ++
      second.within (levelStrength level + 1), levelStrength level) := by
  have weak : levelStrength level < memberStrength := by cases level <;> decide
  obtain ⟨middle, ends⟩ := reads_operator isOperator
  have unsigned : (" " ++ op ++ " ").toList.head?.any Numeral.isSign = false := by
    simp [String.toList_append, Numeral.isSign]
  have text : first.within (levelStrength level) ++ " " ++ op ++ " " ++
      second.within (levelStrength level + 1) =
      first.within (levelStrength level) ++ (" " ++ op ++ " ") ++
        second.within (levelStrength level + 1) := by
    simp only [Text.append_assoc]
  rw [text]
  refine .ofLoose weak (((leftTokenized.opens.within _).append _).append _) ?_
  have front := (leftTokenized.within (levelStrength level)).append (.of_reads middle)
    fun rest _ => Lexeme.expressionEnds_append ends unsigned rest
  exact front.append (rightTokenized.within _) fun _ _ => trivial

theorem tokenized_unary {op : String} (isOperator : op ∈ ["!", "-", "+"]) {operand : Node}
    {piece : Piece} (tokenized : Tokenized operand piece) :
    Tokenized (.unary op operand) (unaryText op (piece.within unaryStrength), unaryStrength) := by
  have inner := tokenized.within unaryStrength
  obtain ⟨sign, isSign, rfl⟩ := exists_sign isOperator
  obtain ⟨direct, spaced⟩ := reads_sign isSign
  have opens := opens_sign isSign
  unfold unaryText
  split
  · apply Tokenized.ofLoose (by decide) ((opens.append _).append _)
    exact (Cuttable.of_reads spaced).append inner fun _ _ => trivial
  · rename_i apart
    apply Tokenized.ofLoose (by decide) (opens.append _)
    refine (Cuttable.of_reads direct).append inner fun rest _ => ?_
    have opens := tokenized.opens.within unaryStrength
    obtain ⟨s, -, same, -⟩ := inner.exists_whole
    rw [same] at opens apart ⊢
    exact stops_signPartner isSign opens apart rest

theorem tokenized_assignment {name : String} (isName : Lexeme.IsName name) {value : Node}
    {piece : Piece} (tokenized : Tokenized value piece) :
    Tokenized (.assignment name value)
      (name ++ " = " ++ piece.within assignmentStrength, assignmentStrength) := by
  refine .ofLoose (by decide) (((opens_name isName).append _).append _) ?_
  have front := (Cuttable.of_reads (reads_name isName)).append (.of_reads reads_equals)
    fun rest _ => (Lexeme.ends_append (by decide) rest).1
  exact front.append (tokenized.within _) fun _ _ => trivial

theorem cuttable_items {args : List Node} (hasTokens : ∀ arg ∈ args, HasTokens arg) :
    ∃ texts, items args = .ok texts ∧
      Cuttable (Text.intercalate ", " texts) ExpressionEnds := by
  induction args with
  | nil => exact ⟨[], rfl, .of_reads (reads_nil (D := fun _ => True) trivial)⟩
  | cons arg args ih =>
    obtain ⟨piece, text, first⟩ := hasTokens arg List.mem_cons_self
    obtain ⟨texts, same, others⟩ :=
      ih fun arg member => hasTokens arg (List.mem_cons_of_mem _ member)
    refine ⟨piece.within assignmentStrength :: texts, items_cons text same, ?_⟩
    cases texts with
    | nil =>
      rw [Text.intercalate]
      exact first.within assignmentStrength
    | cons next texts =>
      -- the comma ends the item in front of it
      rw [Text.intercalate_cons_of_ne_nil (by simp)]
      have front := (first.within assignmentStrength).append (.of_reads reads_comma)
        fun rest _ => Lexeme.expressionEnds_append (by decide) (by decide) rest
      exact front.append others fun _ _ => trivial

/-- A chain that goes on with a list of arguments or with a key. -/
theorem tokenized_suffix {object e : Node} {piece : Piece} (tokenized : Tokenized object piece)
    {a b : String} {text : Text} (opening : a ∈ brackets) (closing : b ∈ brackets)
    (inner : Cuttable text ExpressionEnds) :
    Tokenized e (piece.within memberStrength ++ a ++ text ++ b, memberStrength) := by
  have regroup : piece.within memberStrength ++ a ++ text ++ b =
      piece.within memberStrength ++ (a ++ text ++ b) := by simp only [Text.append_assoc]
  rw [regroup]
  refine .ofChain ((tokenized.opens.within _).append _) ?_
  have whole := (tokenized.within memberStrength).append (cuttable_between opening closing inner)
    fun rest _ => by
      rw [Text.append_assoc, Text.head_append_whole, String.toList_append, List.append_assoc]
      exact (cuttable_bracket opening).2 _
  exact whole.mono fun _ _ => trivial

theorem tokenized_array {elements : List Node} {text : Text}
    (inner : Cuttable text ExpressionEnds) :
    Tokenized (.array elements) ("[" ++ text ++ "]", memberStrength) := by
  have opens : Opens "[" := ⟨'[', by decide, by decide⟩
  refine .ofChain ((opens.append _).append _) ?_
  exact (cuttable_between (by decide) (by decide) inner).mono fun _ _ => trivial

/-! ### Members -/

/-- A point and a name, in front of which the object ends. -/
theorem cuts_pointedName {name : String} (isName : Lexeme.IsName name) :
    Cuts ("." ++ name) MemberEnds [(.punctuation, "."), (.identifier, name)] := by
  refine Lexeme.cuts_dot.append ((Lexeme.cuts_name isName).mono fun _ ends => ends.word) ?_
  intro rest _
  obtain ⟨c, cs, spelled, starts, -, -⟩ := isName
  rw [spelled]
  exact Text.stops_cons.2 (Lexeme.isDigit_of_isWordStart starts)

/-- An object that leaves the point alone is cut as it is alone, and the point and the name behind
it. -/
theorem cuts_member {text name : String} {shapes : List (Token.Kind × String)}
    (cuts : Cuts text MemberEnds shapes) (isName : Lexeme.IsName name) :
    Cuts (text ++ "." ++ name) MemberEnds
      (shapes ++ [(.punctuation, "."), (.identifier, name)]) := by
  rw [String.append_assoc]
  refine cuts.append (cuts_pointedName isName) fun rest _ => ?_
  rw [String.toList_append, List.append_assoc]
  exact Lexeme.memberEnds_point _

theorem tokenized_property {object : Node} (proper : Node.ProperExpression object) {piece : Piece}
    (text : expression object = .ok piece) (tokenized : Tokenized object piece) {name : String}
    (isName : Lexeme.IsName name) :
    Tokenized (.property object name)
      (piece.within memberStrength ++ "." ++ name, memberStrength) := by
  refine .ofChain (((tokenized.opens.within _).append _).append _) ?_
  cases isWhole : object.isWholeLiteral with
  | false =>
    obtain ⟨s, shapes, same, cuts⟩ := (tokenized.withinDotted isWhole).exists_whole
    rw [same]
    exact ⟨rfl, _, cuts_member cuts isName⟩
  | true =>
    obtain ⟨s, same, nonempty, digits⟩ := digits_of_isWholeLiteral proper isWhole text
    obtain ⟨number, more, -, cuts⟩ := Lexeme.exists_cuts_digits nonempty digits isName
    rw [same]
    exact ⟨rfl, _, cuts⟩

/-- Every expression of source text has a text, and the text is cut into tokens. -/
theorem hasTokens_of_proper [CharacterNames] {e : Node} (proper : Node.ProperExpression e) :
    HasTokens e := by
  -- Only the case of a property asks what its object is: the tokens may differ from those of the
  -- object, but the text is cut all the same.
  induction proper with
  | number number =>
    rcases Nat.lt_or_eq_of_le number with finite | rfl
    · exact ⟨_, rfl, tokenized_finite finite⟩
    · exact ⟨_, rfl, tokenized_infinity⟩
  | text => exact ⟨_, rfl, tokenized_text _⟩
  | identifier isName => exact ⟨_, rfl, .ofWritten (written_identifier isName) (by simp)⟩
  | @binary op left right isOperator _ _ leftIh rightIh =>
    obtain ⟨first, leftText, leftTokenized⟩ := leftIh
    obtain ⟨second, rightText, rightTokenized⟩ := rightIh
    obtain ⟨level, listed, -⟩ := exists_level_of_binary isOperator
    refine ⟨_, ?_, tokenized_operation listed leftTokenized rightTokenized⟩
    rw [expression, strength?_of_level listed, leftText, rightText]
    rfl
  | @logical op left right isOperator _ _ leftIh rightIh =>
    obtain ⟨first, leftText, leftTokenized⟩ := leftIh
    obtain ⟨second, rightText, rightTokenized⟩ := rightIh
    obtain ⟨level, listed, -⟩ := exists_level_of_logical isOperator
    refine ⟨_, ?_, tokenized_operation listed leftTokenized rightTokenized⟩
    rw [expression, strength?_of_level listed, leftText, rightText]
    rfl
  | unary isOperator _ ih =>
    obtain ⟨piece, text, tokenized⟩ := ih
    refine ⟨_, ?_, tokenized_unary isOperator tokenized⟩
    rw [expression, text]
    rfl
  | assignment isName _ ih =>
    obtain ⟨piece, text, tokenized⟩ := ih
    refine ⟨_, ?_, tokenized_assignment isName tokenized⟩
    rw [expression, text]
    rfl
  | update isUpdate isName =>
    exact ⟨_, rfl, .ofWritten (written_update isUpdate isName) (by simp)⟩
  | call _ _ calleeIh argsIh =>
    obtain ⟨piece, text, tokenized⟩ := calleeIh
    obtain ⟨texts, argTexts, cuttable⟩ := cuttable_items argsIh
    refine ⟨_, ?_, tokenized_suffix tokenized (a := "(") (b := ")") (by decide) (by decide)
      cuttable⟩
    rw [expression, argTexts, text]
    rfl
  | property proper isName ih =>
    obtain ⟨piece, text, tokenized⟩ := ih
    refine ⟨_, ?_, tokenized_property proper text tokenized isName⟩
    rw [expression, text]
    rfl
  | index _ _ objectIh keyIh =>
    obtain ⟨piece, text, tokenized⟩ := objectIh
    obtain ⟨keyPiece, keyText, keyTokenized⟩ := keyIh
    refine ⟨_, ?_, tokenized_suffix tokenized (a := "[") (b := "]") (by decide) (by decide)
      keyTokenized.cuttable⟩
    rw [expression, text, keyText]
    rfl
  | array _ ih =>
    obtain ⟨texts, elementTexts, cuttable⟩ := cuttable_items ih
    refine ⟨_, ?_, tokenized_array cuttable⟩
    rw [expression, elementTexts]
    rfl

/-- The tokens of a text that is cut on its own. -/
theorem tokens_of_cuts {text : String} {follow : List Char → Prop}
    {shapes : List (Token.Kind × String)} (cuts : Cuts text follow shapes) (ends : follow []) :
    ∃ tokens, Token.scan text = .ok tokens ∧ tokens.map Token.shape = shapes :=
  Lexeme.CutsInto.tokens ⟨shapes, cuts, fun _ same => same⟩ ends

/-- The tokens of a member are those of its object, the point and the name, if and only if the
object is not a whole number that is printed as digits alone. -/
theorem member_keeps_tokens_iff [CharacterNames] {source : String} {tree object : Node}
    {name : String} (parsed : Node.ofSource source = .ok tree) (occurs : tree.Occurs object)
    (isExpression : object.isExpression = true) (isName : Lexeme.IsName name) :
    ∃ (piece : Piece) (text : String) (tokens all : List Token),
      expression object = .ok piece ∧ piece.within memberStrength = text ∧
      expression (.property object name) =
        .ok ((text ++ "." ++ name : String), memberStrength) ∧
      Token.scan text = .ok tokens ∧ Token.scan (text ++ "." ++ name) = .ok all ∧
      (all.map Token.shape =
          tokens.map Token.shape ++ [(.punctuation, "."), (.identifier, name)] ↔
        object.isWholeLiteral = false) := by
  have proper := Node.properExpression_of_occurs parsed occurs isExpression
  obtain ⟨piece, text, tokenized⟩ := hasTokens_of_proper proper
  have member : expression (.property object name) =
      .ok (piece.within memberStrength ++ "." ++ name, memberStrength) := by
    rw [expression, text]
    rfl
  -- on its own, neither text has anything behind it
  have ends : MemberEnds [] := Lexeme.expressionEnds_nil.toMemberEnds
  cases isWhole : object.isWholeLiteral with
  | false =>
    obtain ⟨s, shapes, whole, cuts⟩ := (tokenized.withinDotted isWhole).exists_whole
    obtain ⟨tokens, scanned, same⟩ := tokens_of_cuts cuts ends
    obtain ⟨all, scannedAll, sameAll⟩ := tokens_of_cuts (cuts_member cuts isName) ends
    rw [whole] at member
    refine ⟨piece, s, tokens, all, text, whole, member, scanned, scannedAll, iff_of_true ?_ rfl⟩
    rw [sameAll, same]
  | true =>
    obtain ⟨s, whole, nonempty, digits⟩ := digits_of_isWholeLiteral proper isWhole text
    obtain ⟨number, more, other, cuts⟩ := Lexeme.exists_cuts_digits nonempty digits isName
    obtain ⟨all, scannedAll, sameAll⟩ := tokens_of_cuts cuts ends
    have alone := Lexeme.cuts_digits nonempty digits
    obtain ⟨tokens, scanned, same⟩ := tokens_of_cuts alone (Text.stops_nil _)
    rw [whole] at member
    refine ⟨piece, s, tokens, all, text, whole, member, scanned, scannedAll,
      iff_of_false ?_ (by simp)⟩
    -- already the first tokens differ
    rw [sameAll, same]
    intro equal
    exact other (by simpa using congrArg List.head? equal)

/-- The number one. -/
def one : Node :=
  .number (.double (Double.ofMagnitudeBits false 0x3ff0000000000000))

theorem ofSource_member_of_one [CharacterNames] :
    Node.ofSource "(1).foo;" = .ok (.program [.statement (.property one "foo")]) := by
  let tokens : List Token :=
    [ ⟨.punctuation, "(", ⟨1, 1⟩⟩, ⟨.number, "1", ⟨1, 2⟩⟩, ⟨.punctuation, ")", ⟨1, 3⟩⟩,
      ⟨.punctuation, ".", ⟨1, 4⟩⟩, ⟨.identifier, "foo", ⟨1, 5⟩⟩, ⟨.punctuation, ";", ⟨1, 8⟩⟩ ]
  have scanned : Token.scan "(1).foo;" = .ok tokens := by rfl
  have value : Text.tokenNumber? "1" = some (Double.ofMagnitudeBits false 0x3ff0000000000000) := by
    decide +kernel
  -- The tree is derived by the grammar: only the one token needs to be counted.
  have opening : Mark "(" ⟨.punctuation, "(", ⟨1, 1⟩⟩ := ⟨rfl, rfl⟩
  have closing : Mark ")" ⟨.punctuation, ")", ⟨1, 3⟩⟩ := ⟨rfl, rfl⟩
  have dot : Mark "." ⟨.punctuation, ".", ⟨1, 4⟩⟩ := ⟨rfl, rfl⟩
  have spells : Name "foo" ⟨.identifier, "foo", ⟨1, 5⟩⟩ := ⟨rfl, rfl⟩
  have stop : Mark ";" ⟨.punctuation, ";", ⟨1, 8⟩⟩ := ⟨rfl, rfl⟩
  have number : Expression (phrase memberStrength) [⟨.number, "1", ⟨1, 2⟩⟩] one :=
    .primary (.number rfl value)
  have inner := phrase_of_le (Nat.zero_le _) number
  have member : Expression (phrase memberStrength) _ (.property one "foo") :=
    .property (.primary (.parentheses opening inner closing)) dot spells
  have program : Program tokens (.program [.statement (.property one "foo")]) :=
    .statements (.next (.expression (phrase_of_le (Nat.zero_le _) member) stop) .done)
  have read : Reading.program Node.literal Tree.nestingLimit tokens = _ :=
    Reading.program_read program (by decide)
  rw [Node.ofSource, scanned]
  change Tree.ofTokens Node.literal tokens = _
  rw [Tree.ofTokens, read]

theorem expression_member_of_one :
    expression one = .ok ("1", memberStrength) ∧
      expression (.property one "foo") = .ok ("1.foo", memberStrength) := by
  have text : expression one = .ok ("1", memberStrength) := by
    have digits :
        Layout.printed.double (Double.ofMagnitudeBits false 0x3ff0000000000000) = "1" := by
      decide +kernel
    rw [one, expression, numberText, digits]
    rfl
  refine ⟨text, ?_⟩
  rw [expression, text]
  rfl

/-- A member of a member keeps the tokens of its object, though the number in it has taken the
point. -/
theorem member_keeps_tokens_iff_nested :
    let _ : CharacterNames := .none
    let object : Node := .property one "foo"
    let tree : Node := .program [.statement object]
    Node.ofSource "(1).foo;" = .ok tree ∧ tree.Occurs object ∧ object.isExpression = true ∧
      Lexeme.IsName "e5" ∧ object.isWholeLiteral = false ∧
      ∃ tokens all, Token.scan "1.foo" = .ok tokens ∧ Token.scan "1.foo.e5" = .ok all ∧
        all.map Token.shape =
          tokens.map Token.shape ++ [(.punctuation, "."), (.identifier, "e5")] := by
  intro names object tree
  have occurs : tree.Occurs object := .part (.part .whole List.mem_cons_self) List.mem_cons_self
  have isName : Lexeme.IsName "e5" :=
    ⟨'e', ['5'], by decide, by decide, List.all_eq_true.1 (by decide), by decide⟩
  obtain ⟨piece, s, tokens, all, text, whole, -, scanned, scannedAll, kept⟩ :=
    member_keeps_tokens_iff ofSource_member_of_one occurs rfl isName
  rw [expression_member_of_one.2] at text
  cases text
  cases whole
  exact ⟨ofSource_member_of_one, occurs, rfl, isName, rfl, tokens, all, scanned, scannedAll,
    kept.2 rfl⟩

/-- The member `foo` of the number one is written as a longer number and a name. -/
theorem whole_object_takes_the_point :
    let _ : CharacterNames := .none
    let tree : Node := .program [.statement (.property one "foo")]
    Node.ofSource "(1).foo;" = .ok tree ∧ tree.Occurs one ∧ one.isExpression = true ∧
      Lexeme.IsName "foo" ∧ expression one = .ok ("1", memberStrength) ∧
      expression (.property one "foo") = .ok ("1.foo", memberStrength) ∧
      (Token.scan "1").map (·.map Token.shape) = .ok [(.number, "1")] ∧
      (Token.scan "1.foo").map (·.map Token.shape) =
        .ok [(.number, "1."), (.identifier, "foo")] := by
  intro names tree
  obtain ⟨text, member⟩ := expression_member_of_one
  have occurs : tree.Occurs one :=
    .part (.part (.part .whole List.mem_cons_self) List.mem_cons_self) List.mem_cons_self
  have isName : Lexeme.IsName "foo" :=
    ⟨'f', ['o', 'o'], by decide, by decide, List.all_eq_true.1 (by decide), by decide⟩
  exact ⟨ofSource_member_of_one, occurs, rfl, isName, text, member, rfl, rfl⟩

end Script

end YapLang
