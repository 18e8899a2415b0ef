import YapLang.Proofs.ProperTrees
import YapLang.Proofs.ScriptTokens

/-!
# Expressions of a script are read back

The text of an expression reads as a phrase of the strength that comes with it, and a text in a
place that asks for more strength stands in parentheses. A phrase that binds strongly is one that
binds less strongly as well, so the parentheses that are left out are not needed. What is read back
is the same tree, but for the names that a script gives to printing and to infinity.
-/
namespace YapLang

open Grammar
open Lexeme (CutsInto Ends WordEnds)

/-! ### Trees as scripts name them -/

/-- Whether a number has to be written as the name of infinity. -/
def LiteralValue.isInfinite : LiteralValue → Bool
  | int _ => false
  | double x => Double.isInfinite x

namespace Node

mutual

/-- The tree with the names of scripts: printing is a method of the console, and infinity is a name.
Names that are declared, assigned or updated and names of properties stay as they are. -/
def scripted : Node → Node
  | .program body => .program (scriptedEach body)
  | .block body => .block (scriptedEach body)
  | .function name params body => .function name params (scriptedEach body)
  | .declaration name init => .declaration name (scriptedOptional init)
  | .conditional test consequent alternate =>
    .conditional (scripted test) (scriptedEach consequent) (scriptedOptional alternate)
  | .forLoop init test update body =>
    .forLoop (scriptedOptional init) (scriptedOptional test) (scriptedOptional update)
      (scriptedEach body)
  | .whileLoop test body => .whileLoop (scripted test) (scriptedEach body)
  | .breakJump => .breakJump
  | .continueJump => .continueJump
  | .returning argument => .returning (scriptedOptional argument)
  | .statement expr => .statement (scripted expr)
  | .number value => if value.isInfinite then .identifier "Infinity" else .number value
  | .text value => .text value
  | .identifier name =>
    if name = "print" ∨ name = "yapping" then .property (.identifier "console") "log"
    else .identifier name
  | .binary op left right => .binary op (scripted left) (scripted right)
  | .logical op left right => .logical op (scripted left) (scripted right)
  | .unary op operand => .unary op (scripted operand)
  | .assignment target value => .assignment target (scripted value)
  | .update op target => .update op target
  | .call callee args => .call (scripted callee) (scriptedEach args)
  | .property object name => .property (scripted object) name
  | .index object key => .index (scripted object) (scripted key)
  | .array elements => .array (scriptedEach elements)

def scriptedEach : List Node → List Node
  | [] => []
  | node :: rest => scripted node :: scriptedEach rest

def scriptedOptional : Option Node → Option Node
  | none => none
  | some node => some (scripted node)

end

end Node

namespace Script

/-! ### Strength -/

/-- The kind of phrase that a text of a strength is. -/
def phrase : Nat → Phrase
  | 0 | 1 => .expression
  | 2 => .operation .disjunction
  | 3 => .operation .conjunction
  | 4 => .operation .equality
  | 5 => .operation .comparison
  | 6 => .operation .sum
  | 7 => .operation .product
  | 8 => .signed
  | _ => .chain

/-- The text begins with something that makes no longer mark of a negation in front of it. -/
def Opens (text : Text) : Prop :=
  ∃ c, text.letters.head? = some (.char c) ∧ c ≠ '='

theorem Opens.append {text : Text} (opens : Opens text) (more : Text) : Opens (text ++ more) := by
  obtain ⟨c, first, other⟩ := opens
  exact ⟨c, by simp [List.head?_append, first], other⟩

theorem Opens.within {piece : Piece} (opens : Opens piece.1) (place : Nat) :
    Opens (piece.within place) := by
  unfold Piece.within
  split
  · have parenthesis : Opens "(" := ⟨'(', by decide, by decide⟩
    exact (parenthesis.append _).append _
  · exact opens

theorem opens_name {name : String} (isName : Lexeme.IsName name) : Opens name := by
  obtain ⟨c, cs, text, starts, -, -⟩ := isName
  refine ⟨c, by simp [text], ?_⟩
  rintro rfl
  exact absurd starts (by decide)

/-! ### Marks and names -/

theorem reads_comma : Reads ", " Anything fun us => ∃ t, us = [t] ∧ Mark "," t :=
  reads_mark 1 " " (fun _ => rfl) (by decide) (by decide)

theorem reads_equals : Reads " = " Anything fun us => ∃ t, us = [t] ∧ Mark "=" t :=
  reads_mark 2 " " (fun _ => rfl) (by decide) (by decide)

theorem reads_between {a b text : Text} {O D : List Token → Prop} {C : Token → Prop}
    (opening : Reads a Anything O) (inner : Reads text Ends D)
    (closing : Reads b Anything fun us => ∃ t, us = [t] ∧ C t)
    (ends : Lexeme.endsBefore b.head.toList = true) :
    Reads (a ++ text ++ b) Anything fun us =>
      ∃ os ts c, us = os ++ (ts ++ [c]) ∧ O os ∧ D ts ∧ C c := by
  have front : Reads (a ++ text) Ends fun us => ∃ os ts, us = os ++ ts ∧ O os ∧ D ts :=
    opening.append inner (fun _ _ => trivial) fun os ts opens holds =>
      ⟨os, ts, rfl, opens, holds⟩
  refine front.append closing (fun rest _ => Lexeme.ends_append ends rest) ?_
  rintro _ _ ⟨os, ts, rfl, opens, holds⟩ ⟨c, rfl, closes⟩
  exact ⟨os, ts, c, by rw [List.append_assoc], opens, holds, closes⟩

theorem reads_parentheses {text : Text} {D : List Token → Prop} (inner : Reads text Ends D) :
    Reads ("(" ++ text ++ ")") Anything fun us =>
      ∃ o ts c, us = o :: (ts ++ [c]) ∧ Mark "(" o ∧ D ts ∧ Mark ")" c := by
  have opening : Reads "(" Anything fun us => ∃ t, us = [t] ∧ Mark "(" t :=
    reads_mark 1 "" (fun _ => rfl) (by decide) (by decide)
  have closing : Reads ")" Anything fun us => ∃ t, us = [t] ∧ Mark ")" t :=
    reads_mark 1 "" (fun _ => rfl) (by decide) (by decide)
  refine (reads_between opening inner closing (by decide)).map ?_
  rintro _ ⟨_, ts, c, rfl, ⟨o, rfl, opens⟩, holds, closes⟩
  exact ⟨o, ts, c, rfl, opens, holds, closes⟩

theorem reads_brackets {text : Text} {D : List Token → Prop} (inner : Reads text Ends D) :
    Reads ("[" ++ text ++ "]") Anything fun us =>
      ∃ o ts c, us = o :: (ts ++ [c]) ∧ Mark "[" o ∧ D ts ∧ Mark "]" c := by
  have opening : Reads "[" Anything fun us => ∃ t, us = [t] ∧ Mark "[" t :=
    reads_mark 1 "" (fun _ => rfl) (by decide) (by decide)
  have closing : Reads "]" Anything fun us => ∃ t, us = [t] ∧ Mark "]" t :=
    reads_mark 1 "" (fun _ => rfl) (by decide) (by decide)
  refine (reads_between opening inner closing (by decide)).map ?_
  rintro _ ⟨_, ts, c, rfl, ⟨o, rfl, opens⟩, holds, closes⟩
  exact ⟨o, ts, c, rfl, opens, holds, closes⟩

theorem isName_console : Lexeme.IsName "console" :=
  ⟨'c', "onsole".toList, by decide, by decide, List.all_eq_true.1 (by decide), by decide⟩

theorem isName_log : Lexeme.IsName "log" :=
  ⟨'l', "og".toList, by decide, by decide, List.all_eq_true.1 (by decide), by decide⟩

theorem isName_infinity : Lexeme.IsName "Infinity" :=
  ⟨'I', "nfinity".toList, by decide, by decide, List.all_eq_true.1 (by decide), by decide⟩

/-! ### Operators and signs -/

/-- How strongly the operators of a level bind. -/
def levelStrength : Precedence → Nat
  | .disjunction => 2
  | .conjunction => 3
  | .equality => 4
  | .comparison => 5
  | .sum => 6
  | .product => 7

theorem phrase_levelStrength (level : Precedence) :
    phrase (levelStrength level) = .operation level ∧
      phrase (levelStrength level + 1) = level.operand := by
  cases level <;> exact ⟨rfl, rfl⟩

theorem strength?_of_level {level : Precedence} {op : String} (isOperator : op ∈ level.operators) :
    strength? op = some (levelStrength level) := by
  have table : ∀ level ∈ Precedence.all, ∀ op ∈ level.operators,
      strength? op = some (levelStrength level) := by decide
  exact table level (by cases level <;> decide) op isOperator

/-- An operator between two operands stands between blanks. -/
theorem reads_operator {level : Precedence} {op : String} (isOperator : op ∈ level.operators) :
    Reads (" " ++ op ++ " ") Anything (fun us => ∃ t, us = [t] ∧ Mark op t) ∧
      Lexeme.endsBefore (" " ++ op ++ " ").toList = true := by
  have listed : op ∈ Precedence.all.flatMap Precedence.operators :=
    List.mem_flatMap.2 ⟨level, by cases level <;> decide, isOperator⟩
  constructor
  · have noUpdate : ∀ op ∈ Precedence.all.flatMap Precedence.operators, op ∉ ["++", "--"] := by
      decide
    refine reads_mark 2 " " (fun rest => ?_) (by decide) (noUpdate op listed)
    simp only [Precedence.all, Precedence.operators, List.flatMap_cons, List.flatMap_nil,
      List.cons_append, List.nil_append, List.mem_cons, List.not_mem_nil, or_false] at listed
    rcases listed with rfl | rfl | rfl | rfl | rfl | rfl | rfl | rfl | rfl | rfl | rfl | rfl | rfl |
      rfl | rfl <;> rfl
  · have table : ∀ op ∈ Precedence.all.flatMap Precedence.operators,
        Lexeme.endsBefore (" " ++ op ++ " ").toList = true := by decide
    exact table op listed

theorem exists_level_of_binary {op : String}
    (isOperator : op ∈ ["==", "===", "!=", "!==", "<", ">", "<=", ">=", "+", "-", "*", "/", "%"]) :
    ∃ level : Precedence, op ∈ level.operators ∧
      ∀ left right, level.join op left right = .binary op left right := by
  have table : ∀ op ∈ ["==", "===", "!=", "!==", "<", ">", "<=", ">=", "+", "-", "*", "/", "%"],
      ∃ level ∈ [Precedence.equality, .comparison, .sum, .product],
        op ∈ level.operators := by decide
  obtain ⟨level, listed, member⟩ := table op isOperator
  refine ⟨level, member, fun left right => ?_⟩
  cases level <;> first | rfl | exact absurd listed (by decide)

theorem exists_level_of_logical {op : String} (isOperator : op ∈ ["||", "&&"]) :
    ∃ level : Precedence, op ∈ level.operators ∧
      ∀ left right, level.join op left right = .logical op left right := by
  simp only [List.mem_cons, List.not_mem_nil, or_false] at isOperator
  rcases isOperator with rfl | rfl
  · exact ⟨.disjunction, by decide, fun _ _ => rfl⟩
  · exact ⟨.conjunction, by decide, fun _ _ => rfl⟩

theorem exists_sign {op : String} (isOperator : op ∈ ["!", "-", "+"]) :
    ∃ sign ∈ ['!', '-', '+'], op = String.singleton sign := by
  have table : ["!", "-", "+"] = ['!', '-', '+'].map String.singleton := by decide
  rw [table, List.mem_map] at isOperator
  obtain ⟨sign, isSign, same⟩ := isOperator
  exact ⟨sign, isSign, same.symm⟩

/-- A sign that stands right in front of its operand makes no longer mark with it. -/
theorem stops_signPartner {sign : Char} (isSign : sign ∈ ['!', '-', '+']) {text : String}
    (opens : Opens text)
    (apart : ¬((["", "+", "-", "+-"] : List Text).contains (String.singleton sign) &&
      startsWithSign text) = true)
    (rest : List Char) : Text.Stops (· == Lexeme.signPartner sign) (text.toList ++ rest) := by
  obtain ⟨c, first, noEquals⟩ := opens
  obtain ⟨cs, begins⟩ : ∃ cs, text.toList = c :: cs :=
    List.head?_eq_some_iff.1 (by simpa using first)
  rw [begins]
  refine Text.stops_cons.2 (beq_eq_false_iff_ne.2 ?_)
  simp only [startsWithSign, Text.letters_whole, begins, List.map_cons] at apart
  simp only [List.mem_cons, List.not_mem_nil, or_false] at isSign
  rcases isSign with rfl | rfl | rfl
  -- a negation could only join an equals sign, which no operand begins with
  · exact noEquals
  · rintro rfl
    exact apart (by decide)
  · rintro rfl
    exact apart (by decide)

theorem opens_sign {sign : Char} (isSign : sign ∈ ['!', '-', '+']) :
    Opens (String.singleton sign) := by
  refine ⟨sign, by simp, ?_⟩
  rintro rfl
  exact absurd isSign (by decide)

theorem reads_sign {sign : Char} (isSign : sign ∈ ['!', '-', '+']) :
    Reads (String.singleton sign) (Text.Stops (· == Lexeme.signPartner sign))
      (fun us => ∃ t, us = [t] ∧ Mark (String.singleton sign) t) ∧
    Reads (String.singleton sign ++ " ") Anything
      (fun us => ∃ t, us = [t] ∧ Mark (String.singleton sign) t) := by
  have noUpdate : String.singleton sign ∉ ["++", "--"] := by simp [← String.toList_inj]
  constructor
  · exact .of_cuts (Lexeme.cuts_sign (by simp) isSign) (.inr noUpdate)
  · refine reads_mark 1 " " (fun rest => ?_) (by decide) noUpdate
    simp only [List.mem_cons, List.not_mem_nil, or_false] at isSign
    rcases isSign with rfl | rfl | rfl <;> rfl

theorem items_cons {arg : Node} {args : List Node} {piece : Piece} {texts : List Text}
    (first : expression arg = .ok piece) (rest : items args = .ok texts) :
    items (arg :: args) = .ok (piece.within assignmentStrength :: texts) := by
  rw [items, first, rest]
  rfl

/-! ### Texts that are read back -/

section

variable [CharacterNames]

theorem phrase_of_succ {strength : Nat} {ts : List Token} {e : Node}
    (derived : Expression (phrase (strength + 1)) ts e) : Expression (phrase strength) ts e := by
  match strength, derived with
  | 0, derived => exact derived
  | 1, derived => exact .operation derived
  | 2, derived | 3, derived | 4, derived | 5, derived | 6, derived | 7, derived =>
    exact .operand derived
  | 8, derived => exact .unsigned (.unchanged (.unmarked derived))
  | _ + 9, derived => exact derived

/-- What binds strongly may stand where less strength is asked for. -/
theorem phrase_of_le {strength place : Nat} {ts : List Token} {e : Node} (le : place ≤ strength)
    (derived : Expression (phrase strength) ts e) : Expression (phrase place) ts e := by
  induction le with
  | refl => exact derived
  | step _ ih => exact ih (phrase_of_succ derived)

/-- The text of an expression, written with its strength, reads as the expression. -/
structure Written (e : Node) (piece : Piece) : Prop where
  opens : Opens piece.1
  reads : Reads piece.1 Ends fun ts => Expression (phrase piece.2) ts e.scripted
  /-- A number could take a point that follows it for its own. -/
  dotted : memberStrength ≤ piece.2 → (∀ value, e ≠ .number value) →
    Reads piece.1 WordEnds fun ts => Expression .chain ts e.scripted

/-- The expression has a text, and the text reads as the expression. -/
def HasText (e : Node) : Prop :=
  ∃ piece, expression e = .ok piece ∧ Written e piece

namespace Written

variable {e : Node} {piece : Piece}

theorem inParentheses (written : Written e piece) :
    Reads ("(" ++ piece.1 ++ ")") Anything fun ts => Expression .chain ts e.scripted := by
  refine (reads_parentheses written.reads).map ?_
  rintro _ ⟨o, ts, c, rfl, opening, inner, closing⟩
  -- between parentheses there may stand anything
  exact .primary (.parentheses opening (phrase_of_le (Nat.zero_le _) inner) closing)

theorem within (written : Written e piece) {place : Nat} (le : place ≤ memberStrength) :
    Reads (piece.within place) Ends fun ts => Expression (phrase place) ts e.scripted := by
  unfold Piece.within
  split
  · exact written.inParentheses.mono (fun _ _ => trivial) fun ts inner => phrase_of_le le inner
  · rename_i enough
    exact written.reads.map fun ts inner => phrase_of_le (Nat.le_of_not_lt enough) inner

theorem withinDotted (written : Written e piece) (other : ∀ value, e ≠ .number value) :
    Reads (piece.within memberStrength) WordEnds fun ts => Expression .chain ts e.scripted := by
  unfold Piece.within
  split
  · exact written.inParentheses.mono (fun _ _ => trivial) fun ts inner => inner
  · rename_i enough
    exact written.dotted (Nat.le_of_not_lt enough) other

theorem ofLoose {text : Text} {strength : Nat} (weak : strength < memberStrength)
    (opens : Opens text)
    (reads : Reads text Ends fun ts => Expression (phrase strength) ts e.scripted) :
    Written e (text, strength) :=
  ⟨opens, reads, fun strong => absurd strong (Nat.not_le_of_lt weak)⟩

/-- What needs no parentheses and may be followed by a point. -/
theorem ofChain {text : Text} (opens : Opens text)
    (reads : Reads text WordEnds fun ts => Expression .chain ts e.scripted) :
    Written e (text, memberStrength) :=
  ⟨opens, reads.mono (fun _ ends => ends.1) fun _ derived => derived, fun _ _ => reads⟩

end Written

/-! ### Names and literals -/

theorem reads_property {text : Text} {name : String} {object : Node}
    (reads : Reads text WordEnds fun ts => Expression .chain ts object)
    (isName : Lexeme.IsName name) :
    Reads (text ++ "." ++ name) WordEnds fun ts =>
      Expression .chain ts (.property object name) := by
  have dot : Reads "." (Text.Stops Text.isDigit) fun us => ∃ t, us = [t] ∧ Mark "." t :=
    .of_cuts Lexeme.cuts_dot (.inr (by decide))
  have front : Reads (text ++ ".") (Text.Stops Text.isDigit) fun us =>
      ∃ ts t, us = ts ++ [t] ∧ Expression .chain ts object ∧ Mark "." t := by
    refine reads.append dot ?_ ?_
    · exact fun rest _ => ⟨Text.stops_cons.2 (by decide), Text.stops_cons.2 (by decide)⟩
    · rintro ts _ derived ⟨t, rfl, mark⟩
      exact ⟨ts, t, rfl, derived, mark⟩
  refine front.append (reads_name isName) ?_ ?_
  · intro rest _
    -- with a digit behind it, the point would begin a number
    obtain ⟨c, cs, spelled, starts, -, -⟩ := isName
    rw [spelled]
    exact Text.stops_cons.2 (Lexeme.isDigit_of_isWordStart starts)
  · rintro _ _ ⟨ts, t, rfl, derived, mark⟩ ⟨u, rfl, spells⟩
    simpa using Expression.property derived mark spells

theorem reads_identifier {name : String} (isName : Lexeme.IsName name) :
    Reads name WordEnds fun ts => Expression .chain ts (.identifier name) := by
  refine (reads_name isName).map ?_
  rintro _ ⟨t, rfl, spells⟩
  exact .primary (.name spells)

/-- The two names of printing are written as a method of the console. -/
theorem written_identifier {name : String} (isName : Lexeme.IsName name) :
    Written (.identifier name) (identifierText name, memberStrength) := by
  by_cases prints : name = "print" ∨ name = "yapping"
  · have named : Node.scripted (.identifier name) = .property (.identifier "console") "log" := by
      simp [Node.scripted, prints]
    have text : identifierText name = "console" ++ "." ++ "log" := by
      simp [identifierText, prints]
    rw [text]
    apply Written.ofChain
    · exact ((opens_name isName_console).append _).append _
    · rw [named]
      exact reads_property (reads_identifier isName_console) isName_log
  · have named : Node.scripted (.identifier name) = .identifier name := by
      simp [Node.scripted, prints]
    have text : identifierText name = name := by simp [identifierText, prints]
    rw [text]
    apply Written.ofChain
    · exact opens_name isName
    · rw [named]
      exact reads_identifier isName

theorem written_text {value : Text} (plane : ∀ l ∈ value.letters, l.code < 0x10000) :
    Written (.text value)
      (Text.JsonString.encode Text.JsonString.isPlainAscii value, memberStrength) := by
  apply Written.ofChain
  · exact ⟨'"', by simp [Text.JsonString.encode], by decide⟩
  · rw [Text.JsonString.encode_isPlainAscii]
    have cuts := Lexeme.cuts_string (Text.JsonString.string?_asciiText value)
    have string := Reads.of_cuts cuts (.inl (by simp))
    refine string.mono (fun _ _ => trivial) ?_
    rintro _ ⟨t, rfl, kind, written⟩
    refine .primary (.text kind ?_)
    rw [written]
    exact Text.JsonString.literalValue?_asciiText plane

theorem written_finite {bits : Nat} (finite : bits < Double.infinityBits) :
    Written (.number (.double (Double.ofMagnitudeBits false bits)))
      (Layout.printed.double (Double.ofMagnitudeBits false bits), memberStrength) := by
  have plainMark : Layout.printed.wholeMark = "" := rfl
  obtain ⟨n, plain, text, value⟩ := Layout.exists_numeral plainMark finite
  have named : Node.scripted (.number (.double (Double.ofMagnitudeBits false bits))) =
      .number (.double (Double.ofMagnitudeBits false bits)) := by
    rw [Node.scripted, LiteralValue.isInfinite, Double.isInfinite,
      Double.magnitudeBits_ofMagnitudeBits (Nat.le_of_lt finite)]
    simp [Nat.ne_of_lt finite]
  -- a number is the one chain that a point must not follow
  refine ⟨?_, ?_, fun _ other => absurd rfl (other _)⟩
  · obtain ⟨c, first, digit⟩ := Numeral.exists_head plain
    refine ⟨c, by simp [text, List.head?_map, first], ?_⟩
    rintro rfl
    exact absurd digit (by decide)
  · have numeral := Reads.of_cuts (Lexeme.cuts_number plain.formed text) (.inl (by simp))
    refine numeral.mono (fun _ ends => ends.2) ?_
    rintro _ ⟨t, rfl, kind, written⟩
    have token := Numeral.tokenNumber?_text plain.formed
    rw [← text, String.ofList_toList, value] at token
    rw [named]
    refine .primary (.number kind ?_)
    rw [written]
    exact token

theorem written_infinity :
    Written (.number (.double (Double.ofMagnitudeBits false Double.infinityBits)))
      (Layout.printed.double (Double.ofMagnitudeBits false Double.infinityBits),
        memberStrength) := by
  have text : Layout.printed.double (Double.ofMagnitudeBits false Double.infinityBits) =
      "Infinity" := Layout.printed.double_infinity
  have named : Node.scripted
      (.number (.double (Double.ofMagnitudeBits false Double.infinityBits))) =
      .identifier "Infinity" := by
    rw [Node.scripted, LiteralValue.isInfinite, Double.isInfinite,
      Double.magnitudeBits_ofMagnitudeBits (Nat.le_refl _)]
    simp
  rw [text]
  apply Written.ofChain
  · exact opens_name isName_infinity
  · rw [named]
    exact reads_identifier isName_infinity

/-! ### Operations -/

theorem written_operation {level : Precedence} {op : String} (isOperator : op ∈ level.operators)
    {left right : Node} {first second : Piece} (leftWritten : Written left first)
    (rightWritten : Written right second) {e : Node}
    (same : e.scripted = level.join op left.scripted right.scripted) :
    Written e (first.within (levelStrength level) ++ " " ++ op ++ " " ++
      second.within (levelStrength level + 1), levelStrength level) := by
  obtain ⟨loose, tight⟩ := phrase_levelStrength level
  have weak : levelStrength level + 1 ≤ memberStrength := by cases level <;> decide
  obtain ⟨middle, ends⟩ := reads_operator isOperator
  have text : first.within (levelStrength level) ++ " " ++ op ++ " " ++
      second.within (levelStrength level + 1) =
      first.within (levelStrength level) ++ (" " ++ op ++ " ") ++
        second.within (levelStrength level + 1) := by
    simp only [Text.append_assoc]
  rw [text]
  refine .ofLoose weak (((leftWritten.opens.within _).append _).append _) ?_
  have front : Reads (first.within (levelStrength level) ++ (" " ++ op ++ " ")) Anything
      fun us => ∃ ts t, us = ts ++ [t] ∧
        Expression (.operation level) ts left.scripted ∧ Mark op t := by
    refine (leftWritten.within (Nat.le_of_succ_le weak)).append middle
      (fun rest _ => Lexeme.ends_append ends rest) ?_
    rintro ts _ derived ⟨t, rfl, mark⟩
    rw [loose] at derived
    exact ⟨ts, t, rfl, derived, mark⟩
  refine front.append (rightWritten.within weak) (fun _ _ => trivial) ?_
  rintro _ us ⟨ts, t, rfl, derived, mark⟩ operand
  rw [tight] at operand
  -- the left operand may be of the same level, the right one is tighter
  rw [same, loose, List.append_assoc]
  exact .operator derived mark isOperator operand

/-- Signs of operands stand without a blank, unless two of them would make another mark. -/
theorem written_unary {op : String} (isOperator : op ∈ ["!", "-", "+"]) {operand : Node}
    {piece : Piece} (written : Written operand piece) :
    Written (.unary op operand) (unaryText op (piece.within unaryStrength), unaryStrength) := by
  have inner : Reads (piece.within unaryStrength) Ends fun ts =>
      Expression .signed ts operand.scripted := written.within (by decide)
  have join : ∀ ts us, (∃ t, ts = [t] ∧ Mark op t) → Expression .signed us operand.scripted →
      Expression .signed (ts ++ us) (Node.scripted (.unary op operand)) := by
    rintro _ us ⟨t, rfl, mark⟩ derived
    exact .signed mark isOperator derived
  obtain ⟨sign, isSign, rfl⟩ := exists_sign isOperator
  obtain ⟨direct, spaced⟩ := reads_sign isSign
  have opens := opens_sign isSign
  unfold unaryText
  split
  · apply Written.ofLoose (by decide) ((opens.append _).append _)
    exact spaced.append inner (fun _ _ => trivial) join
  · rename_i apart
    apply Written.ofLoose (by decide) (opens.append _)
    refine direct.append inner (fun rest _ => ?_) join
    have opens := written.opens.within unaryStrength
    -- the operand is written without halves, so its letters are those of a string
    have whole : piece.within unaryStrength = (piece.within unaryStrength).head :=
      congrArg (Text.mk _) inner.1
    rw [whole] at opens apart
    exact stops_signPartner isSign opens apart rest

/-! ### Lists of expressions -/

theorem reads_itemsFrom {args : List Node} (nonempty : args ≠ [])
    (hasText : ∀ arg ∈ args, HasText arg) :
    ∃ texts, items args = .ok texts ∧ texts ≠ [] ∧
      Reads (Text.intercalate ", " texts) Ends fun ts =>
        ItemsFrom ts (Node.scriptedEach args) := by
  induction args with
  | nil => exact absurd rfl nonempty
  | cons arg args ih =>
    obtain ⟨piece, text, first⟩ := hasText arg List.mem_cons_self
    have inner : Reads (piece.within assignmentStrength) Ends fun ts =>
        Expression .expression ts arg.scripted := first.within (by decide)
    cases args with
    | nil =>
      refine ⟨[piece.within assignmentStrength], items_cons text rfl, by simp, ?_⟩
      rw [Text.intercalate]
      exact inner.map fun ts derived => .last derived
    | cons next args =>
      obtain ⟨texts, same, some, others⟩ :=
        ih (by simp) fun arg member => hasText arg (List.mem_cons_of_mem _ member)
      refine ⟨piece.within assignmentStrength :: texts, items_cons text same, by simp, ?_⟩
      have front : Reads (piece.within assignmentStrength ++ ", ") Anything fun us =>
          ∃ ts t, us = ts ++ [t] ∧ Expression .expression ts arg.scripted ∧ Mark "," t := by
        refine inner.append reads_comma (fun rest _ => Lexeme.ends_append (by decide) rest) ?_
        rintro ts _ derived ⟨t, rfl, mark⟩
        exact ⟨ts, t, rfl, derived, mark⟩
      rw [Text.intercalate_cons_of_ne_nil some]
      refine front.append others (fun _ _ => trivial) ?_
      rintro _ us ⟨ts, t, rfl, derived, mark⟩ rest
      rw [List.append_assoc]
      exact .more derived mark rest

theorem reads_items {args : List Node}
    (hasText : ∀ arg ∈ args, HasText arg) :
    ∃ texts, items args = .ok texts ∧
      Reads (Text.intercalate ", " texts) Ends fun ts => Items ts (Node.scriptedEach args) := by
  cases args with
  | nil => exact ⟨[], rfl, reads_nil .none⟩
  | cons arg args =>
    obtain ⟨texts, same, -, reads⟩ := reads_itemsFrom (List.cons_ne_nil arg args) hasText
    exact ⟨texts, same, reads.map fun ts derived => .some derived⟩

theorem written_assignment {name : String} (isName : Lexeme.IsName name) {value : Node}
    {piece : Piece} (written : Written value piece) :
    Written (.assignment name value)
      (name ++ " = " ++ piece.within assignmentStrength, assignmentStrength) := by
  refine .ofLoose (by decide) (((opens_name isName).append _).append _) ?_
  have front : Reads (name ++ " = ") Anything fun us =>
      ∃ ts t, us = ts ++ [t] ∧ Expression .chain ts (.identifier name) ∧ Mark "=" t := by
    refine (reads_identifier isName).append reads_equals
      (fun rest _ => (Lexeme.ends_append (by decide) rest).1) ?_
    rintro ts _ derived ⟨t, rfl, mark⟩
    exact ⟨ts, t, rfl, derived, mark⟩
  refine front.append (written.within (by decide)) (fun _ _ => trivial) ?_
  rintro _ us ⟨ts, t, rfl, target, mark⟩ derived
  -- a name is the strongest of all phrases, so it may stand as a target
  have target : Expression (phrase 2) ts (.identifier name) :=
    phrase_of_le (show 2 ≤ memberStrength by decide) target
  rw [List.append_assoc]
  exact .assignment target mark derived

/-- An update is written in front of its name and read behind it. -/
theorem written_update {op name : String} (isUpdate : op ∈ ["++", "--"])
    (isName : Lexeme.IsName name) : Written (.update op name) (op ++ name, unaryStrength) := by
  have front : Lexeme.Cuts op Anything [(.punctuation, op)] := by
    refine Lexeme.cuts_literal 1 "" (fun rest => ?_) (by decide)
    simp only [List.mem_cons, List.not_mem_nil, or_false] at isUpdate
    rcases isUpdate with rfl | rfl <;> rfl
  refine .ofLoose (by decide) ?_ ?_
  · have opens : Opens op := by
      simp only [List.mem_cons, List.not_mem_nil, or_false] at isUpdate
      rcases isUpdate with rfl | rfl
      · exact ⟨'+', by decide, by decide⟩
      · exact ⟨'-', by decide, by decide⟩
    exact opens.append _
  · refine ⟨rfl, _, front.append ((Lexeme.cuts_name isName).mono fun _ ends => ends.1)
      (fun _ _ => trivial), fun tokens same => ?_⟩
    obtain ⟨t, rest, rfl, shape, others⟩ := List.map_eq_cons_iff.1 same
    obtain ⟨u, rfl, shape'⟩ := List.map_eq_singleton_iff.1 others
    have mark : Mark op t := Prod.mk.inj shape
    obtain ⟨sameKind, sameText⟩ := Prod.mk.inj shape'
    have spells : Name name u := ⟨sameKind, congrArg Text.whole sameText⟩
    -- the two tokens change places, as the grammar has the mark behind the name
    refine ⟨[u, t], reorders_update mark isUpdate spells, ?_⟩
    exact .unsigned (.update (.unmarked (.primary (.name spells))) mark isUpdate)

/-- A chain that goes on with something between two marks. -/
theorem written_suffix {object e : Node} {piece : Piece} (written : Written object piece)
    {a : String} {text b : Text} {D : List Token → Prop}
    (reads : Reads (a ++ text ++ b) Anything D) (ends : Lexeme.endsBefore a.toList = true)
    (join : ∀ ts us, Expression .chain ts object.scripted → D us →
      Expression .chain (ts ++ us) e.scripted) :
    Written e (piece.within memberStrength ++ a ++ text ++ b, memberStrength) := by
  have regroup : piece.within memberStrength ++ a ++ text ++ b =
      piece.within memberStrength ++ (a ++ text ++ b) := by simp only [Text.append_assoc]
  have whole : Reads (piece.within memberStrength ++ (a ++ text ++ b)) Anything fun ts =>
      Expression .chain ts e.scripted := by
    refine (written.within (Nat.le_refl _)).append reads (fun rest _ => ?_) join
    rw [Text.append_assoc, Text.head_append_whole, String.toList_append, List.append_assoc]
    exact Lexeme.ends_append ends _
  rw [regroup]
  exact .ofChain ((written.opens.within _).append _)
    (whole.mono (fun _ _ => trivial) fun _ derived => derived)

theorem written_call {callee : Node} {piece : Piece} (written : Written callee piece)
    {args : List Node} {text : Text}
    (reads : Reads text Ends fun ts => Items ts (Node.scriptedEach args)) :
    Written (.call callee args)
      (piece.within memberStrength ++ "(" ++ text ++ ")", memberStrength) := by
  refine written_suffix written (reads_parentheses reads) (by decide) ?_
  rintro ts _ derived ⟨o, us, c, rfl, opening, inner, closing⟩
  exact .call derived opening inner closing

theorem written_index {object key : Node} {piece keyPiece : Piece} (written : Written object piece)
    (keyWritten : Written key keyPiece) :
    Written (.index object key)
      (piece.within memberStrength ++ "[" ++ keyPiece.1 ++ "]", memberStrength) := by
  refine written_suffix written (reads_brackets keyWritten.reads) (by decide) ?_
  rintro ts _ derived ⟨o, us, c, rfl, opening, inner, closing⟩
  exact .index derived opening (phrase_of_le (Nat.zero_le _) inner) closing

theorem written_array {elements : List Node} {text : Text}
    (reads : Reads text Ends fun ts => Items ts (Node.scriptedEach elements)) :
    Written (.array elements) ("[" ++ text ++ "]", memberStrength) := by
  have opens : Opens "[" := ⟨'[', by decide, by decide⟩
  refine .ofChain ((opens.append _).append _) ?_
  refine (reads_brackets reads).mono (fun _ _ => trivial) ?_
  rintro _ ⟨o, ts, c, rfl, opening, inner, closing⟩
  exact .primary (.array opening inner closing)

theorem written_property {object : Node} {name : String} {piece : Piece}
    (written : Written object piece) (other : ∀ value, object ≠ .number value)
    (isName : Lexeme.IsName name) :
    Written (.property object name) (piece.within memberStrength ++ "." ++ name, memberStrength) :=
  .ofChain (((written.opens.within _).append _).append _)
    (reads_property (written.withinDotted other) isName)

/-! ### All expressions -/

/-- Every expression of source text has a text that reads as it. -/
theorem hasText_of_proper {tree : Node}
    (plane : ∀ value, tree.Occurs (.text value) → ∀ l ∈ value.letters, l.code < 0x10000)
    (objects : ∀ value name, ¬tree.Occurs (.property (.number value) name)) {e : Node}
    (proper : Node.ProperExpression e) (occurs : tree.Occurs e) : HasText e := by
  induction proper with
  | number number =>
    rcases Nat.lt_or_eq_of_le number with finite | rfl
    · exact ⟨_, rfl, written_finite finite⟩
    · exact ⟨_, rfl, written_infinity⟩
  | text => exact ⟨_, rfl, written_text (plane _ occurs)⟩
  | identifier isName => exact ⟨_, rfl, written_identifier isName⟩
  | @binary op left right isOperator _ _ leftIh rightIh =>
    obtain ⟨first, leftText, leftWritten⟩ := leftIh (occurs.part (by simp [Tree.parts]))
    obtain ⟨second, rightText, rightWritten⟩ := rightIh (occurs.part (by simp [Tree.parts]))
    obtain ⟨level, listed, join⟩ := exists_level_of_binary isOperator
    refine ⟨_, ?_, written_operation listed leftWritten rightWritten (join _ _).symm⟩
    rw [expression, strength?_of_level listed, leftText, rightText]
    rfl
  | @logical op left right isOperator _ _ leftIh rightIh =>
    obtain ⟨first, leftText, leftWritten⟩ := leftIh (occurs.part (by simp [Tree.parts]))
    obtain ⟨second, rightText, rightWritten⟩ := rightIh (occurs.part (by simp [Tree.parts]))
    obtain ⟨level, listed, join⟩ := exists_level_of_logical isOperator
    refine ⟨_, ?_, written_operation listed leftWritten rightWritten (join _ _).symm⟩
    rw [expression, strength?_of_level listed, leftText, rightText]
    rfl
  | @unary op operand isOperator _ ih =>
    obtain ⟨piece, text, written⟩ := ih (occurs.part (by simp [Tree.parts]))
    refine ⟨_, ?_, written_unary isOperator written⟩
    rw [expression, text]
    rfl
  | @assignment name value isName _ ih =>
    obtain ⟨piece, text, written⟩ := ih (occurs.part (by simp [Tree.parts]))
    refine ⟨_, ?_, written_assignment isName written⟩
    rw [expression, text]
    rfl
  | update isUpdate isName => exact ⟨_, rfl, written_update isUpdate isName⟩
  | @call callee args _ _ calleeIh argsIh =>
    obtain ⟨piece, text, written⟩ := calleeIh (occurs.part (by simp [Tree.parts]))
    obtain ⟨texts, argTexts, reads⟩ := reads_items fun arg member =>
      argsIh arg member (occurs.part (by simp [Tree.parts, member]))
    refine ⟨_, ?_, written_call written reads⟩
    rw [expression, argTexts, text]
    rfl
  | @property object name _ isName ih =>
    obtain ⟨piece, text, written⟩ := ih (occurs.part (by simp [Tree.parts]))
    -- the one place where the condition on objects is needed
    have other : ∀ value, object ≠ .number value := by
      rintro value rfl
      exact objects value name occurs
    refine ⟨_, ?_, written_property written other isName⟩
    rw [expression, text]
    rfl
  | @index object key _ _ objectIh keyIh =>
    obtain ⟨piece, text, written⟩ := objectIh (occurs.part (by simp [Tree.parts]))
    obtain ⟨keyPiece, keyText, keyWritten⟩ := keyIh (occurs.part (by simp [Tree.parts]))
    refine ⟨_, ?_, written_index written keyWritten⟩
    rw [expression, text, keyText]
    rfl
  | @array elements _ ih =>
    obtain ⟨texts, elementTexts, reads⟩ := reads_items fun element member =>
      ih element member (occurs.part (by simp [Tree.parts, member]))
    refine ⟨_, ?_, written_array reads⟩
    rw [expression, elementTexts]
    rfl

end

end Script

end YapLang
