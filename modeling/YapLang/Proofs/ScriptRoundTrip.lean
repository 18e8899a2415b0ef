import YapLang.Proofs.GrammarCompleteness
import YapLang.Proofs.ScriptExpressions

/-!
# A script is read back as the program

The lines of each statement read as that statement, with the names of scripts, wherever they stand.
Statements that follow `else` are written on the line of the brace before them; they read as the end
of the conditional statement that they belong to. So the script of every program of source text is
cut into tokens that are a program again, and its tree is the tree of the first one.
-/
namespace YapLang.Script

open Grammar
open Lexeme (Ends WordEnds)

/-! ### Lines -/

/-- The text of lines, each with its end. -/
def linesText : List Text → Text
  | [] => ""
  | line :: lines => line ++ "\n" ++ linesText lines

theorem linesText_append (lines more : List Text) :
    linesText (lines ++ more) = linesText lines ++ linesText more := by
  induction lines with
  | nil => simp [linesText]
  | cons line lines ih => simp [linesText, ih, Text.append_assoc]

theorem intercalate_append_newline {lines : List Text} (nonempty : lines ≠ []) :
    Text.intercalate "\n" lines ++ "\n" = linesText lines := by
  induction lines with
  | nil => exact absurd rfl nonempty
  | cons line lines ih =>
    cases lines with
    | nil => simp [linesText, Text.intercalate]
    | cons next lines =>
      rw [Text.intercalate, Text.append_assoc, ih (by simp)]
      rfl

theorem reads_line {text : Text} {D : List Token → Prop} (reads : Reads text Anything D)
    (indent : Nat) : Reads (line indent text ++ "\n") Anything D := by
  have blanks : (String.ofList (List.replicate (2 * indent) ' ')).toList.all Lexeme.isGapChar =
      true := by
    rw [String.toList_ofList, List.all_eq_true]
    intro c member
    rw [List.eq_of_mem_replicate member]
    decide
  have front : Reads (line indent text) Anything D := by
    refine (reads_gap blanks).append reads (fun _ _ => trivial) ?_
    rintro _ us rfl holds
    exact holds
  refine front.append (reads_gap (by decide)) (fun _ _ => trivial) ?_
  rintro ts _ holds rfl
  rwa [List.append_nil]

/-- A line in front of other lines. -/
theorem reads_lines {text : Text} {lines : List Text} {D E F : List Token → Prop}
    (first : Reads text Anything D) (others : Reads (linesText lines) Anything E) (indent : Nat)
    (join : ∀ ts us, D ts → E us → F (ts ++ us)) :
    Reads (linesText (line indent text :: lines)) Anything F :=
  (reads_line first indent).append others (fun _ _ => trivial) join

theorem reads_lastLine {text : Text} {D : List Token → Prop} (reads : Reads text Anything D)
    (indent : Nat) : Reads (linesText [line indent text]) Anything D := by
  have others : Reads (linesText []) Anything fun us => us = [] := reads_nil rfl
  refine reads_lines reads others indent ?_
  rintro ts _ holds rfl
  rwa [List.append_nil]

/-! ### Marks around parts of statements -/

theorem reads_ended {text : Text} {stop : String} {D : List Token → Prop}
    (reads : Reads text Ends D)
    (semicolon : Reads stop Anything fun us => ∃ t, us = [t] ∧ Mark ";" t)
    (ends : Lexeme.endsBefore stop.toList = true) :
    Reads (text ++ stop) Anything fun us => ∃ ts t, us = ts ++ [t] ∧ D ts ∧ Mark ";" t := by
  refine reads.append semicolon (fun rest _ => Lexeme.ends_append ends rest) ?_
  rintro ts _ holds ⟨t, rfl, mark⟩
  exact ⟨ts, t, rfl, holds, mark⟩

theorem reads_terminated {text : Text} {D : List Token → Prop} (reads : Reads text Ends D) :
    Reads (text ++ ";") Anything fun us => ∃ ts t, us = ts ++ [t] ∧ D ts ∧ Mark ";" t :=
  reads_ended reads (reads_mark 1 "" (fun _ => rfl) (by decide) (by decide)) (by decide)

theorem reads_clause {text : Text} {D : List Token → Prop} (reads : Reads text Ends D) :
    Reads (text ++ "; ") Anything fun us => ∃ ts t, us = ts ++ [t] ∧ D ts ∧ Mark ";" t :=
  reads_ended reads (reads_mark 1 " " (fun _ => rfl) (by decide) (by decide)) (by decide)

theorem reads_parametersFrom {param : String} {params : List String}
    (areNames : ∀ p ∈ param :: params, Lexeme.IsName p) :
    Reads (Text.intercalate ", " ((param :: params).map .whole)) WordEnds fun ts =>
      ParametersFrom ts ((param :: params).map .whole) := by
  induction params generalizing param with
  | nil =>
    rw [List.map_singleton, Text.intercalate]
    refine (reads_name (areNames param (by simp))).map ?_
    rintro _ ⟨t, rfl, spells⟩
    exact .last spells
  | cons next params ih =>
    rw [List.map_cons, List.map_cons, Text.intercalate]
    have first : Reads (param ++ ", ") Anything fun us =>
        ∃ t c, us = [t, c] ∧ Name param t ∧ Mark "," c := by
      refine (reads_name (areNames param (by simp))).append reads_comma
        (fun rest _ => (Lexeme.ends_append (by decide) rest).1) ?_
      rintro _ _ ⟨t, rfl, spells⟩ ⟨c, rfl, mark⟩
      exact ⟨t, c, rfl, spells, mark⟩
    refine first.append (ih fun p member => areNames p (by simp [member])) (fun _ _ => trivial) ?_
    rintro _ ts ⟨t, c, rfl, spells, mark⟩ others
    exact .more spells mark others

theorem reads_parameters {params : List String} (areNames : ∀ p ∈ params, Lexeme.IsName p) :
    Reads (Text.intercalate ", " (params.map .whole)) Ends fun ts =>
      Parameters ts (params.map .whole) := by
  cases params with
  | nil => exact reads_nil .none
  | cons param params =>
    exact (reads_parametersFrom areNames).mono (fun _ ends => ends.1) fun ts names => .some names

theorem parenthesesText (front text : Text) :
    front ++ "(" ++ text ++ ") \x7b" = front ++ ("(" ++ text ++ ")") ++ " \x7b" := by
  have braces : (") \x7b" : Text) = ")" ++ " \x7b" := rfl
  simp only [braces, Text.append_assoc]

theorem reads_closed (indent : Nat) :
    Reads (linesText [line indent "\x7d"]) Anything fun us => ∃ t, us = [t] ∧ Mark "\x7d" t :=
  reads_lastLine (reads_mark 1 "" (fun _ => rfl) (by decide) (by decide)) indent

theorem reads_brace : Reads "\x7b" Anything fun us => ∃ t, us = [t] ∧ Mark "\x7b" t :=
  reads_mark 1 "" (fun _ => rfl) (by decide) (by decide)

theorem reads_spacedBrace : Reads " \x7b" Anything fun us => ∃ t, us = [t] ∧ Mark "\x7b" t :=
  reads_mark 2 "" (fun _ => rfl) (by decide) (by decide)

/-- A keyword and what stands behind it in parentheses. -/
theorem reads_header {front text : Text} {keyword : String} {D : List Token → Prop}
    (word : Reads front Anything fun us => ∃ t, us = [t] ∧ Keyword keyword t)
    (inner : Reads text Ends D) :
    Reads (front ++ ("(" ++ text ++ ")")) Anything fun us =>
      ∃ t o ts c, us = t :: o :: (ts ++ [c]) ∧ Keyword keyword t ∧ Mark "(" o ∧ D ts ∧
        Mark ")" c := by
  refine word.append (reads_parentheses inner) (fun _ _ => trivial) ?_
  rintro _ _ ⟨t, rfl, isKeyword⟩ ⟨o, ts, c, rfl, opens, holds, closes⟩
  exact ⟨t, o, ts, c, rfl, isKeyword, opens, holds, closes⟩

theorem reads_else : Reads "\x7d else " Anything fun us =>
    ∃ t u, us = [t, u] ∧ Mark "\x7d" t ∧ Keyword "else" u := by
  have closing : Reads "\x7d" Anything fun us => ∃ t, us = [t] ∧ Mark "\x7d" t :=
    reads_mark 1 "" (fun _ => rfl) (by decide) (by decide)
  have keyword : Reads " else " Anything fun us => ∃ t, us = [t] ∧ Keyword "else" t :=
    reads_keyword 2 " " (fun _ => rfl) (by decide)
  refine closing.append keyword (fun _ _ => trivial) ?_
  rintro _ _ ⟨t, rfl, mark⟩ ⟨u, rfl, isKeyword⟩
  exact ⟨t, u, rfl, mark, isKeyword⟩

/-! ### Parts of statements -/

section

variable [CharacterNames]

theorem HasText.reads {e : Node} (hasText : HasText e) :
    ∃ text, expressionText e = .ok text ∧
      Reads text Ends fun ts => Expression .expression ts e.scripted := by
  obtain ⟨piece, same, written⟩ := hasText
  refine ⟨piece.1, by rw [expressionText, same]; rfl, ?_⟩
  exact written.reads.map fun ts derived => phrase_of_le (Nat.zero_le _) derived

theorem reads_optional {expr : Option Node} (hasText : ∀ e ∈ expr, HasText e) :
    ∃ text, optionalText expr = .ok text ∧
      Reads text Ends fun ts => Optional ts (Node.scriptedOptional expr) := by
  cases expr with
  | none => exact ⟨"", rfl, reads_nil .absent⟩
  | some e =>
    obtain ⟨text, same, reads⟩ := (hasText e rfl).reads
    exact ⟨text, same, reads.map fun ts derived => .present derived⟩

theorem reads_declaration {name : String} (isName : Lexeme.IsName name) {init : Option Node}
    (hasText : ∀ e ∈ init, HasText e) :
    ∃ text, declarationText name init = .ok text ∧
      Reads text Ends fun ts =>
        Declaration ts (.declaration name (Node.scriptedOptional init)) := by
  have keyword : Reads "let " Anything fun us => ∃ t, us = [t] ∧ Keyword "let" t :=
    reads_keyword 1 " " (fun _ => rfl) (by decide)
  have front : Reads ("let " ++ name) WordEnds fun us =>
      ∃ t u, us = [t, u] ∧ Keyword "let" t ∧ Name name u := by
    refine keyword.append (reads_name isName) (fun _ _ => trivial) ?_
    rintro _ _ ⟨t, rfl, isKeyword⟩ ⟨u, rfl, spells⟩
    exact ⟨t, u, rfl, isKeyword, spells⟩
  cases init with
  | none =>
    refine ⟨"let " ++ name, rfl, front.mono (fun _ ends => ends.1) ?_⟩
    rintro _ ⟨t, u, rfl, isKeyword, spells⟩
    exact .plain isKeyword spells
  | some e =>
    obtain ⟨text, same, reads⟩ := (hasText e rfl).reads
    refine ⟨"let " ++ name ++ " = " ++ text, by rw [declarationText, same]; rfl, ?_⟩
    have target : Reads ("let " ++ name ++ " = ") Anything fun us =>
        ∃ t u v, us = [t, u, v] ∧ Keyword "let" t ∧ Name name u ∧ Mark "=" v := by
      refine front.append reads_equals (fun rest _ => (Lexeme.ends_append (by decide) rest).1) ?_
      rintro _ _ ⟨t, u, rfl, isKeyword, spells⟩ ⟨v, rfl, mark⟩
      exact ⟨t, u, v, rfl, isKeyword, spells, mark⟩
    refine target.append reads (fun _ _ => trivial) ?_
    rintro _ ts ⟨t, u, v, rfl, isKeyword, spells, mark⟩ derived
    exact .initialized isKeyword spells mark derived

theorem reads_initial {init : Option Node}
    (hasText : ∀ e ∈ init, HasText e ∨
      ∃ (name : String) (value : Option Node), e = .declaration name value ∧
      Lexeme.IsName name ∧ ∀ v ∈ value, HasText v) :
    ∃ text, initText init = .ok text ∧
      Reads text Ends fun ts => Initial ts (Node.scriptedOptional init) := by
  cases init with
  | none => exact ⟨"", rfl, reads_nil (.optional .absent)⟩
  | some e =>
    rcases hasText e rfl with isExpression | ⟨name, value, rfl, isName, values⟩
    · obtain ⟨text, same, reads⟩ := isExpression.reads
      refine ⟨text, ?_, reads.map fun ts derived => .optional (.present derived)⟩
      rw [initText]
      · exact same
      -- A declaration is not an expression, so it has no text as one.
      · rintro name value ⟨⟩
        cases same
    · obtain ⟨text, same, reads⟩ := reads_declaration isName values
      exact ⟨text, same, reads.map fun ts derived => .declaration derived⟩

/-! ### Bodies -/

/-- A line that opens a body, the lines of the body, and the lines behind it. -/
theorem reads_body {head brace : Text} {lines more : List Text} {inLoop : Bool}
    {body : List Node} {H T F : List Token → Prop} (header : Reads head Anything H)
    (opening : Reads brace Anything fun us => ∃ t, us = [t] ∧ Mark "\x7b" t)
    (inner : Reads (linesText lines) Anything fun ts => Statements inLoop ts body)
    (tail : Reads (linesText more) Anything T) (indent : Nat)
    (join : ∀ vs b ws us, H vs → Mark "\x7b" b → Statements inLoop ws body → T us →
      F (vs ++ b :: (ws ++ us))) :
    Reads (linesText (line indent (head ++ brace) :: (lines ++ more))) Anything F := by
  have first : Reads (head ++ brace) Anything fun us =>
      ∃ vs b, us = vs ++ [b] ∧ H vs ∧ Mark "\x7b" b := by
    refine header.append opening (fun _ _ => trivial) ?_
    rintro vs _ holds ⟨b, rfl, mark⟩
    exact ⟨vs, b, rfl, holds, mark⟩
  have others : Reads (linesText (lines ++ more)) Anything fun us =>
      ∃ ws vs, us = ws ++ vs ∧ Statements inLoop ws body ∧ T vs := by
    rw [linesText_append]
    exact inner.append tail (fun _ _ => trivial) fun ws vs derived holds =>
      ⟨ws, vs, rfl, derived, holds⟩
  refine reads_lines first others indent ?_
  rintro _ _ ⟨vs, b, rfl, holds, mark⟩ ⟨ws, us, rfl, derived, closes⟩
  rw [List.append_assoc]
  exact join vs b ws us holds mark derived closes

/-- A body with nothing behind its brace is a block. -/
theorem reads_block {head brace : Text} {lines : List Text} {inLoop : Bool}
    {body : List Node} {H F : List Token → Prop} (header : Reads head Anything H)
    (opening : Reads brace Anything fun us => ∃ t, us = [t] ∧ Mark "\x7b" t)
    (inner : Reads (linesText lines) Anything fun ts => Statements inLoop ts body) (indent : Nat)
    (join : ∀ vs us, H vs → Block inLoop us body → F (vs ++ us)) :
    Reads (linesText (line indent (head ++ brace) :: (lines ++ [line indent "\x7d"])))
      Anything F := by
  refine reads_body header opening inner (reads_closed indent) indent ?_
  rintro vs b ws _ holds opens derived ⟨t, rfl, closes⟩
  exact join vs _ holds (.braces opens derived closes)

/-! ### What ends a conditional statement -/

/-- What stands behind the statements of a conditional statement: their brace, and what is done
otherwise. -/
inductive Tail (inLoop : Bool) : List Token → Option Node → Prop where
  | closed {t} : Mark "\x7d" t → Tail inLoop [t] none
  | elseBlock {ts t u body} :
      Mark "\x7d" t → Keyword "else" u → Block inLoop ts body →
      Tail inLoop (t :: u :: ts) (some (.block body))
  | elseIf {ts t u node} :
      Mark "\x7d" t → Keyword "else" u → Conditional inLoop ts node →
      Tail inLoop (t :: u :: ts) (some node)

theorem Tail.conditional {inLoop : Bool} {ts ws us : List Token} {keyword opening closing b : Token}
    {test : Node} {body : List Node} {alternate : Option Node} (tail : Tail inLoop us alternate)
    (isKeyword : Keyword "if" keyword) (opens : Mark "(" opening)
    (tests : Expression .expression ts test) (closes : Mark ")" closing) (brace : Mark "\x7b" b)
    (derived : Statements inLoop ws body) :
    Conditional inLoop (keyword :: opening :: (ts ++ closing :: b :: (ws ++ us)))
      (.conditional test body alternate) := by
  -- the closing brace belongs to the tail, since `else` stands on its line
  cases tail with
  | closed last => exact .alone isKeyword opens tests closes (.braces brace derived last)
  | elseBlock last isElse block =>
    have consequent := Block.braces brace derived last
    simpa using Conditional.elseBlock isKeyword opens tests closes consequent isElse block
  | elseIf last isElse next =>
    have consequent := Block.braces brace derived last
    simpa using Conditional.elseIf isKeyword opens tests closes consequent isElse next

/-! ### Statements -/

/-- The statement is written with lines that read as it, inside a loop or not. -/
def HasLines (inLoop : Bool) (s : Node) : Prop :=
  ∀ indent, ∃ lines, statement indent s = .ok lines ∧
    Reads (linesText lines) Anything fun ts => Statement inLoop ts s.scripted

def HasBody (inLoop : Bool) (body : List Node) : Prop :=
  ∀ indent, ∃ lines, statements indent body = .ok lines ∧
    Reads (linesText lines) Anything fun ts => Statements inLoop ts (Node.scriptedEach body)

def HasTail (inLoop : Bool) (alternate : Option Node) : Prop :=
  ∀ indent, ∃ lines, otherwise indent alternate = .ok lines ∧
    Reads (linesText lines) Anything fun ts => Tail inLoop ts (Node.scriptedOptional alternate)

theorem hasBody_of_each {inLoop : Bool} {body : List Node}
    (each : ∀ s ∈ body, HasLines inLoop s) : HasBody inLoop body := by
  intro indent
  induction body with
  | nil => exact ⟨[], rfl, reads_nil .done⟩
  | cons s rest ih =>
    obtain ⟨first, same, reads⟩ := each s (by simp) indent
    obtain ⟨others, same', reads'⟩ := ih fun s member => each s (by simp [member])
    refine ⟨first ++ others, by rw [statements, same, same']; rfl, ?_⟩
    rw [linesText_append]
    exact reads.append reads' (fun _ _ => trivial) fun ts us derived more => .next derived more

theorem hasLines_statement {inLoop : Bool} {e : Node} (hasText : HasText e) :
    HasLines inLoop (.statement e) := by
  intro indent
  obtain ⟨text, same, reads⟩ := hasText.reads
  refine ⟨[line indent (text ++ ";")], by rw [statement, same]; rfl, ?_⟩
  refine reads_lastLine ((reads_terminated reads).map ?_) indent
  rintro _ ⟨ts, t, rfl, derived, mark⟩
  exact .expression derived mark

theorem hasLines_declaration {inLoop : Bool} {name : String} (isName : Lexeme.IsName name)
    {init : Option Node} (hasText : ∀ e ∈ init, HasText e) :
    HasLines inLoop (.declaration name init) := by
  intro indent
  obtain ⟨text, same, reads⟩ := reads_declaration isName hasText
  refine ⟨[line indent (text ++ ";")], by rw [statement, same]; rfl, ?_⟩
  refine reads_lastLine ((reads_terminated reads).map ?_) indent
  rintro _ ⟨ts, t, rfl, declared, mark⟩
  exact .declaration declared mark

theorem hasLines_function {inLoop : Bool} {name : String} (isName : Lexeme.IsName name)
    {params : List String} (areNames : ∀ p ∈ params, Lexeme.IsName p) {body : List Node}
    (hasBody : HasBody false body) : HasLines inLoop (.function name (params.map .whole) body) := by
  intro indent
  obtain ⟨lines, same, inner⟩ := hasBody (indent + 1)
  refine ⟨_, by rw [statement, same]; rfl, ?_⟩
  rw [parenthesesText]
  have keyword : Reads "function " Anything fun us => ∃ t, us = [t] ∧ Keyword "function" t :=
    reads_keyword 1 " " (fun _ => rfl) (by decide)
  have front : Reads ("function " ++ name) WordEnds fun us =>
      ∃ t u, us = [t, u] ∧ Keyword "function" t ∧ Name name u := by
    refine keyword.append (reads_name isName) (fun _ _ => trivial) ?_
    rintro _ _ ⟨t, rfl, isKeyword⟩ ⟨u, rfl, spells⟩
    exact ⟨t, u, rfl, isKeyword, spells⟩
  have header : Reads ("function " ++ name ++
      ("(" ++ Text.intercalate ", " (params.map .whole) ++ ")")) Anything fun us =>
        ∃ t u o ts c, us = t :: u :: o :: (ts ++ [c]) ∧ Keyword "function" t ∧
          Name name u ∧ Mark "(" o ∧ Parameters ts (params.map .whole) ∧ Mark ")" c := by
    refine front.append (reads_parentheses (reads_parameters areNames)) ?_ ?_
    -- the name ends at the parenthesis, whatever the parameters are
    · intro rest _
      rw [Text.append_assoc, Text.head_append_whole, String.toList_append, List.append_assoc]
      exact (Lexeme.ends_append (by decide) _).1
    · rintro _ _ ⟨t, u, rfl, isKeyword, spells⟩ ⟨o, ts, c, rfl, opens, names, closes⟩
      exact ⟨t, u, o, ts, c, rfl, isKeyword, spells, opens, names, closes⟩
  refine reads_block header reads_spacedBrace inner indent ?_
  rintro _ us ⟨t, u, o, ts, c, rfl, isKeyword, spells, opens, names, closes⟩ block
  simpa [Node.scripted] using Statement.function isKeyword spells opens names closes block

theorem hasLines_block {inLoop : Bool} {body : List Node} (hasBody : HasBody inLoop body) :
    HasLines inLoop (.block body) := by
  intro indent
  obtain ⟨lines, same, inner⟩ := hasBody (indent + 1)
  refine ⟨_, by rw [statement, same]; rfl, ?_⟩
  have header : Reads "" Anything fun us => us = [] := reads_nil rfl
  refine reads_block header reads_brace inner indent ?_
  rintro _ us rfl block
  exact .block block

theorem hasLines_whileLoop {inLoop : Bool} {test : Node} (hasText : HasText test)
    {body : List Node} (hasBody : HasBody true body) : HasLines inLoop (.whileLoop test body) := by
  intro indent
  obtain ⟨text, sameTest, reads⟩ := hasText.reads
  obtain ⟨lines, sameBody, inner⟩ := hasBody (indent + 1)
  refine ⟨_, by rw [statement, sameTest, sameBody]; rfl, ?_⟩
  have keyword : Reads "while " Anything fun us => ∃ t, us = [t] ∧ Keyword "while" t :=
    reads_keyword 1 " " (fun _ => rfl) (by decide)
  rw [show ("while (" ++ text ++ ") \x7b" : Text) = _ from parenthesesText "while " text]
  refine reads_block (reads_header keyword reads) reads_spacedBrace inner indent ?_
  rintro _ us ⟨t, o, ts, c, rfl, isKeyword, opens, derived, closes⟩ block
  simpa [Node.scripted] using Statement.whileLoop isKeyword opens derived closes block

theorem hasLines_forLoop {inLoop : Bool} {init test update : Option Node} {body : List Node}
    (hasInit : ∀ e ∈ init, HasText e ∨
      ∃ (name : String) (value : Option Node), e = .declaration name value ∧
      Lexeme.IsName name ∧ ∀ v ∈ value, HasText v)
    (hasTest : ∀ e ∈ test, HasText e) (hasUpdate : ∀ e ∈ update, HasText e)
    (hasBody : HasBody true body) : HasLines inLoop (.forLoop init test update body) := by
  intro indent
  obtain ⟨first, sameInit, starts⟩ := reads_initial hasInit
  obtain ⟨second, sameTest, tests⟩ := reads_optional hasTest
  obtain ⟨third, sameUpdate, updates⟩ := reads_optional hasUpdate
  obtain ⟨lines, sameBody, inner⟩ := hasBody (indent + 1)
  refine ⟨_, by rw [statement, sameInit, sameTest, sameUpdate, sameBody]; rfl, ?_⟩
  have keyword : Reads "for " Anything fun us => ∃ t, us = [t] ∧ Keyword "for" t :=
    reads_keyword 1 " " (fun _ => rfl) (by decide)
  have later : Reads (second ++ "; " ++ third) Ends fun us =>
      ∃ ts t vs, us = ts ++ t :: vs ∧ Optional ts (Node.scriptedOptional test) ∧ Mark ";" t ∧
        Optional vs (Node.scriptedOptional update) := by
    refine (reads_clause tests).append updates (fun _ _ => trivial) ?_
    rintro _ vs ⟨ts, t, rfl, derived, mark⟩ last
    exact ⟨ts, t, vs, by simp, derived, mark, last⟩
  have clauses : Reads (first ++ "; " ++ (second ++ "; " ++ third)) Ends fun us =>
      ∃ ts t vs u ws, us = ts ++ t :: (vs ++ u :: ws) ∧
        Initial ts (Node.scriptedOptional init) ∧ Mark ";" t ∧
        Optional vs (Node.scriptedOptional test) ∧ Mark ";" u ∧
        Optional ws (Node.scriptedOptional update) := by
    refine (reads_clause starts).append later (fun _ _ => trivial) ?_
    rintro _ _ ⟨ts, t, rfl, initial, mark⟩ ⟨vs, u, ws, rfl, derived, mark', last⟩
    exact ⟨ts, t, vs, u, ws, by simp, initial, mark, derived, mark', last⟩
  have text : ("for (" ++ first ++ "; " ++ second ++ "; " ++ third ++ ") \x7b" : Text) =
      "for " ++ ("(" ++ (first ++ "; " ++ (second ++ "; " ++ third)) ++ ")") ++ " \x7b" := by
    rw [← parenthesesText]
    simp only [Text.append_assoc]
    rfl
  -- the three clauses are the text between the parentheses of one header
  rw [text]
  refine reads_block (reads_header keyword clauses) reads_spacedBrace inner indent ?_
  rintro _ us ⟨k, o, _, c, rfl, isKeyword, opens,
    ⟨ts, t, vs, u, ws, rfl, initial, mark, derived, mark', last⟩, closes⟩ block
  simpa [Node.scripted] using
    Statement.forLoop isKeyword opens initial mark derived mark' last closes block

theorem hasLines_returning {inLoop : Bool} {argument : Option Node}
    (hasText : ∀ e ∈ argument, HasText e) : HasLines inLoop (.returning argument) := by
  intro indent
  cases argument with
  | none =>
    have jump : Reads "return;" Anything fun us =>
        ∃ t u, us = [t, u] ∧ Keyword "return" t ∧ Mark ";" u := reads_jump fun _ => rfl
    refine ⟨[line indent "return;"], rfl, reads_lastLine (jump.map ?_) indent⟩
    rintro _ ⟨t, u, rfl, isKeyword, mark⟩
    exact .returning isKeyword .absent mark
  | some e =>
    obtain ⟨text, same, reads⟩ := (hasText e rfl).reads
    refine ⟨[line indent ("return " ++ text ++ ";")], by rw [statement, same]; rfl, ?_⟩
    have keyword : Reads "return " Anything fun us => ∃ t, us = [t] ∧ Keyword "return" t :=
      reads_keyword 1 " " (fun _ => rfl) (by decide)
    have front : Reads ("return " ++ text) Ends fun us => ∃ t ts, us = t :: ts ∧
        Keyword "return" t ∧ Expression .expression ts e.scripted := by
      refine keyword.append reads (fun _ _ => trivial) ?_
      rintro _ ts ⟨t, rfl, isKeyword⟩ derived
      exact ⟨t, ts, rfl, isKeyword, derived⟩
    refine reads_lastLine ((reads_terminated front).map ?_) indent
    rintro _ ⟨_, u, rfl, ⟨t, ts, rfl, isKeyword, derived⟩, mark⟩
    exact .returning isKeyword (.present derived) mark

theorem hasLines_breakJump : HasLines true .breakJump := by
  intro indent
  have jump : Reads "break;" Anything fun us =>
      ∃ t u, us = [t, u] ∧ Keyword "break" t ∧ Mark ";" u := reads_jump fun _ => rfl
  refine ⟨[line indent "break;"], rfl, reads_lastLine (jump.map ?_) indent⟩
  rintro _ ⟨t, u, rfl, isKeyword, mark⟩
  exact .breakJump isKeyword mark

theorem hasLines_continueJump : HasLines true .continueJump := by
  intro indent
  have jump : Reads "continue;" Anything fun us =>
      ∃ t u, us = [t, u] ∧ Keyword "continue" t ∧ Mark ";" u := reads_jump fun _ => rfl
  refine ⟨[line indent "continue;"], rfl, reads_lastLine (jump.map ?_) indent⟩
  rintro _ ⟨t, u, rfl, isKeyword, mark⟩
  exact .continueJump isKeyword mark

theorem hasTail_none {inLoop : Bool} : HasTail inLoop none := by
  intro indent
  refine ⟨[line indent "\x7d"], rfl, (reads_closed indent).map ?_⟩
  rintro _ ⟨t, rfl, mark⟩
  exact .closed mark

theorem hasTail_block {inLoop : Bool} {body : List Node} (hasBody : HasBody inLoop body) :
    HasTail inLoop (some (.block body)) := by
  intro indent
  obtain ⟨lines, same, inner⟩ := hasBody (indent + 1)
  refine ⟨_, by rw [otherwise, same]; rfl, ?_⟩
  refine reads_block reads_else reads_brace inner indent ?_
  rintro _ us ⟨t, u, rfl, mark, isKeyword⟩ block
  exact .elseBlock mark isKeyword block

/-- A conditional statement, with what stands in front of it on its first line. -/
theorem reads_conditional {lead text : Text} {lines more : List Text} {inLoop : Bool}
    {test : Node} {body : List Node} {alternate : Option Node} {L F : List Token → Prop}
    (leads : Reads lead Anything L)
    (reads : Reads text Ends fun ts => Expression .expression ts test)
    (inner : Reads (linesText lines) Anything fun ts => Statements inLoop ts body)
    (tail : Reads (linesText more) Anything fun ts => Tail inLoop ts alternate) (indent : Nat)
    (join : ∀ ls us, L ls → Conditional inLoop us (.conditional test body alternate) →
      F (ls ++ us)) :
    Reads (linesText (line indent (lead ++ ("if (" ++ text ++ ")") ++ " \x7b") ::
      (lines ++ more))) Anything F := by
  have keyword : Reads "if " Anything fun us => ∃ t, us = [t] ∧ Keyword "if" t :=
    reads_keyword 1 " " (fun _ => rfl) (by decide)
  have split : ("if (" ++ text ++ ")" : Text) = "if " ++ ("(" ++ text ++ ")") := by
    rw [← Text.append_assoc, ← Text.append_assoc]
    rfl
  rw [split]
  have header : Reads (lead ++ ("if " ++ ("(" ++ text ++ ")"))) Anything fun us =>
      ∃ ls t o ts c, us = ls ++ t :: o :: (ts ++ [c]) ∧ L ls ∧ Keyword "if" t ∧ Mark "(" o ∧
        Expression .expression ts test ∧ Mark ")" c := by
    refine leads.append (reads_header keyword reads) (fun _ _ => trivial) ?_
    rintro ls _ holds ⟨t, o, ts, c, rfl, isKeyword, opens, derived, closes⟩
    exact ⟨ls, t, o, ts, c, rfl, holds, isKeyword, opens, derived, closes⟩
  refine reads_body header reads_spacedBrace inner tail indent ?_
  rintro _ b ws us ⟨ls, t, o, ts, c, rfl, holds, isKeyword, opens, derived, closes⟩ brace
    statements ends
  have conditional := ends.conditional isKeyword opens derived closes brace statements
  simpa using join ls _ holds conditional

theorem hasLines_conditional {inLoop : Bool} {test : Node} (hasText : HasText test)
    {consequent : List Node} (hasBody : HasBody inLoop consequent) {alternate : Option Node}
    (hasTail : HasTail inLoop alternate) :
    HasLines inLoop (.conditional test consequent alternate) := by
  intro indent
  obtain ⟨text, sameTest, reads⟩ := hasText.reads
  obtain ⟨lines, sameBody, inner⟩ := hasBody (indent + 1)
  obtain ⟨more, sameTail, tail⟩ := hasTail indent
  refine ⟨_, by rw [statement, sameTest, sameBody, sameTail]; rfl, ?_⟩
  have first : ("if (" ++ text ++ ") \x7b" : Text) =
      "" ++ ("if (" ++ text ++ ")") ++ " \x7b" := by
    have brace : (") \x7b" : Text) = ")" ++ " \x7b" := rfl
    simp only [brace, Text.append_assoc, Text.empty_append]
  rw [first]
  have nothing : Reads "" Anything fun us => us = [] := reads_nil rfl
  refine reads_conditional nothing reads inner tail indent ?_
  rintro _ us rfl conditional
  exact .conditional conditional

/-- A conditional statement behind `else` continues the one before it, on the line of its brace. -/
theorem hasTail_conditional {inLoop : Bool} {test : Node} (hasText : HasText test)
    {consequent : List Node} (hasBody : HasBody inLoop consequent) {alternate : Option Node}
    (hasTail : HasTail inLoop alternate) :
    HasTail inLoop (some (.conditional test consequent alternate)) := by
  intro indent
  obtain ⟨text, sameTest, reads⟩ := hasText.reads
  obtain ⟨lines, sameBody, inner⟩ := hasBody (indent + 1)
  obtain ⟨more, sameTail, tail⟩ := hasTail indent
  refine ⟨_, by rw [otherwise, sameTest, sameBody, sameTail]; rfl, ?_⟩
  have first : ("\x7d else if (" ++ text ++ ") \x7b" : Text) =
      "\x7d else " ++ ("if (" ++ text ++ ")") ++ " \x7b" := by
    have brace : (") \x7b" : Text) = ")" ++ " \x7b" := rfl
    have lead : ("\x7d else if (" : Text) = "\x7d else " ++ "if (" := rfl
    simp only [brace, lead, Text.append_assoc]
  rw [first]
  refine reads_conditional reads_else reads inner tail indent ?_
  rintro _ us ⟨t, u, rfl, mark, isKeyword⟩ conditional
  exact .elseIf mark isKeyword conditional

/-! ### Programs -/

/-- Every statement of a program has lines that read as it, and what follows `else` has lines that
continue a conditional statement as well. -/
theorem hasLines_of_proper {tree : Node}
    (plane : ∀ value, tree.Occurs (.text value) → ∀ l ∈ value.letters, l.code < 0x10000)
    (objects : ∀ value name, ¬tree.Occurs (.property (.number value) name)) {inLoop : Bool}
    {s : Node} (proper : Node.ProperStatement inLoop s) (occurs : tree.Occurs s) :
    HasLines inLoop s ∧ (s.IsAlternative → HasTail inLoop (some s)) := by
  -- What is said of the parts of the whole tree is carried down to where it is used.
  have hasText : ∀ {e}, Node.ProperExpression e → tree.Occurs e → HasText e :=
    fun expression inside => hasText_of_proper plane objects expression inside
  induction proper with
  | statement expression =>
    refine ⟨hasLines_statement (hasText expression (occurs.part ?_)), False.elim⟩
    simp [Tree.parts]
  | declaration isName init =>
    refine ⟨hasLines_declaration isName fun e member => ?_, False.elim⟩
    exact hasText (init e member) (occurs.part (by simpa [Tree.parts] using member))
  | function isName areNames _ ih =>
    refine ⟨hasLines_function isName areNames (hasBody_of_each fun s member => ?_), False.elim⟩
    exact (ih s member (occurs.part member)).1
  | block _ ih =>
    have body := hasBody_of_each fun s member => (ih s member (occurs.part member)).1
    exact ⟨hasLines_block body, fun _ => hasTail_block body⟩
  | @conditional inLoop test consequent alternate tests _ _ alternatives ihBody ihAlternate =>
    have test := hasText tests (occurs.part (by simp [Tree.parts]))
    have body : HasBody inLoop consequent := hasBody_of_each fun s member =>
      (ihBody s member (occurs.part (by simp [Tree.parts, member]))).1
    have tail : HasTail inLoop alternate := by
      cases alternate with
      | none => exact hasTail_none
      | some next =>
        exact (ihAlternate next rfl (occurs.part (by simp [Tree.parts]))).2 (alternatives next rfl)
    exact ⟨hasLines_conditional test body tail, fun _ => hasTail_conditional test body tail⟩
  | @forLoop inLoop init test update body inits tests updates _ ih =>
    refine ⟨hasLines_forLoop ?_ ?_ ?_ (hasBody_of_each ?_), False.elim⟩
    · intro e member
      have inside := occurs.part (show e ∈ (Tree.forLoop init test update body).parts by
        simp [Tree.parts, Option.mem_def.1 member])
      -- a declaration in the header is no statement, but its value is an expression inside it
      rcases inits e member with expression | ⟨name, value, rfl, isName, values⟩
      · exact .inl (hasText expression inside)
      · refine .inr ⟨name, value, rfl, isName, fun v given => ?_⟩
        exact hasText (values v given) (inside.part (by simpa [Tree.parts] using given))
    · intro e member
      exact hasText (tests e member) (occurs.part (by simp [Tree.parts, Option.mem_def.1 member]))
    · intro e member
      exact hasText (updates e member) (occurs.part (by simp [Tree.parts, Option.mem_def.1 member]))
    · intro s member
      exact (ih s member (occurs.part (by simp [Tree.parts, member]))).1
  | whileLoop tests _ ih =>
    have test := hasText tests (occurs.part (by simp [Tree.parts]))
    refine ⟨hasLines_whileLoop test (hasBody_of_each fun s member => ?_), False.elim⟩
    exact (ih s member (occurs.part (by simp [Tree.parts, member]))).1
  | returning argument =>
    refine ⟨hasLines_returning fun e member => ?_, False.elim⟩
    exact hasText (argument e member) (occurs.part (by simpa [Tree.parts] using member))
  | breakJump => exact ⟨hasLines_breakJump, False.elim⟩
  | continueJump => exact ⟨hasLines_continueJump, False.elim⟩

/-- The text of a program without statements is the end of a line. -/
theorem reads_ofStatements {body : List Node} (hasBody : HasBody false body) :
    ∃ text, ofStatements body = .ok text ∧
      Reads text Anything fun ts => Statements false ts (Node.scriptedEach body) := by
  obtain ⟨lines, same, reads⟩ := hasBody 0
  refine ⟨Text.intercalate "\n" lines ++ "\n", by rw [ofStatements, same]; rfl, ?_⟩
  cases lines with
  -- with no lines there is no line end to put between them, and the last one is a gap
  | nil =>
    refine reads.append (reads_gap (by decide)) (fun _ _ => trivial) ?_
    rintro ts _ derived rfl
    rwa [List.append_nil]
  | cons line lines =>
    rw [intercalate_append_newline (by simp)]
    exact reads

end

/-- The script of a program of source text is read back as the program: its tokens, with updates
behind their names, are read as the tree with the names of scripts, unless it is nested too deeply.
Texts are within the first plane of characters, because a script writes others as two characters
each; a number in front of a point would take the point for its own. -/
theorem script_reads_back [CharacterNames] (source : String) (tree : Node)
    (parsed : Node.ofSource source = .ok tree)
    (plane : ∀ value, tree.Occurs (.text value) → ∀ l ∈ value.letters, l.code < 0x10000)
    (objects : ∀ value name, ¬tree.Occurs (.property (.number value) name)) :
    ∃ (body : List Node) (text : String) (tokens : List Token),
      tree = .program body ∧ ofStatements body = .ok text ∧ Token.scan text = .ok tokens ∧
      (∀ limit, 3 * tokens.length ≤ limit →
        Reading.program Node.literal limit (swapUpdates tokens) = .ok tree.scripted) ∧
      (Node.ofTokens (swapUpdates tokens) = .ok tree.scripted ∨
        Node.ofTokens (swapUpdates tokens) = .error .nestedTooDeeply) := by
  obtain ⟨body, rfl, proper⟩ := Node.proper_of_ofSource parsed
  have lines : ∀ s ∈ body, HasLines false s := by
    intro s member
    exact (hasLines_of_proper plane objects (proper s member) (Tree.Occurs.whole.part member)).1
  obtain ⟨_, written, reads⟩ := reads_ofStatements (hasBody_of_each lines)
  obtain ⟨text, tokens, rfl, scanned, derived⟩ := reads.tokens
  -- What the grammar derives is what is read, by its completeness.
  have program : Program (swapUpdates tokens) (Node.scripted (.program body)) := .statements derived
  refine ⟨body, text, tokens, rfl, written, scanned, fun limit deep => ?_, ?_⟩
  · exact Reading.program_read program (by rwa [length_swapUpdates])
  · exact Reading.ofTokens_of_program program

/-- An update, and printing with parentheses that are needed. -/
theorem script_reads_back_update :
    let _ : CharacterNames := .none
    let right : Node := .binary "-" (.identifier "b") (.identifier "a")
    let print : Node := .call (.identifier "yapping") [.binary "-" (.text "é") right]
    let tree : Node := .program [.statement (.update "--" "a"), .statement print]
    Node.ofSource "a--; yapping('é' - (b - a));" = .ok tree ∧
      ∃ (body : List Node) (text : String) (tokens : List Token),
        tree = .program body ∧ ofStatements body = .ok text ∧ Token.scan text = .ok tokens ∧
        ∀ limit, 3 * tokens.length ≤ limit →
          Reading.program Node.literal limit (swapUpdates tokens) = .ok tree.scripted := by
  intro names right print tree
  have parsed : Node.ofSource "a--; yapping('é' - (b - a));" = .ok tree := by
    rw [Node.ofSource, Token.scan]
    simp only [String.reduceToList]
    rfl
  let among : List Node :=
    [ tree, .statement (.update "--" "a"), .update "--" "a", .statement print, print,
      .identifier "yapping", .binary "-" (.text "é") right, .text "é", right, .identifier "b",
      .identifier "a" ]
  have inside : ∀ inner, tree.Occurs inner → inner ∈ among := by
    intro inner occurs
    induction occurs with
    | whole => simp [among]
    | part _ member ih =>
      -- the list has the parts of all the trees in it
      have closed : ∀ outer ∈ among, ∀ part ∈ outer.parts, part ∈ among := by
        simp [among, tree, print, right, Tree.parts]
      exact closed _ ih _ member
  have plane : ∀ value, tree.Occurs (.text value) → ∀ l ∈ value.letters, l.code < 0x10000 := by
    intro value occurs
    have same : value = "é" := by simpa [among, tree, print, right] using inside _ occurs
    have single : ("é" : Text).letters = [.char 'é'] := by decide
    simp [same, single, Letter.code]
  have objects : ∀ value name, ¬tree.Occurs (.property (.number value) name) := by
    intro value name occurs
    simpa [among, tree, print, right] using inside _ occurs
  obtain ⟨body, text, tokens, same, written, scanned, read, _⟩ :=
    script_reads_back _ tree parsed plane objects
  exact ⟨parsed, body, text, tokens, same, written, scanned, read⟩

end YapLang.Script
