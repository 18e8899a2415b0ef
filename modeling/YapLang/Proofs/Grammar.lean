import YapLang.Tree.Reading

/-!
# The grammar of programs

Which token lists are programs, and which trees they stand for, said without an algorithm. Each kind
of phrase is a relation between the tokens of a phrase and its tree; a phrase is put together from
smaller ones by concatenation. Nothing here looks ahead or depends on what follows a phrase.

Operators with two operands come in six levels. A phrase of a level is an operand of the next
tighter level, or a phrase of the same level, an operator and such an operand: so all of them group
to the left. Assignment groups to the right.
-/
namespace YapLang.Grammar

variable [CharacterNames]

/-! ### Tokens -/

/-- A punctuation mark of the given text. -/
def Mark (text : String) (t : Token) : Prop :=
  t.kind = .punctuation ∧ t.text = text

/-- A keyword of the given text. -/
def Keyword (text : String) (t : Token) : Prop :=
  t.kind = .keyword ∧ t.text = text

/-- An identifier that spells the given name. -/
def Name (name : Text) (t : Token) : Prop :=
  t.kind = .identifier ∧ (t.text : Text) = name

/-! ### Levels of operators -/

/-- The levels of operators with two operands, loosest first. -/
inductive Precedence where
  | disjunction
  | conjunction
  | equality
  | comparison
  | sum
  | product
  deriving DecidableEq, Repr

namespace Precedence

def all : List Precedence :=
  [disjunction, conjunction, equality, comparison, sum, product]

/-- The operators of a level. -/
def operators : Precedence → List String
  | disjunction => ["||"]
  | conjunction => ["&&"]
  | equality => ["==", "===", "!=", "!=="]
  | comparison => ["<", ">", "<=", ">="]
  | sum => ["+", "-"]
  | product => ["*", "/", "%"]

/-- The tree of two operands joined by an operator. The two loosest levels decide by their left
operand whether the right one counts, and have a form of their own. -/
def join : Precedence → String → Node → Node → Node
  | disjunction, op, left, right => .logical op left right
  | conjunction, op, left, right => .logical op left right
  | _, op, left, right => .binary op left right

end Precedence

/-- The kinds of phrases that expressions are made of, loosest first. -/
inductive Phrase where
  /-- Any expression. -/
  | expression
  /-- Operands of a level, with operators of that level between them. -/
  | operation (level : Precedence)
  /-- An operand with signs and negations in front of it. -/
  | signed
  /-- An operand that may be followed by an update. -/
  | updated
  /-- A chain that may follow call markers. -/
  | marked
  /-- A primary phrase with calls, properties and indices after it. -/
  | chain
  /-- What needs no parentheses anywhere. -/
  | primary
  deriving DecidableEq, Repr

/-- The kind of phrase that the operands of a level are. -/
def Precedence.operand : Precedence → Phrase
  | disjunction => .operation conjunction
  | conjunction => .operation equality
  | equality => .operation comparison
  | comparison => .operation sum
  | sum => .operation product
  | product => .signed

/-! ### Expressions -/

mutual

/-- The tokens are a phrase of an expression with the given tree. -/
inductive Expression : Phrase → List Token → Node → Prop where
  | operation {ts e} :
      Expression (.operation .disjunction) ts e → Expression .expression ts e
  | assignment {ts us t name value} :
      Expression (.operation .disjunction) ts (.identifier name) → Mark "=" t →
      Expression .expression us value →
      Expression .expression (ts ++ t :: us) (.assignment name value)
  | operand {level ts e} :
      Expression level.operand ts e → Expression (.operation level) ts e
  | operator {level ts us t op left right} :
      Expression (.operation level) ts left → Mark op t → op ∈ level.operators →
      Expression level.operand us right →
      Expression (.operation level) (ts ++ t :: us) (level.join op left right)
  | unsigned {ts e} :
      Expression .updated ts e → Expression .signed ts e
  | signed {ts t op e} :
      Mark op t → op ∈ ["!", "-", "+"] → Expression .signed ts e →
      Expression .signed (t :: ts) (.unary op e)
  | unchanged {ts e} :
      Expression .marked ts e → Expression .updated ts e
  | update {ts t op name} :
      Expression .marked ts (.identifier name) → Mark op t → op ∈ ["++", "--"] →
      Expression .updated (ts ++ [t]) (.update op name)
  | unmarked {ts e} :
      Expression .chain ts e → Expression .marked ts e
  | marked {ts t callee args} :
      Keyword Lexeme.callKeyword t → Expression .marked ts (.call callee args) →
      Expression .marked (t :: ts) (.call callee args)
  | primary {ts e} :
      Expression .primary ts e → Expression .chain ts e
  | call {ts us opening closing callee args} :
      Expression .chain ts callee → Mark "(" opening → Items us args → Mark ")" closing →
      Expression .chain (ts ++ opening :: (us ++ [closing])) (.call callee args)
  | property {ts dot t object name} :
      Expression .chain ts object → Mark "." dot → Name name t →
      Expression .chain (ts ++ [dot, t]) (.property object name)
  | index {ts us opening closing object key} :
      Expression .chain ts object → Mark "[" opening → Expression .expression us key →
      Mark "]" closing →
      Expression .chain (ts ++ opening :: (us ++ [closing])) (.index object key)
  | number {t x} :
      t.kind = .number → Text.tokenNumber? t.text = some x →
      Expression .primary [t] (.number (.double x))
  | text {t value} :
      t.kind = .string → Text.literalValue? t.text = some value →
      Expression .primary [t] (.text value)
  | name {t name} :
      Name name t → Expression .primary [t] (.identifier name)
  | parentheses {ts opening closing e} :
      Mark "(" opening → Expression .expression ts e → Mark ")" closing →
      Expression .primary (opening :: (ts ++ [closing])) e
  | array {ts opening closing elements} :
      Mark "[" opening → Items ts elements → Mark "]" closing →
      Expression .primary (opening :: (ts ++ [closing])) (.array elements)

/-- Expressions with commas between them, or none at all. -/
inductive Items : List Token → List Node → Prop where
  | none : Items [] []
  | some {ts es} : ItemsFrom ts es → Items ts es

/-- At least one expression, with commas between them. -/
inductive ItemsFrom : List Token → List Node → Prop where
  | last {ts e} : Expression .expression ts e → ItemsFrom ts [e]
  | more {ts us t e es} :
      Expression .expression ts e → Mark "," t → ItemsFrom us es →
      ItemsFrom (ts ++ t :: us) (e :: es)

end

/-- An expression that may be left out. -/
inductive Optional : List Token → Option Node → Prop where
  | absent : Optional [] none
  | present {ts e} : Expression .expression ts e → Optional ts (some e)

/-! ### Statements -/

/-- At least one name of a parameter, with commas between them. -/
inductive ParametersFrom : List Token → List Text → Prop where
  | last {t name} : Name name t → ParametersFrom [t] [name]
  | more {ts t comma name names} :
      Name name t → Mark "," comma → ParametersFrom ts names →
      ParametersFrom (t :: comma :: ts) (name :: names)

/-- The names of parameters, or none at all. -/
inductive Parameters : List Token → List Text → Prop where
  | none : Parameters [] []
  | some {ts names} : ParametersFrom ts names → Parameters ts names

/-- The declaration of a variable, without the mark that ends it. -/
inductive Declaration : List Token → Node → Prop where
  | plain {keyword t name} :
      Keyword "let" keyword → Name name t → Declaration [keyword, t] (.declaration name none)
  | initialized {ts keyword t equals name init} :
      Keyword "let" keyword → Name name t → Mark "=" equals → Expression .expression ts init →
      Declaration (keyword :: t :: equals :: ts) (.declaration name (some init))

/-- What a counting loop starts with. -/
inductive Initial : List Token → Option Node → Prop where
  | declaration {ts node} : Declaration ts node → Initial ts (some node)
  | optional {ts init} : Optional ts init → Initial ts init

mutual

/-- The tokens are a statement with the given tree. Jumps are statements inside a loop only; a
function is outside of the loops around it. -/
inductive Statement : (inLoop : Bool) → List Token → Node → Prop where
  | function {inLoop ts us keyword t opening closing name params body} :
      Keyword "function" keyword → Name name t → Mark "(" opening → Parameters ts params →
      Mark ")" closing → Block false us body →
      Statement inLoop (keyword :: t :: opening :: (ts ++ closing :: us))
        (.function name params body)
  | declaration {inLoop ts t node} :
      Declaration ts node → Mark ";" t → Statement inLoop (ts ++ [t]) node
  | conditional {inLoop ts node} :
      Conditional inLoop ts node → Statement inLoop ts node
  | forLoop {inLoop ts us vs ws keyword opening first second closing init test update body} :
      Keyword "for" keyword → Mark "(" opening → Initial ts init → Mark ";" first →
      Optional us test → Mark ";" second → Optional vs update → Mark ")" closing →
      Block true ws body →
      Statement inLoop
        (keyword :: opening :: (ts ++ first :: (us ++ second :: (vs ++ closing :: ws))))
        (.forLoop init test update body)
  | whileLoop {inLoop ts us keyword opening closing test body} :
      Keyword "while" keyword → Mark "(" opening → Expression .expression ts test →
      Mark ")" closing → Block true us body →
      Statement inLoop (keyword :: opening :: (ts ++ closing :: us)) (.whileLoop test body)
  | returning {inLoop ts keyword t argument} :
      Keyword "return" keyword → Optional ts argument → Mark ";" t →
      Statement inLoop (keyword :: (ts ++ [t])) (.returning argument)
  | breakJump {keyword t} :
      Keyword "break" keyword → Mark ";" t → Statement true [keyword, t] .breakJump
  | continueJump {keyword t} :
      Keyword "continue" keyword → Mark ";" t → Statement true [keyword, t] .continueJump
  | block {inLoop ts body} :
      Block inLoop ts body → Statement inLoop ts (.block body)
  | expression {inLoop ts t e} :
      Expression .expression ts e → Mark ";" t → Statement inLoop (ts ++ [t]) (.statement e)

/-- A conditional statement. After `else` comes a block or another conditional statement. -/
inductive Conditional : (inLoop : Bool) → List Token → Node → Prop where
  | alone {inLoop ts us keyword opening closing test body} :
      Keyword "if" keyword → Mark "(" opening → Expression .expression ts test →
      Mark ")" closing → Block inLoop us body →
      Conditional inLoop (keyword :: opening :: (ts ++ closing :: us))
        (.conditional test body none)
  | elseBlock {inLoop ts us vs keyword opening closing otherwise test body alternate} :
      Keyword "if" keyword → Mark "(" opening → Expression .expression ts test →
      Mark ")" closing → Block inLoop us body → Keyword "else" otherwise →
      Block inLoop vs alternate →
      Conditional inLoop (keyword :: opening :: (ts ++ closing :: (us ++ otherwise :: vs)))
        (.conditional test body (some (.block alternate)))
  | elseIf {inLoop ts us vs keyword opening closing otherwise test body alternate} :
      Keyword "if" keyword → Mark "(" opening → Expression .expression ts test →
      Mark ")" closing → Block inLoop us body → Keyword "else" otherwise →
      Conditional inLoop vs alternate →
      Conditional inLoop (keyword :: opening :: (ts ++ closing :: (us ++ otherwise :: vs)))
        (.conditional test body (some alternate))

/-- Statements in braces. -/
inductive Block : (inLoop : Bool) → List Token → List Node → Prop where
  | braces {inLoop ts opening closing body} :
      Mark "\x7b" opening → Statements inLoop ts body → Mark "\x7d" closing →
      Block inLoop (opening :: (ts ++ [closing])) body

/-- Statements one after another, with any number of semicolons between them. -/
inductive Statements : (inLoop : Bool) → List Token → List Node → Prop where
  | done {inLoop} : Statements inLoop [] []
  | separator {inLoop ts t body} :
      Mark ";" t → Statements inLoop ts body → Statements inLoop (t :: ts) body
  | next {inLoop ts us node body} :
      Statement inLoop ts node → Statements inLoop us body →
      Statements inLoop (ts ++ us) (node :: body)

end

/-- The tokens are a program with the given tree. -/
inductive Program : List Token → Node → Prop where
  | statements {ts body} : Statements false ts body → Program ts (.program body)

/-! ### How phrases begin -/

/-- A token that a chain can begin with. -/
def OpensChain (t : Token) : Prop :=
  t.kind = .number ∨ t.kind = .string ∨ t.kind = .identifier ∨ Mark "(" t ∨ Mark "[" t

omit [CharacterNames] in
theorem OpensChain.text_mem {t : Token} (opens : OpensChain t)
    (kind : t.kind = .punctuation ∨ t.kind = .keyword) :
    t.kind = .punctuation ∧ t.text ∈ ["(", "["] := by
  rcases opens with other | other | other | mark | mark
  · simp [other] at kind
  · simp [other] at kind
  · simp [other] at kind
  · simp [mark.1, mark.2]
  · simp [mark.1, mark.2]

/-- The tokens that a phrase of an expression can begin with. -/
def Phrase.Opens : Phrase → Token → Prop
  | .primary, t | .chain, t => OpensChain t
  | .marked, t | .updated, t => OpensChain t ∨ Keyword Lexeme.callKeyword t
  | _, t => (OpensChain t ∨ Keyword Lexeme.callKeyword t) ∨ ∃ op ∈ ["!", "-", "+"], Mark op t

omit [CharacterNames] in
theorem Precedence.opens_operand {level : Precedence} {t : Token} (opens : level.operand.Opens t) :
    (Phrase.operation level).Opens t := by
  cases level <;> exact opens

theorem Expression.opens {p : Phrase} {ts : List Token} {e : Node} :
    Expression p ts e → ∃ t us, ts = t :: us ∧ p.Opens t
  | .operation inner | .unchanged inner | .primary inner => inner.opens
  | .operand inner => by
    obtain ⟨t, us, rfl, opens⟩ := inner.opens
    exact ⟨t, us, rfl, Precedence.opens_operand opens⟩
  | .unsigned inner | .unmarked inner => by
    obtain ⟨t, us, rfl, opens⟩ := inner.opens
    exact ⟨t, us, rfl, .inl opens⟩
  | .assignment first _ _ | .operator first _ _ _ | .update first _ _ | .call first _ _ _
  | .property first _ _ | .index first _ _ _ => by
    obtain ⟨t, us, rfl, opens⟩ := first.opens
    exact ⟨t, _, rfl, opens⟩
  | .signed mark isOperator _ => ⟨_, _, rfl, .inr ⟨_, isOperator, mark⟩⟩
  | .marked marker _ => ⟨_, _, rfl, .inr marker⟩
  | .number kind _ => ⟨_, _, rfl, .inl kind⟩
  | .text kind _ => ⟨_, _, rfl, .inr (.inl kind)⟩
  | .name isName => ⟨_, _, rfl, .inr (.inr (.inl isName.1))⟩
  | .parentheses opening _ _ => ⟨_, _, rfl, .inr (.inr (.inr (.inl opening)))⟩
  | .array opening _ _ => ⟨_, _, rfl, .inr (.inr (.inr (.inr opening)))⟩

theorem ItemsFrom.opens {ts : List Token} {es : List Node} (items : ItemsFrom ts es) :
    ∃ t us, ts = t :: us ∧ Phrase.expression.Opens t := by
  cases items with
  | last first => exact first.opens
  | more first =>
    obtain ⟨t, us, rfl, opens⟩ := first.opens
    exact ⟨t, _, rfl, opens⟩

theorem Expression.length_pos {p : Phrase} {ts : List Token} {e : Node}
    (derived : Expression p ts e) : 0 < ts.length := by
  obtain ⟨t, us, rfl, _⟩ := derived.opens
  simp

theorem ItemsFrom.length_pos {ts : List Token} {es : List Node} (items : ItemsFrom ts es) :
    0 < ts.length := by
  obtain ⟨t, us, rfl, _⟩ := items.opens
  simp

theorem Declaration.opens {ts : List Token} {node : Node} (declared : Declaration ts node) :
    ∃ t us, ts = t :: us ∧ Keyword "let" t := by
  cases declared with
  | plain keyword | initialized keyword => exact ⟨_, _, rfl, keyword⟩

theorem Conditional.opens {inLoop : Bool} {ts : List Token} {node : Node}
    (conditional : Conditional inLoop ts node) : ∃ t us, ts = t :: us ∧ Keyword "if" t := by
  cases conditional with
  | alone keyword | elseBlock keyword | elseIf keyword => exact ⟨_, _, rfl, keyword⟩

theorem Block.opens {inLoop : Bool} {ts : List Token} {body : List Node}
    (block : Block inLoop ts body) : ∃ t us, ts = t :: us ∧ Mark "\x7b" t := by
  cases block with
  | braces opening => exact ⟨_, _, rfl, opening⟩

/-- A token that a statement can begin with. -/
def OpensStatement (t : Token) : Prop :=
  Phrase.expression.Opens t ∨
    (∃ text ∈ ["function", "let", "if", "for", "while", "return", "break", "continue"],
      Keyword text t) ∨ Mark "\x7b" t

theorem Statement.opens {inLoop : Bool} {ts : List Token} {node : Node}
    (statement : Statement inLoop ts node) : ∃ t us, ts = t :: us ∧ OpensStatement t := by
  cases statement with
  | function keyword | forLoop keyword | whileLoop keyword | returning keyword
  | breakJump keyword | continueJump keyword => exact ⟨_, _, rfl, .inr (.inl ⟨_, by simp, keyword⟩)⟩
  | declaration declared =>
    obtain ⟨t, us, rfl, keyword⟩ := declared.opens
    exact ⟨t, _, rfl, .inr (.inl ⟨_, by simp, keyword⟩)⟩
  | conditional inner =>
    obtain ⟨t, us, rfl, keyword⟩ := inner.opens
    exact ⟨t, us, rfl, .inr (.inl ⟨_, by simp, keyword⟩)⟩
  | block inner =>
    obtain ⟨t, us, rfl, opening⟩ := inner.opens
    exact ⟨t, us, rfl, .inr (.inr opening)⟩
  | expression inner =>
    obtain ⟨t, us, rfl, opens⟩ := inner.opens
    exact ⟨t, _, rfl, .inl opens⟩

end YapLang.Grammar
