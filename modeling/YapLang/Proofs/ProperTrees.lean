import YapLang.Proofs.GrammarSoundness
import YapLang.Proofs.TreeParts

/-!
# Trees of source text

A tree that comes from source text is proper: statements and expressions stand where they belong,
names are words, numbers are doubles that are not negative, operators are those of the language,
jumps are inside loops of their own function, and what follows `else` is a block or another
conditional statement. The grammar says so rule by rule, and it holds of every part of such a tree.
-/
namespace YapLang

namespace Node

open Lexeme (IsName)

/-- An expression of source text. -/
inductive ProperExpression : Node → Prop where
  | number {bits} :
      bits ≤ Double.infinityBits →
      ProperExpression (.number (.double (Double.ofMagnitudeBits false bits)))
  | text {value} : ProperExpression (.text value)
  | identifier {name} : IsName name → ProperExpression (.identifier name)
  | binary {op left right} :
      op ∈ ["==", "===", "!=", "!==", "<", ">", "<=", ">=", "+", "-", "*", "/", "%"] →
      ProperExpression left → ProperExpression right → ProperExpression (.binary op left right)
  | logical {op left right} :
      op ∈ ["||", "&&"] → ProperExpression left → ProperExpression right →
      ProperExpression (.logical op left right)
  | unary {op operand} :
      op ∈ ["!", "-", "+"] → ProperExpression operand → ProperExpression (.unary op operand)
  | assignment {name value} :
      IsName name → ProperExpression value → ProperExpression (.assignment name value)
  | update {op name} : op ∈ ["++", "--"] → IsName name → ProperExpression (.update op name)
  | call {callee args} :
      ProperExpression callee → (∀ arg ∈ args, ProperExpression arg) →
      ProperExpression (.call callee args)
  | property {object name} :
      ProperExpression object → IsName name → ProperExpression (.property object name)
  | index {object key} :
      ProperExpression object → ProperExpression key → ProperExpression (.index object key)
  | array {elements} :
      (∀ element ∈ elements, ProperExpression element) → ProperExpression (.array elements)

/-- What may follow `else`. -/
def IsAlternative : Node → Prop
  | .block _ | .conditional .. => True
  | _ => False

/-- A statement of source text; jumps are inside a loop only. -/
inductive ProperStatement : (inLoop : Bool) → Node → Prop where
  | statement {inLoop expr} : ProperExpression expr → ProperStatement inLoop (.statement expr)
  | declaration {inLoop name init} :
      IsName name → (∀ e ∈ init, ProperExpression e) →
      ProperStatement inLoop (.declaration name init)
  | function {inLoop} {name : String} {params : List String} {body} :
      IsName name → (∀ param ∈ params, IsName param) → (∀ s ∈ body, ProperStatement false s) →
      ProperStatement inLoop (.function name (params.map .whole) body)
  | block {inLoop body} :
      (∀ s ∈ body, ProperStatement inLoop s) → ProperStatement inLoop (.block body)
  | conditional {inLoop test consequent alternate} :
      ProperExpression test → (∀ s ∈ consequent, ProperStatement inLoop s) →
      (∀ s ∈ alternate, ProperStatement inLoop s) → (∀ s ∈ alternate, IsAlternative s) →
      ProperStatement inLoop (.conditional test consequent alternate)
  | forLoop {inLoop init test update body} :
      (∀ e ∈ init, ProperExpression e ∨ ∃ (name : String) (value : _), e = .declaration name value ∧
        IsName name ∧ ∀ v ∈ value, ProperExpression v) →
      (∀ e ∈ test, ProperExpression e) → (∀ e ∈ update, ProperExpression e) →
      (∀ s ∈ body, ProperStatement true s) →
      ProperStatement inLoop (.forLoop init test update body)
  | whileLoop {inLoop test body} :
      ProperExpression test → (∀ s ∈ body, ProperStatement true s) →
      ProperStatement inLoop (.whileLoop test body)
  | returning {inLoop argument} :
      (∀ e ∈ argument, ProperExpression e) → ProperStatement inLoop (.returning argument)
  | breakJump : ProperStatement true .breakJump
  | continueJump : ProperStatement true .continueJump

end Node

/-! ### What the grammar derives is proper -/

namespace Grammar

open Node

theorem proper_join {level : Precedence} {op : String} {left right : Node}
    (isOperator : op ∈ level.operators) (first : ProperExpression left)
    (second : ProperExpression right) : ProperExpression (level.join op left right) := by
  cases level
  case disjunction | conjunction =>
    refine .logical ?_ first second
    simp only [Precedence.operators, List.mem_singleton] at isOperator
    simp [isOperator]
  all_goals
    refine .binary ?_ first second
    simp only [Precedence.operators, List.mem_cons, List.not_mem_nil, or_false] at isOperator
    rcases isOperator with rfl | rfl | rfl | rfl <;> simp

theorem Name.isName {name : Text} {t : Token} (spells : Name name t) (lexical : t.Lexical) :
    ∃ s : String, name = s ∧ Lexeme.IsName s :=
  ⟨t.text, spells.2.symm, lexical.isName spells.1⟩

theorem isName_of_proper {name : Text} (proper : ProperExpression (.identifier name)) :
    ∃ s : String, name = s ∧ Lexeme.IsName s := by
  cases proper with
  | identifier isName => exact ⟨_, rfl, isName⟩

theorem ParametersFrom.proper {ts : List Token} {params : List Text}
    (derived : ParametersFrom ts params) (lexical : ∀ t ∈ ts, t.Lexical) :
    ∃ names : List String, params = names.map .whole ∧ ∀ name ∈ names, Lexeme.IsName name := by
  induction derived with
  | last spells =>
    obtain ⟨name, rfl, isName⟩ := spells.isName (lexical _ List.mem_cons_self)
    exact ⟨[name], rfl, by simpa using isName⟩
  | more spells _ _ ih =>
    simp only [List.forall_mem_cons] at lexical
    obtain ⟨name, rfl, isName⟩ := spells.isName lexical.1
    obtain ⟨names, rfl, areNames⟩ := ih lexical.2.2
    exact ⟨name :: names, rfl, by simpa using ⟨isName, areNames⟩⟩

theorem Parameters.proper {ts : List Token} {params : List Text} (derived : Parameters ts params)
    (lexical : ∀ t ∈ ts, t.Lexical) :
    ∃ names : List String, params = names.map .whole ∧ ∀ name ∈ names, Lexeme.IsName name := by
  cases derived with
  | none => exact ⟨[], rfl, by simp⟩
  | some derived => exact derived.proper lexical

variable [CharacterNames]

/-! The tokens of a phrase are those of its parts, so each part of a phrase of lexical tokens is one
again. -/

mutual

theorem Expression.proper {p : Phrase} {ts : List Token} {e : Node} :
    Expression p ts e → (∀ t ∈ ts, t.Lexical) → ProperExpression e
  | .operation inner, lexical | .operand inner, lexical | .unsigned inner, lexical
  | .unchanged inner, lexical | .unmarked inner, lexical | .primary inner, lexical =>
    inner.proper lexical
  | .marked _ inner, lexical => inner.proper (List.forall_mem_cons.1 lexical).2
  | .parentheses _ inner _, lexical => by
    simp only [List.forall_mem_cons, List.forall_mem_append] at lexical
    exact inner.proper lexical.2.1
  -- the target is read as an expression, and proves to be a name
  | .assignment target _ value, lexical => by
    simp only [List.forall_mem_cons, List.forall_mem_append] at lexical
    obtain ⟨_, rfl, isName⟩ := isName_of_proper (target.proper lexical.1)
    exact .assignment isName (value.proper lexical.2.2)
  | .operator first _ isOperator second, lexical => by
    simp only [List.forall_mem_cons, List.forall_mem_append] at lexical
    exact proper_join isOperator (first.proper lexical.1) (second.proper lexical.2.2)
  | .signed _ isOperator inner, lexical =>
    .unary isOperator (inner.proper (List.forall_mem_cons.1 lexical).2)
  | .update target _ isOperator, lexical => by
    obtain ⟨_, rfl, isName⟩ :=
      isName_of_proper (target.proper (List.forall_mem_append.1 lexical).1)
    exact .update isOperator isName
  | .call first _ items _, lexical => by
    simp only [List.forall_mem_cons, List.forall_mem_append] at lexical
    exact .call (first.proper lexical.1) (items.proper lexical.2.2.1)
  | .property first _ spells, lexical => by
    simp only [List.forall_mem_cons, List.forall_mem_append] at lexical
    obtain ⟨_, rfl, isName⟩ := spells.isName lexical.2.2.1
    exact .property (first.proper lexical.1) isName
  | .index first _ key _, lexical => by
    simp only [List.forall_mem_cons, List.forall_mem_append] at lexical
    exact .index (first.proper lexical.1) (key.proper lexical.2.2.1)
  | .number kind value, lexical => by
    obtain ⟨bits, number, rfl⟩ := (lexical _ List.mem_cons_self).exists_bits kind value
    exact .number number
  | .text _ _, _ => .text
  | .name spells, lexical => by
    obtain ⟨_, rfl, isName⟩ := spells.isName (lexical _ List.mem_cons_self)
    exact .identifier isName
  | .array _ items _, lexical => by
    simp only [List.forall_mem_cons, List.forall_mem_append] at lexical
    exact .array (items.proper lexical.2.1)

theorem Items.proper {ts : List Token} {es : List Node} :
    Items ts es → (∀ t ∈ ts, t.Lexical) → ∀ e ∈ es, ProperExpression e
  | .none, _ => by simp
  | .some items, lexical => items.proper lexical

theorem ItemsFrom.proper {ts : List Token} {es : List Node} :
    ItemsFrom ts es → (∀ t ∈ ts, t.Lexical) → ∀ e ∈ es, ProperExpression e
  | .last inner, lexical => by simpa using inner.proper lexical
  | .more first _ others, lexical => by
    simp only [List.forall_mem_cons, List.forall_mem_append] at lexical
    have rest := others.proper lexical.2.2
    simpa using ⟨first.proper lexical.1, rest⟩

end

theorem Optional.proper {ts : List Token} {e : Option Node} (derived : Optional ts e)
    (lexical : ∀ t ∈ ts, t.Lexical) : ∀ inner ∈ e, ProperExpression inner := by
  cases derived with
  | absent => simp
  | present inner => simpa using inner.proper lexical

theorem Declaration.proper {ts : List Token} {node : Node} (derived : Declaration ts node)
    (lexical : ∀ t ∈ ts, t.Lexical) :
    ∃ (name : String) (value : _), node = .declaration name value ∧ Lexeme.IsName name ∧
      ∀ v ∈ value, ProperExpression v := by
  cases derived with
  | plain _ spells =>
    simp only [List.forall_mem_cons] at lexical
    obtain ⟨_, rfl, isName⟩ := spells.isName lexical.2.1
    exact ⟨_, none, rfl, isName, by simp⟩
  | initialized _ spells _ init =>
    simp only [List.forall_mem_cons] at lexical
    obtain ⟨_, rfl, isName⟩ := spells.isName lexical.2.1
    exact ⟨_, some _, rfl, isName, by simpa using init.proper lexical.2.2.2⟩

theorem Initial.proper {ts : List Token} {init : Option Node} (derived : Initial ts init)
    (lexical : ∀ t ∈ ts, t.Lexical) :
    ∀ e ∈ init, ProperExpression e ∨ ∃ (name : String) (value : _), e = .declaration name value ∧
      Lexeme.IsName name ∧ ∀ v ∈ value, ProperExpression v := by
  cases derived with
  | declaration declared =>
    rintro _ ⟨⟩
    exact .inr (declared.proper lexical)
  | optional derived => exact fun e member => .inl (derived.proper lexical e member)

mutual

theorem Statement.proper {inLoop : Bool} {ts : List Token} {node : Node} :
    Statement inLoop ts node → (∀ t ∈ ts, t.Lexical) → ProperStatement inLoop node
  | .function _ spells _ params _ body, lexical => by
    simp only [List.forall_mem_cons, List.forall_mem_append] at lexical
    obtain ⟨_, rfl, isName⟩ := spells.isName lexical.2.1
    obtain ⟨_, rfl, areNames⟩ := params.proper lexical.2.2.2.1
    exact .function isName areNames (body.proper lexical.2.2.2.2.2)
  | .declaration declared _, lexical => by
    obtain ⟨name, value, rfl, isName, proper⟩ :=
      declared.proper (List.forall_mem_append.1 lexical).1
    exact .declaration isName proper
  | .conditional inner, lexical => (inner.proper lexical).1
  -- the body of a loop is proper inside a loop, wherever the loop stands
  | .forLoop _ _ started _ tested _ updates _ body, lexical => by
    simp only [List.forall_mem_cons, List.forall_mem_append] at lexical
    obtain ⟨_, _, inStart, _, inTest, _, inUpdate, _, inBody⟩ := lexical
    exact .forLoop (started.proper inStart) (tested.proper inTest) (updates.proper inUpdate)
      (body.proper inBody)
  | .whileLoop _ _ tested _ body, lexical => by
    simp only [List.forall_mem_cons, List.forall_mem_append] at lexical
    exact .whileLoop (tested.proper lexical.2.2.1) (body.proper lexical.2.2.2.2)
  | .returning _ argument _, lexical => by
    simp only [List.forall_mem_cons, List.forall_mem_append] at lexical
    exact .returning (argument.proper lexical.2.1)
  | .breakJump _ _, _ => .breakJump
  | .continueJump _ _, _ => .continueJump
  | .block body, lexical => .block (body.proper lexical)
  | .expression inner _, lexical =>
    .statement (inner.proper (List.forall_mem_append.1 lexical).1)

theorem Conditional.proper {inLoop : Bool} {ts : List Token} {node : Node} :
    Conditional inLoop ts node → (∀ t ∈ ts, t.Lexical) →
      ProperStatement inLoop node ∧ IsAlternative node
  | .alone _ _ tested _ body, lexical => by
    simp only [List.forall_mem_cons, List.forall_mem_append] at lexical
    obtain ⟨_, _, inTest, _, inBody⟩ := lexical
    exact ⟨.conditional (tested.proper inTest) (body.proper inBody) (by simp) (by simp), trivial⟩
  | .elseBlock _ _ tested _ body _ alternate, lexical => by
    simp only [List.forall_mem_cons, List.forall_mem_append] at lexical
    obtain ⟨_, _, inTest, _, inBody, _, inAlternate⟩ := lexical
    have second := alternate.proper inAlternate
    refine ⟨.conditional (tested.proper inTest) (body.proper inBody) ?_ ?_, trivial⟩
    · rintro _ ⟨⟩
      exact .block second
    · rintro _ ⟨⟩
      trivial
  | .elseIf _ _ tested _ body _ alternate, lexical => by
    simp only [List.forall_mem_cons, List.forall_mem_append] at lexical
    obtain ⟨_, _, inTest, _, inBody, _, inAlternate⟩ := lexical
    have second := alternate.proper inAlternate
    refine ⟨.conditional (tested.proper inTest) (body.proper inBody) ?_ ?_, trivial⟩
    · rintro _ ⟨⟩
      exact second.1
    · rintro _ ⟨⟩
      exact second.2

theorem Block.proper {inLoop : Bool} {ts : List Token} {body : List Node} :
    Block inLoop ts body → (∀ t ∈ ts, t.Lexical) → ∀ s ∈ body, ProperStatement inLoop s
  | .braces _ inner _, lexical => by
    simp only [List.forall_mem_cons, List.forall_mem_append] at lexical
    exact inner.proper lexical.2.1

theorem Statements.proper {inLoop : Bool} {ts : List Token} {body : List Node} :
    Statements inLoop ts body → (∀ t ∈ ts, t.Lexical) → ∀ s ∈ body, ProperStatement inLoop s
  | .done, _ => by simp
  | .separator _ inner, lexical => inner.proper (List.forall_mem_cons.1 lexical).2
  | .next first others, lexical => by
    rw [List.forall_mem_append] at lexical
    have rest := others.proper lexical.2
    simpa using ⟨first.proper lexical.1, rest⟩

end

end Grammar

/-! ### Trees of source text are proper -/

namespace Node

theorem program_of_ofSource [CharacterNames] {source : String} {tree : Node}
    (parsed : ofSource source = .ok tree) :
    ∃ tokens, (∀ t ∈ tokens, t.Lexical) ∧ Grammar.Program tokens tree := by
  unfold ofSource at parsed
  cases scanned : Token.scan source with
  | error e =>
    rw [scanned] at parsed
    cases parsed
  | ok tokens =>
    rw [scanned] at parsed
    have lexical := Token.lexical_of_scan scanned
    exact ⟨tokens, lexical, Reading.program_of_ofTokens lexical parsed⟩

theorem proper_of_ofSource [CharacterNames] {source : String} {tree : Node}
    (parsed : ofSource source = .ok tree) :
    ∃ body, tree = .program body ∧ ∀ s ∈ body, ProperStatement false s := by
  obtain ⟨tokens, lexical, derived⟩ := program_of_ofSource parsed
  cases derived with
  | statements derived => exact ⟨_, rfl, derived.proper lexical⟩

theorem ProperExpression.parts {e part : Node} (proper : ProperExpression e)
    (member : part ∈ e.parts) : ProperExpression part := by
  cases proper with
  | number | text | identifier | update => simp [Tree.parts] at member
  | binary _ first second | logical _ first second | index first second =>
    simp only [Tree.parts, List.mem_cons, List.not_mem_nil, or_false] at member
    rcases member with rfl | rfl
    · exact first
    · exact second
  | unary _ inner | assignment _ inner | property inner =>
    simp only [Tree.parts, List.mem_singleton] at member
    rw [member]
    exact inner
  | call callee args =>
    rcases List.mem_cons.1 member with rfl | member
    · exact callee
    · exact args _ member
  | array elements => exact elements _ member

theorem ProperStatement.parts {inLoop : Bool} {s part : Node} (proper : ProperStatement inLoop s)
    (member : part ∈ s.parts) : ProperExpression part ∨ ∃ b, ProperStatement b part := by
  cases proper with
  | statement inner =>
    rw [List.mem_singleton.1 member]
    exact .inl inner
  | declaration _ inner | returning inner =>
    exact .inl (inner part (Option.mem_toList.1 member))
  | function _ _ body | block body => exact .inr ⟨_, body part member⟩
  | conditional test consequent alternate =>
    rcases List.mem_cons.1 member with rfl | member
    · exact .inl test
    · rcases List.mem_append.1 member with member | member
      · exact .inr ⟨_, consequent part member⟩
      · exact .inr ⟨_, alternate part (Option.mem_toList.1 member)⟩
  | forLoop init test update body =>
    rcases List.mem_append.1 member with member | member
    · rcases List.mem_append.1 member with member | member
      · rcases List.mem_append.1 member with member | member
        · rcases init part (Option.mem_toList.1 member) with
            inner | ⟨name, value, rfl, isName, inner⟩
          · exact .inl inner
          -- a declaration in the header of a loop would be a statement on its own
          · exact .inr ⟨inLoop, .declaration isName inner⟩
        · exact .inl (test part (Option.mem_toList.1 member))
      · exact .inl (update part (Option.mem_toList.1 member))
    · exact .inr ⟨_, body part member⟩
  | whileLoop test body =>
    rcases List.mem_cons.1 member with rfl | member
    · exact .inl test
    · exact .inr ⟨_, body part member⟩
  | breakJump | continueJump => cases member

/-- Whatever occurs in a tree of source text, apart from the whole tree, is an expression or a
statement. -/
theorem proper_of_occurs [CharacterNames] {source : String} {tree node : Node}
    (parsed : ofSource source = .ok tree) (occurs : tree.Occurs node) :
    node = tree ∨ ProperExpression node ∨ ∃ inLoop, ProperStatement inLoop node := by
  obtain ⟨body, rfl, statements⟩ := proper_of_ofSource parsed
  -- along the path from the whole tree: the parts of what is proper are proper
  induction occurs with
  | whole => exact .inl rfl
  | part _ member ih =>
    rcases ih with rfl | expression | ⟨inLoop, statement⟩
    · exact .inr (.inr ⟨false, statements _ member⟩)
    · exact .inr (.inl (expression.parts member))
    · exact .inr (statement.parts member)

end Node

end YapLang
