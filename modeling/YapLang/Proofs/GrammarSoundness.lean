import YapLang.Proofs.Grammar
import YapLang.Proofs.ReadingSteps
import YapLang.Proofs.Scanning

/-!
# What is read belongs to the grammar

A step of reading *yields* a relation if the tokens that it takes off the front of a list and its
result are always in that relation. The rule for sequences of steps passes on what the first step
has taken, so the proof for each function that reads goes through its steps in order and ends with
the rule of the grammar that it implements. Loops need an invariant: it says which phrase the tokens
taken so far are, whatever comes next.
-/
namespace YapLang.Reading

open Grammar

variable {α β : Type}

/-- If the step succeeds on a list, the relation holds between the tokens that it takes off the
front and its result. -/
def YieldsAt (s : List Token) (x : Reading α) (P : List Token → α → Prop) : Prop :=
  ∀ ⦃a s'⦄, x s = .ok (a, s') → ∃ ts, s = ts ++ s' ∧ P ts a

/-- Whenever the step succeeds on lexical tokens, the relation holds between the tokens that it
takes off the front and its result. -/
def Yields (x : Reading α) (P : List Token → α → Prop) : Prop :=
  ∀ ⦃s⦄, (∀ t ∈ s, t.Lexical) → YieldsAt s x P

namespace Yields

theorem bind {x : Reading α} {f : α → Reading β} {P : List Token → α → Prop}
    {R : List Token → β → Prop} (first : Yields x P)
    (next : ∀ ts a, P ts a → Yields (f a) fun us b => R (ts ++ us) b) : Yields (x >>= f) R := by
  intro s lexical b s'' taken
  obtain ⟨a, s', firstTaken, nextTaken⟩ := bind_eq_ok.1 taken
  obtain ⟨ts, rfl, derived⟩ := first lexical firstTaken
  -- the tokens left over are lexical again, so the next step can be asked
  have restLexical : ∀ t ∈ s', t.Lexical := fun t member => lexical t (by simp [member])
  obtain ⟨us, rfl, result⟩ := next ts a derived restLexical nextTaken
  exact ⟨ts ++ us, by simp, result⟩

theorem pure {a : α} {P : List Token → α → Prop} (holds : P [] a) :
    Yields (Pure.pure a : Reading α) P := by
  intro s _ b s' taken
  cases taken
  exact ⟨[], rfl, holds⟩

theorem map {x : Reading α} {f : α → β} {P : List Token → α → Prop} {R : List Token → β → Prop}
    (inner : Yields x P) (next : ∀ ts a, P ts a → R ts (f a)) : Yields (f <$> x) R := by
  intro s lexical b s' taken
  obtain ⟨a, innerTaken, rfl⟩ := map_eq_ok.1 taken
  obtain ⟨ts, rfl, derived⟩ := inner lexical innerTaken
  exact ⟨ts, rfl, next ts a derived⟩

theorem mono {x : Reading α} {P Q : List Token → α → Prop} (weaker : ∀ ts a, P ts a → Q ts a)
    (yields : Yields x P) : Yields x Q := by
  intro s lexical a s' taken
  obtain ⟨ts, rfl, derived⟩ := yields lexical taken
  exact ⟨ts, rfl, weaker ts a derived⟩

/-- A step that looks at the tokens before it takes any. -/
theorem peek {f : List Token → Reading α} {P : List Token → α → Prop}
    (yields : ∀ s, (∀ t ∈ s, t.Lexical) → YieldsAt s (f s) P) : Yields (get >>= f) P :=
  fun s lexical _ _ taken => yields s lexical taken

theorem rejecting {expected : String} {P : List Token → α → Prop} :
    Yields (reject expected) P := by
  intro s _ a s' taken
  cases taken

theorem throwing {rejection : Rejection} {P : List Token → α → Prop} :
    Yields (throw rejection) P := by
  intro s _ a s' taken
  cases taken

end Yields

/-- A step that takes the first token without further question, and goes on. -/
theorem YieldsAt.skip {x : Reading α} {P : List Token → α → Prop} {t : Token} {rest : List Token}
    (yields : Yields x fun us a => P (t :: us) a) (lexical : ∀ u ∈ t :: rest, u.Lexical) :
    YieldsAt (t :: rest) (set rest >>= fun _ => x) P := by
  intro a s' taken
  obtain ⟨us, rfl, derived⟩ := yields (fun u member => lexical u (by simp [member])) taken
  exact ⟨t :: us, rfl, derived⟩

/-! ### Single tokens -/

theorem isMark_eq_true {text : String} {t : Token} :
    t.isMark text = true ↔ t.text = text ∧ (t.kind = .punctuation ∨ t.kind = .keyword) := by
  simp [Token.isMark]

theorem mark_of_isMark {text : String} {t : Token} (lexical : t.Lexical) (fits : t.isMark text)
    (noKeyword : text ∉ Token.keywordTexts) : Mark text t := by
  obtain ⟨rfl, kind | kind⟩ := isMark_eq_true.1 fits
  · exact ⟨kind, rfl⟩
  · exact absurd (lexical.text_of_keyword kind) noKeyword

theorem keyword_of_isMark {text : String} {t : Token} (lexical : t.Lexical) (fits : t.isMark text)
    (noMark : text.toList ∉ Lexeme.marks) : Keyword text t := by
  obtain ⟨rfl, kind | kind⟩ := isMark_eq_true.1 fits
  · exact absurd (lexical.text_of_punctuation kind) noMark
  · exact ⟨kind, rfl⟩

theorem mark_of_isOperator {texts : List String} {t : Token} (fits : t.isOperator texts) :
    Mark t.text t ∧ t.text ∈ texts := by
  simp only [Token.isOperator, Bool.and_eq_true, beq_iff_eq, List.contains_iff_mem] at fits
  exact ⟨⟨fits.1, rfl⟩, fits.2⟩

theorem yields_expect_mark {text : String} (noKeyword : text ∉ Token.keywordTexts) :
    Yields (expect text) fun ts _ => ∃ t, ts = [t] ∧ Mark text t := by
  intro s lexical u s' taken
  obtain ⟨t, rfl, fits⟩ := expect_eq_ok.1 taken
  exact ⟨[t], rfl, t, rfl, mark_of_isMark (lexical t (by simp)) fits noKeyword⟩

theorem yields_expect_keyword {text : String} (noMark : text.toList ∉ Lexeme.marks) :
    Yields (expect text) fun ts _ => ∃ t, ts = [t] ∧ Keyword text t := by
  intro s lexical u s' taken
  obtain ⟨t, rfl, fits⟩ := expect_eq_ok.1 taken
  exact ⟨[t], rfl, t, rfl, keyword_of_isMark (lexical t (by simp)) fits noMark⟩

theorem yields_accept_mark {text : String} (noKeyword : text ∉ Token.keywordTexts) :
    Yields (accept text) fun ts found =>
      found = true ∧ (∃ t, ts = [t] ∧ Mark text t) ∨ found = false ∧ ts = [] := by
  intro s lexical found s' taken
  cases found with
  | true =>
    obtain ⟨t, rfl, fits⟩ := accept_eq_true.1 taken
    have mark := mark_of_isMark (lexical t (by simp)) fits noKeyword
    exact ⟨[t], rfl, .inl ⟨rfl, t, rfl, mark⟩⟩
  | false =>
    obtain ⟨rfl, _⟩ := accept_eq_false.1 taken
    exact ⟨[], rfl, .inr ⟨rfl, rfl⟩⟩

theorem yields_accept_keyword {text : String} (noMark : text.toList ∉ Lexeme.marks) :
    Yields (accept text) fun ts found =>
      found = true ∧ (∃ t, ts = [t] ∧ Keyword text t) ∨ found = false ∧ ts = [] := by
  intro s lexical found s' taken
  cases found with
  | true =>
    obtain ⟨t, rfl, fits⟩ := accept_eq_true.1 taken
    have keyword := keyword_of_isMark (lexical t (by simp)) fits noMark
    exact ⟨[t], rfl, .inl ⟨rfl, t, rfl, keyword⟩⟩
  | false =>
    obtain ⟨rfl, _⟩ := accept_eq_false.1 taken
    exact ⟨[], rfl, .inr ⟨rfl, rfl⟩⟩

theorem yields_sees {text : String} : Yields (sees text) fun ts _ => ts = [] := by
  intro s _ found s' taken
  cases taken
  exact ⟨[], rfl, rfl⟩

theorem yields_operator? (texts : List String) :
    Yields (operator? texts) fun ts found =>
      (∃ t, ts = [t] ∧ found = some (t.text : Text) ∧ Mark t.text t ∧ t.text ∈ texts) ∨
        ts = [] ∧ found = none := by
  intro s lexical found s' taken
  cases found with
  | some op =>
    obtain ⟨t, rfl, fits, rfl⟩ := operator?_eq_some.1 taken
    exact ⟨[t], rfl, .inl ⟨t, rfl, rfl, mark_of_isOperator fits⟩⟩
  | none =>
    obtain ⟨rfl, _⟩ := operator?_eq_none.1 taken
    exact ⟨[], rfl, .inr ⟨rfl, rfl⟩⟩

theorem yields_get : Yields get fun ts _ => ts = [] := by
  intro s _ tokens s' taken
  cases taken
  exact ⟨[], rfl, rfl⟩

theorem yields_identifier : Yields identifier fun ts name => ∃ t, ts = [t] ∧ Name name t := by
  intro s _ name s' taken
  obtain ⟨t, rfl, kind, rfl⟩ := identifier_eq_ok.1 taken
  exact ⟨[t], rfl, t, rfl, kind, rfl⟩

/-! ### Lists -/

section

variable {item : Reading α} {P : List Token → α → Prop} (From : List Token → List α → Prop)
  (items : Yields item P) (last : ∀ ts a, P ts a → From ts [a])
  (more : ∀ ts t us a as, P ts a → Mark "," t → From us as → From (ts ++ t :: us) (a :: as))
include items last more

/-- Whatever item comes first, it makes a list with the items that are read after it. -/
theorem yields_moreItems (fuel : Nat) :
    Yields (moreItems item fuel) fun us as => ∀ ts a, P ts a → From (ts ++ us) (a :: as) := by
  induction fuel with
  | zero => exact .pure fun ts a first => by simpa using last ts a first
  | succ fuel ih =>
    refine (yields_accept_mark (by decide)).bind ?_
    rintro _ found (⟨rfl, comma, rfl, isComma⟩ | ⟨rfl, rfl⟩)
    · refine items.bind fun us b second => ih.bind fun vs bs rest => .pure ?_
      -- the item after the comma comes first for the rounds that are left
      intro ts a first
      have tail := rest us b second
      simpa using more ts comma (us ++ vs) a (b :: bs) first isComma tail
    · exact .pure fun ts a first => by simpa using last ts a first

theorem yields_itemsUntil (budget : Nat) {closing : String}
    (noKeyword : closing ∉ Token.keywordTexts) :
    Yields (itemsUntil budget item closing) fun ts as =>
      ∃ us t, ts = us ++ [t] ∧ Mark closing t ∧ (us = [] ∧ as = [] ∨ From us as) := by
  refine (yields_accept_mark noKeyword).bind ?_
  rintro _ found (⟨rfl, t, rfl, closes⟩ | ⟨rfl, rfl⟩)
  · exact .pure ⟨[], t, rfl, closes, .inl ⟨rfl, rfl⟩⟩
  · refine items.bind fun ts a first => (yields_moreItems From items last more budget).bind ?_
    intro us as rest
    refine (yields_expect_mark noKeyword).bind ?_
    rintro _ _ ⟨t, rfl, closes⟩
    exact .pure ⟨ts ++ us, t, by simp, closes, .inr (rest ts a first)⟩

end

variable [CharacterNames]

theorem yields_arguments {expression : Reading Node}
    (expressions : Yields expression (Expression .expression)) (budget : Nat) {closing : String}
    (noKeyword : closing ∉ Token.keywordTexts) :
    Yields (itemsUntil budget expression closing) fun ts as =>
      ∃ us t, ts = us ++ [t] ∧ Mark closing t ∧ Items us as := by
  refine (yields_itemsUntil ItemsFrom expressions (fun _ _ => .last) (fun _ _ _ _ _ => .more)
    budget noKeyword).mono ?_
  rintro _ as ⟨us, t, rfl, closes, ⟨rfl, rfl⟩ | items⟩
  · exact ⟨[], t, rfl, closes, .none⟩
  · exact ⟨us, t, rfl, closes, .some items⟩

omit [CharacterNames] in
theorem yields_parameters (budget : Nat) :
    Yields (itemsUntil budget identifier ")") fun ts names =>
      ∃ us t, ts = us ++ [t] ∧ Mark ")" t ∧ Parameters us names := by
  refine (yields_itemsUntil ParametersFrom yields_identifier ?_ ?_ budget (by decide)).mono ?_
  · rintro _ name ⟨t, rfl, isName⟩
    exact .last isName
  · rintro _ comma us name names ⟨t, rfl, isName⟩ isComma rest
    exact .more isName isComma rest
  · rintro _ names ⟨us, t, rfl, closes, ⟨rfl, rfl⟩ | items⟩
    · exact ⟨[], t, rfl, closes, .none⟩
    · exact ⟨us, t, rfl, closes, .some items⟩

/-! ### Operators -/

/-- The reading function's own table of a level. -/
def levelOfPrecedence : Precedence → Level Text
  | .disjunction => logicalLevel "||"
  | .conjunction => logicalLevel "&&"
  | .equality => binaryLevel ["==", "===", "!=", "!=="]
  | .comparison => binaryLevel ["<", ">", "<=", ">="]
  | .sum => binaryLevel ["+", "-"]
  | .product => binaryLevel ["*", "/", "%"]

omit [CharacterNames] in
theorem operators_eq (budget : Nat) (operand : Reading Node) :
    operators budget operand =
      levelOf budget (levelOfPrecedence .disjunction)
        (levelOf budget (levelOfPrecedence .conjunction)
          (levelOf budget (levelOfPrecedence .equality)
            (levelOf budget (levelOfPrecedence .comparison)
              (levelOf budget (levelOfPrecedence .sum)
                (levelOf budget (levelOfPrecedence .product) operand))))) := rfl

omit [CharacterNames] in
theorem mark_of_level {level : Precedence} {t : Token} {join : Node → Node → Node}
    (lexical : t.Lexical) (joins : levelOfPrecedence level t = some join) :
    Mark t.text t ∧ t.text ∈ level.operators ∧ join = level.join t.text := by
  -- the two loosest levels compare with one text, the others look it up in a list
  cases level <;> simp only [levelOfPrecedence, logicalLevel, binaryLevel] at joins <;>
    split at joins <;> cases joins
  case disjunction fits =>
    obtain ⟨kind, same⟩ := mark_of_isMark lexical fits (by decide)
    exact ⟨⟨kind, rfl⟩, by simp [same, Precedence.operators], by rw [same]; rfl⟩
  case conjunction fits =>
    obtain ⟨kind, same⟩ := mark_of_isMark lexical fits (by decide)
    exact ⟨⟨kind, rfl⟩, by simp [same, Precedence.operators], by rw [same]; rfl⟩
  all_goals
    rename_i fits
    exact ⟨(mark_of_isOperator fits).1, (mark_of_isOperator fits).2, rfl⟩

/-- Whatever phrase of the level comes first, it stays one with the operands that are read after
it. -/
theorem yields_moreOperands {level : Precedence} {operand : Reading Node}
    (operands : Yields operand (Expression level.operand)) (fuel : Nat) (left : Node) :
    Yields (moreOperands (levelOfPrecedence level) operand fuel left) fun us e =>
      ∀ ts, Expression (.operation level) ts left → Expression (.operation level) (ts ++ us) e := by
  induction fuel generalizing left with
  | zero => exact .pure fun ts first => by simpa using first
  | succ fuel ih =>
    have unchanged : Yields (Pure.pure left) fun us e => ∀ ts,
        Expression (.operation level) ts left → Expression (.operation level) (ts ++ us) e :=
      .pure fun ts first => by simpa using first
    refine .peek fun s lexical => ?_
    cases s with
    | nil => exact unchanged lexical
    | cons t rest =>
      dsimp only
      split
      · exact unchanged lexical
      next join joins =>
        obtain ⟨mark, isOperator, rfl⟩ := mark_of_level (lexical t (by simp)) joins
        refine .skip ?_ lexical
        -- the tree so far becomes the left operand: operators of a level group to the left
        refine operands.bind fun us right second => (ih _).mono fun vs e rest ts first => ?_
        simpa using rest _ (.operator first mark isOperator second)

theorem yields_levelOf (level : Precedence) {operand : Reading Node}
    (operands : Yields operand (Expression level.operand)) (budget : Nat) :
    Yields (levelOf budget (levelOfPrecedence level) operand) (Expression (.operation level)) :=
  operands.bind fun ts left first => (yields_moreOperands operands budget left).mono
    fun _ _ rest => rest ts (.operand first)

theorem yields_operators {operand : Reading Node} (operands : Yields operand (Expression .signed))
    (budget : Nat) : Yields (operators budget operand) (Expression (.operation .disjunction)) := by
  rw [operators_eq]
  have products := yields_levelOf .product operands budget
  have sums := yields_levelOf .sum products budget
  have comparisons := yields_levelOf .comparison sums budget
  have equalities := yields_levelOf .equality comparisons budget
  have conjunctions := yields_levelOf .conjunction equalities budget
  exact yields_levelOf .disjunction conjunctions budget

/-! ### Expressions -/

section

variable {expression : Reading Node} (expressions : Yields expression (Expression .expression))
include expressions

theorem yields_primary (budget : Nat) :
    Yields (primary Node.literal budget expression) (Expression .primary) := by
  refine .peek fun s lexical => ?_
  cases s with
  | nil => exact Yields.rejecting lexical
  | cons t rest =>
    dsimp only
    split
    next kind =>
      split
      next x value => exact .skip (.pure (.number kind value)) lexical
      · exact Yields.throwing lexical
    next kind =>
      cases value : Text.literalValue? t.text with
      | none =>
        simp only [Node.literal, value]
        exact Yields.rejecting lexical
      | some text =>
        simp only [Node.literal, value]
        exact .skip (.pure (.text kind value)) lexical
    next kind => exact .skip (.pure (.name ⟨kind, rfl⟩)) lexical
    · split
      next fits =>
        have opens := mark_of_isMark (lexical t (by simp)) fits (by decide)
        refine .skip ?_ lexical
        refine expressions.bind fun us inner derived => (yields_expect_mark (by decide)).bind ?_
        rintro _ _ ⟨closing, rfl, closes⟩
        exact .pure (by simpa using .parentheses opens derived closes)
      · split
        next fits =>
          have opens := mark_of_isMark (lexical t (by simp)) fits (by decide)
          refine .skip ?_ lexical
          refine (yields_arguments expressions budget (by decide)).bind ?_
          rintro _ elements ⟨us, closing, rfl, closes, derived⟩
          exact .pure (by simpa using .array opens derived closes)
        · exact Yields.rejecting lexical

/-- Whatever chain comes first, it stays one with the suffixes that are read after it. -/
theorem yields_suffixes (budget fuel : Nat) (node : Node) :
    Yields (suffixes budget expression fuel node) fun us e =>
      ∀ ts, Expression .chain ts node → Expression .chain (ts ++ us) e := by
  induction fuel generalizing node with
  | zero => exact .pure fun ts first => by simpa using first
  | succ fuel ih =>
    refine (yields_accept_mark (by decide)).bind ?_
    rintro _ found (⟨rfl, opening, rfl, opens⟩ | ⟨rfl, rfl⟩)
    · refine (yields_arguments expressions budget (by decide)).bind ?_
      rintro _ args ⟨us, closing, rfl, closes, derived⟩
      refine (ih _).mono fun vs e rest ts first => ?_
      simpa using rest _ (.call first opens derived closes)
    refine (yields_accept_mark (by decide)).bind ?_
    rintro _ found (⟨rfl, dot, rfl, isDot⟩ | ⟨rfl, rfl⟩)
    · refine yields_identifier.bind ?_
      rintro _ name ⟨t, rfl, isName⟩
      refine (ih _).mono fun vs e rest ts first => ?_
      simpa using rest _ (.property first isDot isName)
    refine (yields_accept_mark (by decide)).bind ?_
    rintro _ found (⟨rfl, opening, rfl, opens⟩ | ⟨rfl, rfl⟩)
    · refine expressions.bind fun us key derived => (yields_expect_mark (by decide)).bind ?_
      rintro _ _ ⟨closing, rfl, closes⟩
      refine (ih _).mono fun vs e rest ts first => ?_
      simpa using rest _ (.index first opens derived closes)
    · exact .pure fun ts first => by simpa using first

end

theorem yields_updated {operand : Reading Node} (operands : Yields operand (Expression .marked)) :
    Yields (updated operand) (Expression .updated) := by
  refine .peek fun s lexical => ?_
  refine (operands.bind fun ts node derived => .peek fun rest restLexical => ?_) lexical
  have unchanged : Yields (Pure.pure node) fun us e => Expression .updated (ts ++ us) e :=
    .pure (by simpa using .unchanged derived)
  cases rest with
  | nil => exact unchanged restLexical
  | cons t rest =>
    dsimp only
    split
    next fits =>
      obtain ⟨mark, isOperator⟩ := mark_of_isOperator fits
      -- only a name can be updated
      cases node
      case identifier name => exact .skip (.pure (.update derived mark isOperator)) restLexical
      all_goals exact Yields.throwing restLexical
    · exact unchanged restLexical

/-- Expressions, operands with signs, and chains with call markers, by induction on the depth. -/
theorem yields_expressions (budget depth : Nat) :
    Yields (expression Node.literal budget depth) (Expression .expression) ∧
      Yields (prefixed Node.literal budget depth) (Expression .signed) ∧
      Yields (chain Node.literal budget depth) (Expression .marked) := by
  induction depth with
  -- at the limit nothing is read, so there is nothing to show
  | zero =>
    refine ⟨?_, ?_, ?_⟩
    · rw [expression]
      exact .throwing
    · rw [prefixed]
      exact .throwing
    · rw [chain]
      exact .throwing
  | succ depth ih =>
    obtain ⟨expressions, operands, chains⟩ := ih
    refine ⟨?_, ?_, ?_⟩
    · rw [expression]
      refine .peek fun s lexical => ?_
      refine ((yields_operators operands budget).bind fun ts left derived => ?_) lexical
      refine yields_sees.bind ?_
      rintro _ found rfl
      split
      -- only a name can be assigned to, in parentheses or not
      · cases left
        case identifier name =>
          refine (yields_expect_mark (by decide)).bind ?_
          rintro _ _ ⟨t, rfl, isEquals⟩
          refine expressions.bind fun us value assigned => .pure ?_
          simpa using .assignment derived isEquals assigned
        all_goals exact .peek fun s lexical => Yields.throwing lexical
      · exact .pure (by simpa using .operation derived)
    · rw [prefixed]
      refine (yields_operator? _).bind ?_
      rintro _ found (⟨t, rfl, rfl, mark, isOperator⟩ | ⟨rfl, rfl⟩)
      · refine operands.bind fun us operand derived => .pure ?_
        simpa using .signed mark isOperator derived
      · exact (yields_updated chains).mono fun _ _ => .unsigned
    · rw [chain]
      refine (yields_accept_keyword (by decide)).bind ?_
      rintro _ found (⟨rfl, t, rfl, isMarker⟩ | ⟨rfl, rfl⟩)
      -- the marker is dropped, but what follows it has to be a call
      · refine chains.bind fun ts node derived => ?_
        cases node
        case call callee args => exact .pure (by simpa using .marked isMarker derived)
        all_goals exact .rejecting
      · refine (yields_primary expressions budget).bind fun ts first derived => ?_
        exact (yields_suffixes expressions budget budget first).mono fun us e rest =>
          .unmarked (rest ts (.primary derived))

/-! ### Statements -/

/-- The statements that are read come after those that were read before. -/
theorem yields_statementsUntil {statement : Reading Node} {inLoop : Bool}
    (statements : Yields statement (Statement inLoop)) (fuel : Nat) (before : List Node) :
    Yields (statementsUntil statement fuel before) fun ts body =>
      ∃ us t rest, ts = us ++ [t] ∧ Mark "\x7d" t ∧ Statements inLoop us rest ∧
        body = before.reverse ++ rest := by
  induction fuel generalizing before with
  | zero => exact .rejecting
  | succ fuel ih =>
    refine (yields_accept_mark (by decide)).bind ?_
    rintro _ found (⟨rfl, t, rfl, closes⟩ | ⟨rfl, rfl⟩)
    · exact .pure ⟨[], t, [], rfl, closes, .done, by simp⟩
    refine yields_get.bind ?_
    rintro _ tokens rfl
    split
    · exact .rejecting
    refine (yields_accept_mark (by decide)).bind ?_
    rintro _ found (⟨rfl, separator, rfl, separates⟩ | ⟨rfl, rfl⟩)
    · refine (ih before).mono ?_
      rintro _ body ⟨us, t, rest, rfl, closes, derived, rfl⟩
      exact ⟨separator :: us, t, rest, rfl, closes, .separator separates derived, rfl⟩
    · refine statements.bind fun ts next first => (ih (next :: before)).mono ?_
      rintro _ body ⟨us, t, rest, rfl, closes, derived, rfl⟩
      exact ⟨ts ++ us, t, next :: rest, by simp, closes, .next first derived, by simp⟩

theorem yields_block {statement : Reading Node} {inLoop : Bool}
    (statements : Yields statement (Statement inLoop)) (budget : Nat) :
    Yields (block budget statement) (Block inLoop) := by
  refine (yields_expect_mark (by decide)).bind ?_
  rintro _ _ ⟨opening, rfl, opens⟩
  refine (yields_statementsUntil statements budget []).mono ?_
  rintro _ _ ⟨us, closing, rest, rfl, closes, derived, rfl⟩
  simpa using .braces opens derived closes

section

variable {expression : Reading Node} (expressions : Yields expression (Expression .expression))
include expressions

theorem yields_declaration : Yields (declaration expression) Declaration := by
  refine (yields_expect_keyword (by decide)).bind ?_
  rintro _ _ ⟨keyword, rfl, isLet⟩
  refine yields_identifier.bind ?_
  rintro _ name ⟨t, rfl, isName⟩
  refine (yields_accept_mark (by decide)).bind ?_
  rintro _ found (⟨rfl, equals, rfl, isEquals⟩ | ⟨rfl, rfl⟩)
  · refine expressions.bind fun ts init derived => .pure ?_
    simpa using .initialized isLet isName isEquals derived
  · exact .pure (.plain isLet isName)

theorem yields_optionalUnless (mark : String) :
    Yields (optionalUnless mark expression) Optional := by
  refine yields_sees.bind ?_
  rintro _ found rfl
  split
  · exact .pure .absent
  · refine expressions.bind fun ts e derived => .pure ?_
    simpa using .present derived

theorem yields_returning {inLoop : Bool} :
    Yields (returning expression) (Statement inLoop) := by
  refine (yields_expect_keyword (by decide)).bind ?_
  rintro _ _ ⟨keyword, rfl, isReturn⟩
  refine (yields_optionalUnless expressions ";").bind fun ts argument derived => ?_
  refine (yields_expect_mark (by decide)).bind ?_
  rintro _ _ ⟨t, rfl, ends⟩
  exact .pure (by simpa using .returning isReturn derived ends)

theorem yields_expressionStatement {inLoop : Bool} :
    Yields (expressionStatement expression) (Statement inLoop) := by
  refine expressions.bind fun ts e derived => (yields_expect_mark (by decide)).bind ?_
  rintro _ _ ⟨t, rfl, ends⟩
  exact .pure (by simpa using .expression derived ends)

variable {body : Reading (List Node)} (bodies : Yields body (Block true))
include bodies

theorem yields_whileLoop {inLoop : Bool} :
    Yields (whileLoop expression body) (Statement inLoop) := by
  refine (yields_expect_keyword (by decide)).bind ?_
  rintro _ _ ⟨keyword, rfl, isWhile⟩
  refine (yields_expect_mark (by decide)).bind ?_
  rintro _ _ ⟨opening, rfl, opens⟩
  refine expressions.bind fun ts test tested => (yields_expect_mark (by decide)).bind ?_
  rintro _ _ ⟨closing, rfl, closes⟩
  refine bodies.bind fun us body derived => .pure ?_
  simpa using .whileLoop isWhile opens tested closes derived

theorem yields_forLoop {inLoop : Bool} : Yields (forLoop expression body) (Statement inLoop) := by
  have optionals := yields_optionalUnless expressions
  refine (yields_expect_keyword (by decide)).bind ?_
  rintro _ _ ⟨keyword, rfl, isFor⟩
  refine (yields_expect_mark (by decide)).bind ?_
  rintro _ _ ⟨opening, rfl, opens⟩
  -- both ways of starting the loop go on in the same way
  have afterInit {ts : List Token} {init : Option Node} (started : Initial ts init) :
      Yields
        (expect ";" >>= fun _ => optionalUnless ";" expression >>= fun test =>
          expect ";" >>= fun _ => optionalUnless ")" expression >>= fun update =>
            expect ")" >>= fun _ => body >>= fun body =>
              Pure.pure (Tree.forLoop init test update body))
        fun us e => Statement inLoop (keyword :: opening :: (ts ++ us)) e := by
    refine (yields_expect_mark (by decide)).bind ?_
    rintro _ _ ⟨first, rfl, isFirst⟩
    refine (optionals ";").bind fun us test tested => (yields_expect_mark (by decide)).bind ?_
    rintro _ _ ⟨second, rfl, isSecond⟩
    refine (optionals ")").bind fun vs update updates => (yields_expect_mark (by decide)).bind ?_
    rintro _ _ ⟨closing, rfl, closes⟩
    refine bodies.bind fun ws body derived => .pure ?_
    simpa using .forLoop isFor opens started isFirst tested isSecond updates closes derived
  refine yields_sees.bind ?_
  rintro _ found rfl
  split
  · refine ((yields_declaration expressions).map fun _ _ => Initial.declaration).bind ?_
    exact fun ts init started => afterInit started
  · exact (optionals ";").bind fun ts init started => afterInit (.optional started)

end

theorem yields_function {body : Reading (List Node)} (bodies : Yields body (Block false))
    (budget : Nat) {inLoop : Bool} : Yields (function budget body) (Statement inLoop) := by
  refine (yields_expect_keyword (by decide)).bind ?_
  rintro _ _ ⟨keyword, rfl, isFunction⟩
  refine yields_identifier.bind ?_
  rintro _ name ⟨t, rfl, isName⟩
  refine (yields_expect_mark (by decide)).bind ?_
  rintro _ _ ⟨opening, rfl, opens⟩
  refine (yields_parameters budget).bind ?_
  rintro _ params ⟨ts, closing, rfl, closes, derived⟩
  refine bodies.bind fun us body derivedBody => .pure ?_
  simpa using .function isFunction isName opens derived closes derivedBody

omit [CharacterNames] in
/-- A jump is read inside a loop only: its keyword and the mark that ends it. -/
theorem jump_eq_ok {inLoop : Bool} {node e : Node} {t : Token} {rest s' : List Token}
    (lexical : ∀ u ∈ t :: rest, u.Lexical) (taken : jump inLoop node (t :: rest) = .ok (e, s')) :
    inLoop = true ∧ e = node ∧ ∃ ending, rest = ending :: s' ∧ Mark ";" ending := by
  cases inLoop with
  | false => cases taken
  | true =>
    obtain ⟨_, s₁, expected, taken⟩ := bind_eq_ok.1 taken
    cases taken
    obtain ⟨ending, rfl, fits⟩ := expect_eq_ok.1 expected
    exact ⟨rfl, rfl, ending, rfl, mark_of_isMark (lexical ending (by simp)) fits (by decide)⟩

/-- Statements and conditional statements, by induction on the depth. -/
theorem yields_statements (budget depth : Nat) (inLoop : Bool) :
    Yields (statement Node.literal budget depth inLoop) (Statement inLoop) ∧
      Yields (conditional Node.literal budget depth inLoop) (Conditional inLoop) := by
  induction depth generalizing inLoop with
  | zero =>
    constructor
    · rw [statement]
      exact .throwing
    · rw [conditional]
      exact .throwing
  | succ depth ih =>
    have expressions := (yields_expressions budget depth).1
    have blocks (inLoop : Bool) := yields_block (ih inLoop).1 budget
    constructor
    · rw [statement]
      refine .peek fun s lexical => ?_
      cases s with
      | nil => exact Yields.rejecting lexical
      | cons t rest =>
        dsimp only
        split
        next isKeyword =>
          split
          -- a function is outside of the loops around it, the body of a loop inside
          · exact yields_function (blocks false) budget lexical
          · refine ((yields_declaration expressions).bind fun ts node derived =>
              (yields_expect_mark (by decide)).bind ?_) lexical
            rintro _ _ ⟨ending, rfl, ends⟩
            exact .pure (by simpa using .declaration derived ends)
          · exact (ih inLoop).2.mono (fun _ _ => .conditional) lexical
          · exact yields_forLoop expressions (blocks true) lexical
          · exact yields_whileLoop expressions (blocks true) lexical
          · exact yields_returning expressions lexical
          next isBreak =>
            intro e s' taken
            obtain ⟨rfl, rfl, ending, rfl, ends⟩ := jump_eq_ok lexical taken
            exact ⟨[t, ending], rfl, .breakJump ⟨isKeyword.1, isBreak⟩ ends⟩
          next isContinue =>
            intro e s' taken
            obtain ⟨rfl, rfl, ending, rfl, ends⟩ := jump_eq_ok lexical taken
            exact ⟨[t, ending], rfl, .continueJump ⟨isKeyword.1, isContinue⟩ ends⟩
          · exact Yields.rejecting lexical
        · split
          · refine ((blocks inLoop).bind fun ts body derived => .pure ?_) lexical
            simpa using .block derived
          · exact yields_expressionStatement expressions lexical
    · rw [conditional]
      refine (yields_expect_keyword (by decide)).bind ?_
      rintro _ _ ⟨keyword, rfl, isIf⟩
      refine (yields_expect_mark (by decide)).bind ?_
      rintro _ _ ⟨opening, rfl, opens⟩
      refine expressions.bind fun ts test tested => (yields_expect_mark (by decide)).bind ?_
      rintro _ _ ⟨closing, rfl, closes⟩
      refine (blocks inLoop).bind fun us consequent first => ?_
      refine (yields_accept_keyword (by decide)).bind ?_
      rintro _ found (⟨rfl, otherwise, rfl, isElse⟩ | ⟨rfl, rfl⟩)
      · refine yields_sees.bind ?_
        rintro _ found rfl
        split
        · refine (ih inLoop).2.bind fun vs alternate second => .pure ?_
          simpa using .elseIf isIf opens tested closes first isElse second
        · refine (blocks inLoop).bind fun vs alternate second => .pure ?_
          simpa using .elseBlock isIf opens tested closes first isElse second
      · exact .pure (by simpa using .alone isIf opens tested closes first)

/-! ### Programs -/

/-- Every statement takes a token, so enough rounds for all tokens leave none of them. -/
theorem statements_of_statementsToEnd {statement : Reading Node}
    (statements : Yields statement (Statement false)) {fuel : Nat} {before body : List Node}
    {s s' : List Token} (lexical : ∀ t ∈ s, t.Lexical) (enough : s.length < fuel)
    (taken : statementsToEnd statement fuel before s = .ok (body, s')) :
    ∃ rest, Statements false s rest ∧ body = before.reverse ++ rest := by
  induction fuel generalizing before s with
  | zero => omega
  | succ fuel ih =>
    rw [statementsToEnd, bind_of_ok get_apply] at taken
    cases s with
    | nil =>
      cases taken
      exact ⟨[], .done, by simp⟩
    | cons t rest =>
      rw [if_neg (by simp)] at taken
      obtain ⟨found, s₁, accepted, taken⟩ := bind_eq_ok.1 taken
      cases found with
      | true =>
        obtain ⟨_, ⟨⟩, fits⟩ := accept_eq_true.1 accepted
        have separates := mark_of_isMark (lexical t (by simp)) fits (by decide)
        obtain ⟨body, derived, rfl⟩ :=
          ih (fun u member => lexical u (by simp [member])) (by simp at enough; omega) taken
        exact ⟨body, .separator separates derived, rfl⟩
      | false =>
        obtain ⟨rfl, _⟩ := accept_eq_false.1 accepted
        obtain ⟨next, s₂, first, taken⟩ := bind_eq_ok.1 taken
        obtain ⟨ts, split, derived⟩ := statements lexical first
        -- a statement has a first token, so fewer tokens are left than rounds
        obtain ⟨u, us, rfl, _⟩ := derived.opens
        rw [split] at lexical enough ⊢
        simp only [List.length_append, List.length_cons] at enough
        obtain ⟨body, rest, rfl⟩ :=
          ih (fun u member => lexical u (by simp [member])) (by omega) taken
        exact ⟨next :: body, .next derived rest, by simp⟩

/-- What is read as a program is one. -/
theorem program_derived {limit : Nat} {tokens : List Token} {tree : Node}
    (lexical : ∀ t ∈ tokens, t.Lexical) (returned : program Node.literal limit tokens = .ok tree) :
    Program tokens tree := by
  have statements := (yields_statements tokens.length limit false).1
  unfold program at returned
  dsimp only at returned
  split at returned
  next body rest taken =>
    cases returned
    obtain ⟨body, derived, rfl⟩ :=
      statements_of_statementsToEnd statements lexical (by omega) taken
    exact .statements derived
  · cases returned

theorem program_of_ofTokens {tokens : List Token} {tree : Node}
    (lexical : ∀ t ∈ tokens, t.Lexical) (returned : Node.ofTokens tokens = .ok tree) :
    Program tokens tree := by
  unfold Node.ofTokens Tree.ofTokens at returned
  split at returned
  next read =>
    cases returned
    exact program_derived lexical read
  · cases returned

end YapLang.Reading
