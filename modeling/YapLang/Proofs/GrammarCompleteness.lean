import YapLang.Proofs.GrammarSoundness

/-!
# What belongs to the grammar is read

The reading functions look one token ahead, so a phrase is read to its end and no further only if
the next token does not continue it. Which marks continue a phrase depends on the level of the
phrase alone; under that condition each rule of the grammar is followed by the function that reads
its left side. Operators of one level and suffixes of a chain group to the left but are read in a
loop: there the statement is where the loop stands after a phrase, with at least as many rounds left
as there are tokens.

A phrase of `n` tokens never nests deeper than `3 * n`.
-/
namespace YapLang.Reading

open Grammar

variable {α : Type} {t : Token} {ts us rest : List Token} {text : String} {texts : List String}

/-! ### Looking ahead -/

/-- The next token, if there is one, is none of the given marks. -/
def Avoids (texts : List String) (rest : List Token) : Prop :=
  ∀ t ∈ rest.head?, ∀ text ∈ texts, t.isMark text = false

theorem isMark_of_mark (mark : Mark text t) : t.isMark text = true :=
  isMark_eq_true.2 ⟨mark.2, .inl mark.1⟩

theorem isMark_of_keyword (keyword : Keyword text t) : t.isMark text = true :=
  isMark_eq_true.2 ⟨keyword.2, .inr keyword.1⟩

theorem isMark_eq_false {other : String} (fits : t.isMark text = true) (differs : other ≠ text) :
    t.isMark other = false := by
  refine Bool.eq_false_iff.2 fun both => differs ?_
  rw [← (isMark_eq_true.1 both).1, (isMark_eq_true.1 fits).1]

namespace Avoids

theorem nil : Avoids texts [] :=
  fun _ next => nomatch next

theorem mono {fewer : List String} (subset : fewer ⊆ texts) (avoids : Avoids texts rest) :
    Avoids fewer rest :=
  fun t next text member => avoids t next text (subset member)

theorem of_isMark (fits : t.isMark text = true) (differs : text ∉ texts) :
    Avoids texts (t :: rest) := by
  intro u next other member
  cases next
  exact isMark_eq_false fits fun same => differs (same ▸ member)

theorem of_mark (mark : Mark text t) (differs : text ∉ texts) : Avoids texts (t :: rest) :=
  of_isMark (isMark_of_mark mark) differs

theorem of_opens (opens : Phrase.expression.Opens t)
    (differ : ∀ text ∈ texts, text ∉ ["(", "[", "!", "-", "+", Lexeme.callKeyword]) :
    Avoids texts (t :: rest) := by
  have of_kind (other : t.kind ≠ .punctuation ∧ t.kind ≠ .keyword) : Avoids texts (t :: rest) := by
    intro u next text member
    cases next
    simp [Token.isMark, other]
  -- literals and names are no marks at all; the others are marks that the texts do not have
  rcases opens with ((kind | kind | kind | mark | mark) | marker) | ⟨op, isOperator, mark⟩
  · exact of_kind (by simp [kind])
  · exact of_kind (by simp [kind])
  · exact of_kind (by simp [kind])
  · exact of_mark mark fun member => differ _ member (by simp)
  · exact of_mark mark fun member => differ _ member (by simp)
  · exact of_isMark (isMark_of_keyword marker) fun member => differ _ member (by simp)
  · refine of_mark mark fun member => differ _ member ?_
    simp only [List.mem_cons, List.not_mem_nil, or_false] at isOperator ⊢
    rcases isOperator with rfl | rfl | rfl <;> simp

theorem of_expression [CharacterNames] {e : Node} (derived : Expression .expression ts e)
    (differ : ∀ text ∈ texts, text ∉ ["(", "[", "!", "-", "+", Lexeme.callKeyword]) :
    Avoids texts (ts ++ rest) := by
  obtain ⟨t, us, rfl, opens⟩ := derived.opens
  exact of_opens opens differ

theorem any_eq_false (avoids : Avoids texts rest) (member : text ∈ texts) :
    rest.head?.any (Token.isMark text) = false := by
  cases rest with
  | nil => rfl
  | cons t rest => exact avoids t rfl text member

theorem accept_eq (avoids : Avoids texts rest) (member : text ∈ texts) :
    accept text rest = .ok (false, rest) :=
  accept_eq_false.2 ⟨rfl, avoids.any_eq_false member⟩

theorem sees_eq (avoids : Avoids texts rest) (member : text ∈ texts) :
    sees text rest = .ok (false, rest) := by
  rw [sees, avoids.any_eq_false member]

theorem isOperator_eq_false {fewer : List String} (avoids : Avoids texts (t :: rest))
    (subset : fewer ⊆ texts) : t.isOperator fewer = false := by
  refine Bool.eq_false_iff.2 fun both => ?_
  obtain ⟨mark, member⟩ := mark_of_isOperator both
  have differs := avoids t rfl t.text (subset member)
  simp [isMark_of_mark mark] at differs

end Avoids

theorem accept_of_isMark (fits : t.isMark text = true) :
    accept text (t :: rest) = .ok (true, rest) :=
  accept_eq_true.2 ⟨t, rfl, fits⟩

theorem expect_of_isMark (fits : t.isMark text = true) : expect text (t :: rest) = .ok ((), rest) :=
  expect_eq_ok.2 ⟨t, rfl, fits⟩

theorem sees_of_isMark (fits : t.isMark text = true) :
    sees text (t :: rest) = .ok (true, t :: rest) := by
  simp [sees, fits]

theorem identifier_of_name {name : Text} (isName : Name name t) :
    identifier (t :: rest) = .ok (name, rest) :=
  identifier_eq_ok.2 ⟨t, rfl, isName⟩

theorem isOperator_of_mark (mark : Mark text t) (member : text ∈ texts) :
    t.isOperator texts = true := by
  simp [Token.isOperator, mark.1, mark.2, member]

/-! ### Lists -/

/-- The tokens, in front of the rest, are read as a list: a first item and more after it. -/
def ReadsList (item : Reading α) (fuel : Nat) (ts rest : List Token) (as : List α) : Prop :=
  ∃ first more s, as = first :: more ∧ item (ts ++ rest) = .ok (first, s) ∧
    moreItems item fuel s = .ok (more, rest)

namespace ReadsList

variable {item : Reading α} {fuel : Nat} {a : α} {as : List α}

theorem last (taken : item (ts ++ rest) = .ok (a, rest)) (avoids : Avoids [","] rest) :
    ReadsList item fuel ts rest [a] := by
  refine ⟨a, [], rest, rfl, taken, ?_⟩
  cases fuel with
  | zero => rfl
  | succ fuel => rw [moreItems, bind_of_ok (avoids.accept_eq (by simp))]; rfl

theorem more (taken : item (ts ++ t :: (us ++ rest)) = .ok (a, t :: (us ++ rest)))
    (comma : Mark "," t) (tail : ReadsList item fuel us rest as) :
    ReadsList item (fuel + 1) (ts ++ t :: us) rest (a :: as) := by
  -- the first item of the tail is read by the round that the comma opens
  obtain ⟨second, others, s, rfl, secondTaken, othersTaken⟩ := tail
  refine ⟨a, second :: others, t :: (us ++ rest), rfl, by simpa using taken, ?_⟩
  rw [moreItems, bind_of_ok (accept_of_isMark (isMark_of_mark comma)), if_pos rfl,
    bind_of_ok secondTaken, bind_of_ok othersTaken]
  rfl

theorem itemsUntil_eq {closing : String} (list : ReadsList item fuel ts (t :: rest) as)
    (closes : Mark closing t) (avoids : Avoids [closing] (ts ++ t :: rest)) :
    itemsUntil fuel item closing (ts ++ t :: rest) = .ok (as, rest) := by
  obtain ⟨first, others, s, rfl, firstTaken, othersTaken⟩ := list
  rw [itemsUntil, bind_of_ok (avoids.accept_eq (by simp)), if_neg (by simp),
    bind_of_ok firstTaken, bind_of_ok othersTaken,
    bind_of_ok (expect_of_isMark (isMark_of_mark closes))]
  rfl

end ReadsList

theorem itemsUntil_of_mark {item : Reading α} {budget : Nat} {closing : String}
    (closes : Mark closing t) : itemsUntil budget item closing (t :: rest) = .ok ([], rest) := by
  rw [itemsUntil, bind_of_ok (accept_of_isMark (isMark_of_mark closes))]
  rfl

/-! ### What continues a phrase -/

/-- The marks that continue a phrase when they come after it. -/
def continuations : Phrase → List String
  | .primary => []
  | .chain | .marked => ["(", ".", "["]
  | .updated | .signed => ["(", ".", "[", "++", "--"]
  | .operation level => tighter level ++ ["(", ".", "[", "++", "--"]
  | .expression => "=" :: (tighter .disjunction ++ ["(", ".", "[", "++", "--"])
where
  /-- The operators of a level and of all tighter ones. -/
  tighter (level : Precedence) : List String :=
    (Precedence.all.dropWhile (· != level)).flatMap Precedence.operators

theorem continuations_operand (level : Precedence) :
    continuations level.operand ⊆ continuations (.operation level) := by
  cases level <;> decide

theorem operators_subset (level : Precedence) :
    level.operators ⊆ continuations (.operation level) := by
  cases level <;> decide

theorem operator_not_mem {level : Precedence} {op : String} (member : op ∈ level.operators) :
    op ∉ continuations level.operand := by
  revert op
  cases level <;> decide

theorem update_not_mem {op : String} (member : op ∈ ["++", "--"]) :
    op ∉ continuations .marked := by
  revert op
  decide

theorem level_eq_some {level : Precedence} {op : String} (mark : Mark op t)
    (member : op ∈ level.operators) : levelOfPrecedence level t = some (level.join op) := by
  obtain ⟨kind, rfl⟩ := mark
  cases level
  case disjunction | conjunction =>
    simp only [Precedence.operators, List.mem_singleton] at member
    simp [levelOfPrecedence, logicalLevel, Token.isMark, kind, member]
    rfl
  all_goals
    have fits := isOperator_of_mark ⟨kind, rfl⟩ member
    simp only [Precedence.operators] at fits
    simp only [levelOfPrecedence, binaryLevel, fits, if_true]
    rfl

theorem level_eq_none {level : Precedence} (avoids : Avoids level.operators (t :: rest)) :
    levelOfPrecedence level t = none := by
  cases level
  case disjunction | conjunction =>
    have differs := avoids t rfl _ (List.mem_singleton.2 rfl)
    simp [levelOfPrecedence, logicalLevel, differs]
  all_goals
    have differs := avoids.isOperator_eq_false (List.Subset.refl _)
    simp only [Precedence.operators] at differs
    simp [levelOfPrecedence, binaryLevel, differs]

/-! ### Phrases of expressions -/

section

variable [CharacterNames]

/-- The function that reads phrases of a kind. -/
def reader (budget depth : Nat) : Phrase → Reading Node
  | .expression => expression Node.literal budget depth
  | .operation level =>
    (Precedence.all.dropWhile (· != level)).foldr
      (fun tighter => levelOf budget (levelOfPrecedence tighter))
      (prefixed Node.literal budget depth)
  | .signed => prefixed Node.literal budget depth
  | .updated => updated (chain Node.literal budget depth)
  | .marked => chain Node.literal budget depth
  | .chain => do
    let first ← primary Node.literal budget (expression Node.literal budget depth)
    suffixes budget (expression Node.literal budget depth) budget first
  | .primary => primary Node.literal budget (expression Node.literal budget depth)

theorem reader_operation (budget depth : Nat) (level : Precedence) :
    reader budget depth (.operation level) =
      levelOf budget (levelOfPrecedence level) (reader budget depth level.operand) := by
  cases level <;> rfl

/-- How many levels of nesting a phrase is below the expression that begins with it. -/
def below : Phrase → Nat
  | .expression => 0
  | .operation _ | .signed => 1
  | .updated | .marked => 2
  | .chain | .primary => 3

omit [CharacterNames] in
theorem below_operand (level : Precedence) : below level.operand = 1 := by
  cases level <;> rfl

/-- The tokens are read as a phrase of the given kind, up to a token that does not continue it. They
nest that much deeper than an expression of one token, which nests three levels deep. -/
def Reads (p : Phrase) (nesting : Nat) (ts : List Token) (e : Node) : Prop :=
  ∀ budget depth rest, ts.length ≤ budget → nesting + 3 ≤ depth + below p →
    Avoids (continuations p) rest → reader budget depth p (ts ++ rest) = .ok (e, rest)

/-- After the tokens, the loop over the operators of a level stands at the given tree. -/
def ReachesOperator (level : Precedence) (nesting : Nat) (ts : List Token) (e : Node) : Prop :=
  ∀ budget depth rest, ts.length ≤ budget → nesting + 3 ≤ depth + 1 →
    Avoids (continuations level.operand) rest → ∃ fuel, budget ≤ fuel + ts.length ∧
      reader budget depth (.operation level) (ts ++ rest) =
        moreOperands (levelOfPrecedence level) (reader budget depth level.operand) fuel e rest

/-- After the tokens, the loop over the suffixes of a chain stands at the given tree. -/
def ReachesSuffix (nesting : Nat) (ts : List Token) (e : Node) : Prop :=
  ∀ budget depth rest, ts.length ≤ budget → nesting ≤ depth →
    ∃ fuel, budget ≤ fuel + ts.length ∧
      reader budget depth .chain (ts ++ rest) =
        suffixes budget (expression Node.literal budget depth) fuel e rest

/-- What reading has achieved after a phrase. -/
def Reaches : Phrase → Nat → List Token → Node → Prop
  | .operation level => ReachesOperator level
  | .chain => ReachesSuffix
  | p => Reads p

theorem Reads.mono {p : Phrase} {n n' : Nat} {e : Node} (reads : Reads p n ts e) (le : n ≤ n') :
    Reads p n' ts e :=
  fun budget depth rest fits shallow => reads budget depth rest fits (by omega)

theorem ReachesOperator.mono {level : Precedence} {n n' : Nat} {e : Node}
    (reaches : ReachesOperator level n ts e) (le : n ≤ n') : ReachesOperator level n' ts e :=
  fun budget depth rest fits shallow => reaches budget depth rest fits (by omega)

theorem ReachesSuffix.mono {n n' : Nat} {e : Node} (reaches : ReachesSuffix n ts e) (le : n ≤ n') :
    ReachesSuffix n' ts e :=
  fun budget depth rest fits shallow => reaches budget depth rest fits (by omega)

omit [CharacterNames] in
theorem moreOperands_of_none {level : Level Text} {operand : Reading Node} (fuel : Nat)
    (left : Node) (none : ∀ t ∈ rest.head?, level t = none) :
    moreOperands level operand fuel left rest = .ok (left, rest) := by
  cases fuel with
  | zero => rfl
  | succ fuel =>
    rw [moreOperands, bind_of_ok get_apply]
    cases rest with
    | nil => rfl
    | cons t rest => simp [none t rfl]

theorem ReachesOperator.reads {level : Precedence} {n : Nat} {e : Node}
    (reaches : ReachesOperator level n ts e) : Reads (.operation level) n ts e := by
  intro budget depth rest fits shallow avoids
  obtain ⟨fuel, _, reached⟩ :=
    reaches budget depth rest fits shallow (avoids.mono (continuations_operand level))
  rw [reached]
  -- no operator of the level follows, so the loop ends where it stands
  refine moreOperands_of_none fuel e fun t next => ?_
  cases rest with
  | nil => cases next
  | cons u rest =>
    cases next
    exact level_eq_none (avoids.mono (operators_subset level))

theorem ReachesSuffix.reads {n : Nat} {e : Node} (reaches : ReachesSuffix n ts e) :
    Reads .chain n ts e := by
  intro budget depth rest fits shallow avoids
  obtain ⟨fuel, _, reached⟩ := reaches budget depth rest fits (Nat.le_of_add_le_add_right shallow)
  rw [reached]
  cases fuel with
  | zero => rfl
  | succ fuel =>
    have none {text : String} (member : text ∈ ["(", ".", "["]) := avoids.accept_eq member
    rw [suffixes, bind_of_ok (none (by simp)), if_neg (by simp), bind_of_ok (none (by simp)),
      if_neg (by simp), bind_of_ok (none (by simp))]
    rfl

theorem Reaches.reads {p : Phrase} {n : Nat} {e : Node} (reaches : Reaches p n ts e) :
    Reads p n ts e := by
  cases p
  case operation level => exact ReachesOperator.reads reaches
  case chain => exact ReachesSuffix.reads reaches
  all_goals exact reaches

/-! ### Rules of expressions -/

section

variable {e left right value key callee object : Node} {args : List Node} {op : String}
  {name : Text}
  {opening closing dot : Token} {m n : Nat}

theorem reads_operation (inner : Reads (.operation .disjunction) n ts e) :
    Reads .expression n ts e := by
  intro budget depth rest fits shallow avoids
  -- the levels of nesting of a single token are there to go down
  obtain ⟨depth, rfl⟩ : ∃ d, depth = d + 1 := ⟨depth - 1, by simp only [below] at shallow; omega⟩
  have taken : operators budget (prefixed Node.literal budget depth) (ts ++ rest) = .ok (e, rest) :=
    inner budget depth rest fits shallow (avoids.mono (by decide))
  rw [reader, expression, bind_of_ok get_apply, bind_of_ok taken,
    bind_of_ok (avoids.sees_eq (by decide))]
  rfl

theorem reads_assignment (target : Reads (.operation .disjunction) m ts (.identifier name))
    (equals : Mark "=" t) (assigned : Reads .expression n us value) :
    Reads .expression (max m (n + 1)) (ts ++ t :: us) (.assignment name value) := by
  intro budget depth rest fits shallow avoids
  simp only [List.length_append, List.length_cons, below] at fits shallow
  obtain ⟨depth, rfl⟩ : ∃ d, depth = d + 1 := ⟨depth - 1, by omega⟩
  have targetTaken : operators budget (prefixed Node.literal budget depth)
      (ts ++ t :: (us ++ rest)) = .ok (.identifier name, t :: (us ++ rest)) :=
    target budget depth _ (by omega) (by simp only [below]; omega) (.of_mark equals (by decide))
  have valueTaken : expression Node.literal budget depth (us ++ rest) = .ok (value, rest) :=
    assigned budget depth rest (by omega) (by simp only [below]; omega) avoids
  have fits := isMark_of_mark equals
  rw [List.append_assoc, List.cons_append, reader, expression, bind_of_ok get_apply,
    bind_of_ok targetTaken, bind_of_ok (sees_of_isMark fits), if_pos rfl]
  dsimp only
  rw [bind_of_ok (expect_of_isMark fits), bind_of_ok valueTaken]
  rfl

theorem reachesOperator_operand {level : Precedence} (inner : Reads level.operand n ts e) :
    ReachesOperator level n ts e := by
  intro budget depth rest fits shallow avoids
  refine ⟨budget, by omega, ?_⟩
  rw [reader_operation, levelOf, bind_of_ok (inner _ _ _ fits (by rwa [below_operand]) avoids)]

theorem reachesOperator_operator {level : Precedence} (first : ReachesOperator level m ts left)
    (mark : Mark op t) (isOperator : op ∈ level.operators)
    (second : Reads level.operand n us right) :
    ReachesOperator level (max m n) (ts ++ t :: us) (level.join op left right) := by
  intro budget depth rest fits shallow avoids
  simp only [List.length_append, List.length_cons] at fits shallow
  have stops : Avoids (continuations level.operand) (t :: (us ++ rest)) :=
    .of_mark mark (operator_not_mem isOperator)
  obtain ⟨fuel, enough, reached⟩ := first budget depth _ (by omega) (by omega) stops
  -- the operator and its operand leave a round for each of them
  obtain ⟨fuel, rfl⟩ : ∃ n, fuel = n + 1 := ⟨fuel - 1, by omega⟩
  have secondTaken := second budget depth rest (by omega)
    (by rw [below_operand]; omega) avoids
  refine ⟨fuel, by simp only [List.length_append, List.length_cons]; omega, ?_⟩
  rw [List.append_assoc, List.cons_append, reached, moreOperands, bind_of_ok get_apply]
  simp only [level_eq_some mark isOperator]
  rw [bind_of_ok set_apply, bind_of_ok secondTaken]

theorem reads_unsigned (inner : Reads .updated n ts e)
    (opens : ∃ t us, ts = t :: us ∧ Phrase.updated.Opens t) : Reads .signed n ts e := by
  intro budget depth rest fits shallow avoids
  obtain ⟨t, us, rfl, opens⟩ := opens
  simp only [below] at shallow
  obtain ⟨depth, rfl⟩ : ∃ d, depth = d + 1 := ⟨depth - 1, by omega⟩
  -- what begins the operand is no sign: its marks are brackets, its keyword the call marker
  have noSign : t.isOperator ["!", "-", "+"] = false := by
    refine Bool.eq_false_iff.2 fun fits => ?_
    obtain ⟨mark, isSign⟩ := mark_of_isOperator fits
    have signsDiffer : ∀ text ∈ ["!", "-", "+"], text ∉ ["(", "["] := by decide
    rcases opens with opens | marker
    · exact signsDiffer _ isSign (opens.text_mem (.inl mark.1)).2
    · cases mark.1.symm.trans marker.1
  have noOperator : operator? ["!", "-", "+"] (t :: us ++ rest) = .ok (none, t :: us ++ rest) :=
    operator?_eq_none.2 ⟨rfl, noSign⟩
  rw [reader, prefixed, bind_of_ok noOperator]
  exact inner budget depth rest fits (by simp only [below]; omega) avoids

theorem reads_signed (mark : Mark op t) (isOperator : op ∈ ["!", "-", "+"])
    (operand : Reads .signed n ts e) : Reads .signed (n + 1) (t :: ts) (.unary op e) := by
  intro budget depth rest fits shallow avoids
  simp only [List.length_cons, below] at fits shallow
  obtain ⟨depth, rfl⟩ : ∃ d, depth = d + 1 := ⟨depth - 1, by omega⟩
  have signTaken : operator? ["!", "-", "+"] (t :: (ts ++ rest)) = .ok (some op, ts ++ rest) :=
    operator?_eq_some.2 ⟨t, rfl, isOperator_of_mark mark isOperator, by rw [mark.2]⟩
  have operandTaken : prefixed Node.literal budget depth (ts ++ rest) = .ok (e, rest) :=
    operand budget depth rest (by omega) (by simp only [below]; omega) avoids
  rw [List.cons_append, reader, prefixed, bind_of_ok signTaken]
  dsimp only
  rw [bind_of_ok operandTaken]
  rfl

theorem reads_unchanged (inner : Reads .marked n ts e) : Reads .updated n ts e := by
  intro budget depth rest fits shallow avoids
  have taken : chain Node.literal budget depth (ts ++ rest) = .ok (e, rest) :=
    inner budget depth rest fits shallow (avoids.mono (by decide))
  rw [reader, updated, bind_of_ok get_apply, bind_of_ok taken, bind_of_ok get_apply]
  cases rest with
  | nil => rfl
  | cons t rest =>
    have noUpdate : t.isOperator ["++", "--"] = false := avoids.isOperator_eq_false (by decide)
    simp [noUpdate]

theorem reads_update (target : Reads .marked n ts (.identifier name)) (mark : Mark op t)
    (isOperator : op ∈ ["++", "--"]) : Reads .updated n (ts ++ [t]) (.update op name) := by
  intro budget depth rest fits shallow avoids
  simp only [List.length_append, List.length_singleton, below] at fits shallow
  have taken : chain Node.literal budget depth (ts ++ t :: rest) =
      .ok (.identifier name, t :: rest) :=
    target budget depth _ (by omega) (by simp only [below]; omega)
      (.of_mark mark (update_not_mem isOperator))
  rw [List.append_assoc, List.singleton_append, reader, updated, bind_of_ok get_apply,
    bind_of_ok taken, bind_of_ok get_apply]
  simp only [isOperator_of_mark mark isOperator, if_true]
  rw [bind_of_ok set_apply, mark.2]
  rfl

theorem reads_unmarked (inner : Reads .chain n ts e)
    (opens : ∃ t us, ts = t :: us ∧ Phrase.chain.Opens t) : Reads .marked n ts e := by
  intro budget depth rest fits shallow avoids
  obtain ⟨t, us, rfl, opens⟩ := opens
  simp only [below] at shallow
  obtain ⟨depth, rfl⟩ : ∃ d, depth = d + 1 := ⟨depth - 1, by omega⟩
  have noMarker : t.isMark Lexeme.callKeyword = false := by
    refine Bool.eq_false_iff.2 fun fits => ?_
    obtain ⟨text, kind⟩ := isMark_eq_true.1 fits
    have isBracket := (opens.text_mem kind).2
    rw [text] at isBracket
    revert isBracket
    decide
  have notAccepted : accept Lexeme.callKeyword (t :: us ++ rest) = .ok (false, t :: us ++ rest) :=
    accept_eq_false.2 ⟨rfl, noMarker⟩
  rw [reader, chain, bind_of_ok notAccepted, if_neg (by simp)]
  exact inner budget depth rest fits (by simp only [below]; omega) avoids

theorem reads_marked (marker : Keyword Lexeme.callKeyword t)
    (inner : Reads .marked n ts (.call callee args)) :
    Reads .marked (n + 1) (t :: ts) (.call callee args) := by
  intro budget depth rest fits shallow avoids
  simp only [List.length_cons, below] at fits shallow
  obtain ⟨depth, rfl⟩ : ∃ d, depth = d + 1 := ⟨depth - 1, by omega⟩
  have taken : chain Node.literal budget depth (ts ++ rest) = .ok (.call callee args, rest) :=
    inner budget depth rest (by omega) (by simp only [below]; omega) avoids
  rw [List.cons_append, reader, chain, bind_of_ok (accept_of_isMark (isMark_of_keyword marker)),
    if_pos rfl, bind_of_ok taken]
  rfl

theorem reachesSuffix_primary (inner : Reads .primary n ts e) : ReachesSuffix n ts e := by
  intro budget depth rest fits shallow
  have taken := inner budget depth rest fits (Nat.add_le_add_right shallow 3)
    (by simp [Avoids, continuations])
  refine ⟨budget, by omega, ?_⟩
  exact bind_of_ok taken

/-- The tokens are read as expressions between commas, up to the mark that closes the list. -/
def ReadsItems (nesting : Nat) (ts : List Token) (es : List Node) : Prop :=
  ∀ budget depth rest closing t, ts.length ≤ budget → nesting ≤ depth →
    Mark closing t → closing ∈ [")", "]"] →
    itemsUntil budget (expression Node.literal budget depth) closing (ts ++ t :: rest) =
      .ok (es, rest)

theorem ReadsItems.mono {es : List Node} (items : ReadsItems m ts es) (le : m ≤ n) :
    ReadsItems n ts es :=
  fun budget depth rest closing t fits shallow =>
    items budget depth rest closing t fits (Nat.le_trans le shallow)

/-- A loop that stands after a chain goes on with the suffix that follows, as long as it has a round
left for it. -/
theorem reachesSuffix_suffix {next : Node} (first : ReachesSuffix n ts e) (nonempty : 0 < us.length)
    (step : ∀ budget depth rest fuel, ts.length + us.length ≤ budget → n ≤ depth →
      suffixes budget (expression Node.literal budget depth) (fuel + 1) e (us ++ rest) =
        suffixes budget (expression Node.literal budget depth) fuel next rest) :
    ReachesSuffix n (ts ++ us) next := by
  intro budget depth rest fits shallow
  simp only [List.length_append] at fits
  obtain ⟨fuel, enough, reached⟩ := first budget depth (us ++ rest) (by omega) shallow
  -- a suffix has at least one token, and the rounds left are as many as the tokens left
  obtain ⟨fuel, rfl⟩ : ∃ n, fuel = n + 1 := ⟨fuel - 1, by omega⟩
  refine ⟨fuel, by simp only [List.length_append]; omega, ?_⟩
  rw [List.append_assoc, reached, step budget depth rest fuel fits shallow]

theorem reachesSuffix_call (first : ReachesSuffix m ts callee) (opens : Mark "(" opening)
    (items : ReadsItems n us args) (closes : Mark ")" closing) :
    ReachesSuffix (max m n) (ts ++ opening :: (us ++ [closing])) (.call callee args) := by
  have first := first.mono (Nat.le_max_left m n)
  refine reachesSuffix_suffix first (by simp) fun budget depth rest fuel fits shallow => ?_
  simp only [List.length_append, List.length_cons, List.length_nil] at fits
  have taken := items budget depth rest ")" closing (by omega) (by omega) closes (by decide)
  rw [List.cons_append, List.append_assoc, List.singleton_append, suffixes,
    bind_of_ok (accept_of_isMark (isMark_of_mark opens)), if_pos rfl, bind_of_ok taken]

theorem reachesSuffix_property (first : ReachesSuffix n ts object) (isDot : Mark "." dot)
    (isName : Name name t) : ReachesSuffix n (ts ++ [dot, t]) (.property object name) := by
  refine reachesSuffix_suffix first (by simp) fun budget depth rest fuel fits shallow => ?_
  have noCall : Avoids ["("] (dot :: t :: rest) := .of_mark isDot (by decide)
  rw [List.cons_append, List.singleton_append, suffixes, bind_of_ok (noCall.accept_eq (by simp)),
    if_neg (by simp), bind_of_ok (accept_of_isMark (isMark_of_mark isDot)), if_pos rfl,
    bind_of_ok (identifier_of_name isName)]

theorem reachesSuffix_index (first : ReachesSuffix m ts object) (opens : Mark "[" opening)
    (inner : Reads .expression n us key) (closes : Mark "]" closing) :
    ReachesSuffix (max m (n + 3)) (ts ++ opening :: (us ++ [closing])) (.index object key) := by
  have first := first.mono (Nat.le_max_left m (n + 3))
  refine reachesSuffix_suffix first (by simp) fun budget depth rest fuel fits shallow => ?_
  simp only [List.length_append, List.length_cons, List.length_nil] at fits
  have differs : Avoids ["(", "."] (opening :: (us ++ closing :: rest)) :=
    .of_mark opens (by decide)
  have keyTaken : expression Node.literal budget depth (us ++ closing :: rest) =
      .ok (key, closing :: rest) :=
    inner budget depth _ (by omega) (by simp only [below]; omega) (.of_mark closes (by decide))
  rw [List.cons_append, List.append_assoc, List.singleton_append, suffixes,
    bind_of_ok (differs.accept_eq (by simp)), if_neg (by simp),
    bind_of_ok (differs.accept_eq (by simp)), if_neg (by simp),
    bind_of_ok (accept_of_isMark (isMark_of_mark opens)), if_pos rfl, bind_of_ok keyTaken,
    bind_of_ok (expect_of_isMark (isMark_of_mark closes))]

theorem reads_number {x : Float} (kind : t.kind = .number)
    (number : Text.tokenNumber? t.text = some x) :
    Reads .primary 0 [t] (.number (.double x)) := by
  intro budget depth rest _ _ _
  simp only [reader, primary, List.singleton_append]
  rw [bind_of_ok get_apply]
  simp only [kind, number]
  rfl

theorem reads_text {content : Text} (kind : t.kind = .string)
    (literal : Text.literalValue? t.text = some content) :
    Reads .primary 0 [t] (.text content) := by
  intro budget depth rest _ _ _
  simp only [reader, primary, List.singleton_append]
  rw [bind_of_ok get_apply]
  simp only [kind, Node.literal, literal]
  rfl

theorem reads_name (isName : Name name t) : Reads .primary 0 [t] (.identifier name) := by
  intro budget depth rest _ _ _
  simp only [reader, primary, List.singleton_append]
  rw [bind_of_ok get_apply]
  simp only [isName.1, isName.2]
  rfl

theorem reads_parentheses (opens : Mark "(" opening) (inner : Reads .expression n ts e)
    (closes : Mark ")" closing) : Reads .primary (n + 3) (opening :: (ts ++ [closing])) e := by
  intro budget depth rest fits shallow _
  simp only [List.length_append, List.length_cons, List.length_nil, below] at fits shallow
  have taken : expression Node.literal budget depth (ts ++ closing :: rest) =
      .ok (e, closing :: rest) :=
    inner budget depth _ (by omega) (by simp only [below]; omega) (.of_mark closes (by decide))
  rw [List.cons_append, List.append_assoc, List.singleton_append, reader, primary,
    bind_of_ok get_apply]
  simp only [opens.1, isMark_of_mark opens, if_true]
  rw [bind_of_ok set_apply, bind_of_ok taken,
    bind_of_ok (expect_of_isMark (isMark_of_mark closes))]
  rfl

theorem reads_array (opens : Mark "[" opening) (items : ReadsItems n ts args)
    (closes : Mark "]" closing) :
    Reads .primary n (opening :: (ts ++ [closing])) (.array args) := by
  intro budget depth rest fits shallow _
  simp only [List.length_append, List.length_cons, List.length_nil, below] at fits shallow
  have taken := items budget depth rest "]" closing (by omega) (by omega) closes (by decide)
  have noParentheses := isMark_eq_false (isMark_of_mark opens) (show "(" ≠ "[" by decide)
  rw [List.cons_append, List.append_assoc, List.singleton_append, reader, primary,
    bind_of_ok get_apply]
  simp only [opens.1, noParentheses, isMark_of_mark opens, if_true]
  rw [if_neg (by simp), bind_of_ok set_apply, bind_of_ok taken]
  rfl

/-- The tokens are read as at least one expression, with commas in between. -/
def ReadsItemsFrom (nesting : Nat) (ts : List Token) (es : List Node) : Prop :=
  ∀ budget depth fuel rest, ts.length ≤ budget → nesting + 3 ≤ depth → ts.length ≤ fuel →
    Avoids ("," :: continuations .expression) rest →
    ReadsList (expression Node.literal budget depth) fuel ts rest es

theorem ReadsItemsFrom.mono {es : List Node} (items : ReadsItemsFrom m ts es) (le : m ≤ n) :
    ReadsItemsFrom n ts es :=
  fun budget depth fuel rest fits shallow => items budget depth fuel rest fits (by omega)

theorem readsItemsFrom_last (inner : Reads .expression n ts e) : ReadsItemsFrom n ts [e] := by
  intro budget depth fuel rest fits shallow _ avoids
  refine .last ?_ (avoids.mono (by simp))
  exact inner budget depth rest fits shallow (avoids.mono (by simp))

theorem readsItemsFrom_more {es : List Node} (first : Reads .expression m ts e) (comma : Mark "," t)
    (others : ReadsItemsFrom n us es) : ReadsItemsFrom (max m n) (ts ++ t :: us) (e :: es) := by
  intro budget depth fuel rest fits shallow enough avoids
  simp only [List.length_append, List.length_cons] at fits shallow enough
  obtain ⟨fuel, rfl⟩ : ∃ n, fuel = n + 1 := ⟨fuel - 1, by omega⟩
  have firstTaken := first budget depth (t :: (us ++ rest)) (by omega) (by simp only [below]; omega)
    (.of_mark comma (by decide))
  exact .more firstTaken comma
    (others budget depth fuel rest (by omega) (by omega) (by omega) avoids)

theorem readsItems_none : ReadsItems 0 [] [] :=
  fun _ _ _ _ _ _ _ closes _ => itemsUntil_of_mark closes

theorem readsItems_some {es : List Node} (items : ReadsItemsFrom n ts es)
    (opens : ∃ t us, ts = t :: us ∧ Phrase.expression.Opens t) : ReadsItems (n + 3) ts es := by
  intro budget depth rest closing t fits shallow closes isClosing
  obtain ⟨first, us, rfl, opens⟩ := opens
  have closingsDiffer : ∀ text ∈ [")", "]"], text ∉ "," :: continuations .expression ∧
      text ∉ ["(", "[", "!", "-", "+", Lexeme.callKeyword] := by decide
  -- the closing mark ends the last item, and no first item begins with it
  obtain ⟨noContinuation, noOpening⟩ := closingsDiffer closing isClosing
  have list := items budget depth budget (t :: rest) fits shallow fits
    (.of_mark closes noContinuation)
  refine list.itemsUntil_eq closes (.of_opens opens ?_)
  intro text member
  rw [List.mem_singleton.1 member]
  exact noOpening

end

/-! ### Phrases without operators -/

section

variable {n : Nat} {e : Node}

theorem reads_operand {level : Precedence} (inner : Reads level.operand n ts e) :
    Reads (.operation level) n ts e :=
  (reachesOperator_operand inner).reads

/-- What has no operator with two operands is an operand at every level. -/
theorem reads_expression_of_signed (inner : Reads .signed n ts e) : Reads .expression n ts e := by
  have product : Reads (.operation .product) n ts e := reads_operand inner
  have sum : Reads (.operation .sum) n ts e := reads_operand product
  have comparison : Reads (.operation .comparison) n ts e := reads_operand sum
  have equality : Reads (.operation .equality) n ts e := reads_operand comparison
  have conjunction : Reads (.operation .conjunction) n ts e := reads_operand equality
  exact reads_operation (reads_operand conjunction)

theorem reads_signed_of_primary (inner : Reads .primary n ts e)
    (opens : ∃ t us, ts = t :: us ∧ OpensChain t) : Reads .signed n ts e := by
  have chained : Reads .chain n ts e := (reachesSuffix_primary inner).reads
  have updatable : Reads .updated n ts e := reads_unchanged (reads_unmarked chained opens)
  obtain ⟨t, us, same, opens⟩ := opens
  exact reads_unsigned updatable ⟨t, us, same, .inl opens⟩

end

-- One rule of the grammar at a time: each case only applies the lemma of its rule. Every level of
-- nesting comes with a token, three levels for a bracket and one for a sign or a call marker.
mutual

theorem expression_reaches {p : Phrase} {ts : List Token} {e : Node} :
    Expression p ts e → Reaches p (3 * (ts.length - 1)) ts e
  | .operation inner => reads_operation (expression_reaches inner).reads
  | .assignment target equals value =>
    have nonempty := value.length_pos
    (reads_assignment (expression_reaches target).reads equals
      (expression_reaches value).reads).mono
      (by simp only [List.length_append, List.length_cons]; omega)
  | .operand inner => reachesOperator_operand (expression_reaches inner).reads
  | .operator first mark isOperator second =>
    ReachesOperator.mono (reachesOperator_operator (expression_reaches first) mark
      isOperator (expression_reaches second).reads)
      (by simp only [List.length_append, List.length_cons]; omega)
  | .unsigned inner => reads_unsigned (expression_reaches inner).reads inner.opens
  | .signed mark isOperator inner =>
    have nonempty := inner.length_pos
    (reads_signed mark isOperator (expression_reaches inner).reads).mono
      (by simp only [List.length_cons]; omega)
  | .unchanged inner => reads_unchanged (expression_reaches inner).reads
  | .update target mark isOperator =>
    (reads_update (expression_reaches target).reads mark isOperator).mono
      (by simp only [List.length_append, List.length_cons]; omega)
  | .unmarked inner => reads_unmarked (expression_reaches inner).reads inner.opens
  | .marked marker inner =>
    have nonempty := inner.length_pos
    (reads_marked marker (expression_reaches inner).reads).mono
      (by simp only [List.length_cons]; omega)
  | .primary inner => reachesSuffix_primary (expression_reaches inner).reads
  | .call first opens items closes =>
    (reachesSuffix_call (expression_reaches first) opens (items_read items) closes).mono
      (by simp only [List.length_append, List.length_cons]; omega)
  | .property first isDot isName =>
    (reachesSuffix_property (expression_reaches first) isDot isName).mono
      (by simp only [List.length_append, List.length_cons]; omega)
  | .index first opens inner closes =>
    (reachesSuffix_index (expression_reaches first) opens (expression_reaches inner).reads
      closes).mono (by simp only [List.length_append, List.length_cons]; omega)
  | .number kind number => reads_number kind number
  | .text kind literal => reads_text kind literal
  | .name isName => reads_name isName
  | .parentheses opens inner closes =>
    (reads_parentheses opens (expression_reaches inner).reads closes).mono
      (by simp only [List.length_append, List.length_cons]; omega)
  | .array opens items closes =>
    (reads_array opens (items_read items) closes).mono
      (by simp only [List.length_append, List.length_cons]; omega)

theorem items_read {ts : List Token} {es : List Node} :
    Items ts es → ReadsItems (3 * ts.length) ts es
  | .none => readsItems_none
  | .some items =>
    have nonempty := items.length_pos
    (readsItems_some (itemsFrom_read items) items.opens).mono (by omega)

theorem itemsFrom_read {ts : List Token} {es : List Node} :
    ItemsFrom ts es → ReadsItemsFrom (3 * (ts.length - 1)) ts es
  | .last inner => readsItemsFrom_last (expression_reaches inner).reads
  | .more first comma others =>
    (readsItemsFrom_more (expression_reaches first).reads comma (itemsFrom_read others)).mono
      (by simp only [List.length_append, List.length_cons]; omega)

end

/-! ### Parts of statements -/

section

variable {budget depth : Nat} {closing : Token}

omit [CharacterNames] in
theorem parametersFrom_read {names : List Text} (derived : ParametersFrom ts names) {fuel : Nat}
    (enough : ts.length ≤ fuel) (avoids : Avoids [","] rest) :
    ReadsList identifier fuel ts rest names := by
  induction derived generalizing fuel with
  | last isName => exact .last (identifier_of_name isName) avoids
  | @more ts t comma name names isName isComma _ ih =>
    simp only [List.length_cons] at enough
    obtain ⟨fuel, rfl⟩ : ∃ n, fuel = n + 1 := ⟨fuel - 1, by omega⟩
    have firstTaken :
        identifier ([t] ++ comma :: (ts ++ rest)) = .ok (name, comma :: (ts ++ rest)) :=
      identifier_of_name isName
    exact .more firstTaken isComma (ih (by omega))

omit [CharacterNames] in
theorem parameters_read {names : List Text} (derived : Parameters ts names)
    (fits : ts.length ≤ budget) (closes : Mark ")" closing) :
    itemsUntil budget identifier ")" (ts ++ closing :: rest) = .ok (names, rest) := by
  cases derived with
  | none => exact itemsUntil_of_mark closes
  | some names =>
    have ends : Avoids [","] (closing :: rest) := .of_mark closes (by decide)
    refine (parametersFrom_read names fits ends).itemsUntil_eq closes ?_
    cases names with
    | last isName | more isName =>
      intro u next text _
      cases next
      simp [Token.isMark, isName.1]

/-- An expression in front of a mark that does not continue it. -/
theorem expression_read {e : Node} (derived : Expression .expression ts e)
    (fits : ts.length ≤ budget) (shallow : 3 * ts.length ≤ depth) (mark : Mark text t)
    (ends : text ∈ [";", ")"]) :
    expression Node.literal budget depth (ts ++ t :: rest) = .ok (e, t :: rest) := by
  have endsDiffer : ∀ text ∈ [";", ")"], text ∉ continuations .expression := by decide
  have nonempty := derived.length_pos
  exact (expression_reaches derived).reads budget depth _ fits (by simp only [below]; omega)
    (.of_mark mark (endsDiffer text ends))

omit [CharacterNames] in
theorem optional_present {e : Node} {expression : Reading Node} (isPresent : Avoids [text] ts)
    (taken : expression ts = .ok (e, rest)) :
    optionalUnless text expression ts = .ok (some e, rest) := by
  rw [optionalUnless, bind_of_ok (isPresent.sees_eq (by simp)), if_neg (by simp),
    bind_of_ok taken]
  rfl

theorem optional_read {e : Option Node} (derived : Optional ts e) (fits : ts.length ≤ budget)
    (shallow : 3 * ts.length ≤ depth) (mark : Mark text t) (ends : text ∈ [";", ")"]) :
    optionalUnless text (expression Node.literal budget depth) (ts ++ t :: rest) =
      .ok (e, t :: rest) := by
  cases derived with
  | absent =>
    rw [List.nil_append, optionalUnless, bind_of_ok (sees_of_isMark (isMark_of_mark mark))]
    rfl
  | present inner =>
    have endsDiffer : ∀ text ∈ [";", ")"],
        text ∉ ["(", "[", "!", "-", "+", Lexeme.callKeyword] := by decide
    have isPresent : Avoids [text] (ts ++ t :: rest) := .of_expression inner fun other member => by
      rw [List.mem_singleton.1 member]
      exact endsDiffer text ends
    exact optional_present isPresent (expression_read inner fits shallow mark ends)

theorem declaration_read {node : Node} (derived : Declaration ts node) (fits : ts.length ≤ budget)
    (shallow : 3 * ts.length ≤ depth) (mark : Mark ";" t) :
    declaration (expression Node.literal budget depth) (ts ++ t :: rest) =
      .ok (node, t :: rest) := by
  cases derived with
  | plain isLet isName =>
    have noValue : Avoids ["="] (t :: rest) := .of_mark mark (by decide)
    rw [List.cons_append, List.singleton_append, declaration,
      bind_of_ok (expect_of_isMark (isMark_of_keyword isLet)),
      bind_of_ok (identifier_of_name isName),
      bind_of_ok (noValue.accept_eq (by simp))]
    rfl
  | initialized isLet isName equals inner =>
    simp only [List.length_cons] at fits shallow
    rw [List.cons_append, List.cons_append, List.cons_append, declaration,
      bind_of_ok (expect_of_isMark (isMark_of_keyword isLet)),
      bind_of_ok (identifier_of_name isName),
      bind_of_ok (accept_of_isMark (isMark_of_mark equals)), if_pos rfl,
      bind_of_ok (expression_read inner (by omega) (by omega) mark (by decide))]
    rfl

end

/-! ### Rules of statements -/

section

variable {inLoop : Bool} {node test : Node} {body : List Node} {name : Text}
  {keyword opening closing ending : Token}

/-- The tokens are read as a statement. After a conditional statement, `else` would continue it. -/
def ReadsStatement (inLoop : Bool) (ts : List Token) (node : Node) : Prop :=
  ∀ budget depth rest, ts.length ≤ budget → 3 * ts.length ≤ depth → Avoids ["else"] rest →
    statement Node.literal budget depth inLoop (ts ++ rest) = .ok (node, rest)

def ReadsConditional (inLoop : Bool) (ts : List Token) (node : Node) : Prop :=
  ∀ budget depth rest, ts.length ≤ budget → 3 * ts.length ≤ depth + 1 → Avoids ["else"] rest →
    conditional Node.literal budget depth inLoop (ts ++ rest) = .ok (node, rest)

def ReadsBlock (inLoop : Bool) (ts : List Token) (body : List Node) : Prop :=
  ∀ budget depth rest, ts.length ≤ budget → 3 * ts.length ≤ depth + 3 →
    block budget (statement Node.literal budget depth inLoop) (ts ++ rest) = .ok (body, rest)

/-- The tokens are read as statements, up to the brace that closes their block. -/
def ReadsStatements (inLoop : Bool) (ts : List Token) (body : List Node) : Prop :=
  ∀ budget depth fuel before closing rest, ts.length ≤ budget → 3 * ts.length ≤ depth →
    ts.length < fuel → Mark "\x7d" closing →
    statementsUntil (statement Node.literal budget depth inLoop) fuel before
      (ts ++ closing :: rest) = .ok (before.reverse ++ body, rest)

theorem readsStatement_function {params : List Text} (isFunction : Keyword "function" keyword)
    (isName : Name name t) (opens : Mark "(" opening) (parameters : Parameters ts params)
    (closes : Mark ")" closing) (inner : ReadsBlock false us body) :
    ReadsStatement inLoop (keyword :: t :: opening :: (ts ++ closing :: us))
      (.function name params body) := by
  intro budget depth rest fits shallow _
  simp only [List.length_append, List.length_cons] at fits shallow
  obtain ⟨depth, rfl⟩ : ∃ d, depth = d + 1 := ⟨depth - 1, by omega⟩
  have bodyTaken := inner budget depth rest (by omega) (by omega)
  rw [List.cons_append, List.cons_append, List.cons_append, List.append_assoc, List.cons_append,
    statement, bind_of_ok get_apply]
  -- the keyword alone decides which function goes on
  simp only [isFunction.1, isFunction.2]
  show function _ _ _ = _
  rw [function, bind_of_ok (expect_of_isMark (isMark_of_keyword isFunction)),
    bind_of_ok (identifier_of_name isName), bind_of_ok (expect_of_isMark (isMark_of_mark opens)),
    bind_of_ok (parameters_read parameters (by omega) closes), bind_of_ok bodyTaken]
  rfl

theorem readsStatement_declaration (declared : Declaration ts node) (ends : Mark ";" t) :
    ReadsStatement inLoop (ts ++ [t]) node := by
  intro budget depth rest fits shallow _
  simp only [List.length_append, List.length_cons, List.length_nil] at fits shallow
  obtain ⟨depth, rfl⟩ : ∃ d, depth = d + 1 := ⟨depth - 1, by omega⟩
  have taken : declaration (expression Node.literal budget depth) (ts ++ t :: rest) =
      .ok (node, t :: rest) := declaration_read declared (by omega) (by omega) ends
  rw [List.append_assoc, List.singleton_append, statement, bind_of_ok get_apply]
  obtain ⟨keyword, us, rfl, isLet⟩ := declared.opens
  simp only [List.cons_append, isLet.1, isLet.2] at taken ⊢
  show (declaration _ >>= _) _ = _
  rw [bind_of_ok taken, bind_of_ok (expect_of_isMark (isMark_of_mark ends))]
  rfl

theorem readsStatement_whileLoop (isWhile : Keyword "while" keyword) (opens : Mark "(" opening)
    (tested : Expression .expression ts test) (closes : Mark ")" closing)
    (inner : ReadsBlock true us body) :
    ReadsStatement inLoop (keyword :: opening :: (ts ++ closing :: us)) (.whileLoop test body) := by
  intro budget depth rest fits shallow _
  simp only [List.length_append, List.length_cons] at fits shallow
  obtain ⟨depth, rfl⟩ : ∃ d, depth = d + 1 := ⟨depth - 1, by omega⟩
  have bodyTaken := inner budget depth rest (by omega) (by omega)
  rw [List.cons_append, List.cons_append, List.append_assoc, List.cons_append, statement,
    bind_of_ok get_apply]
  simp only [isWhile.1, isWhile.2]
  show whileLoop _ _ _ = _
  rw [whileLoop, bind_of_ok (expect_of_isMark (isMark_of_keyword isWhile)),
    bind_of_ok (expect_of_isMark (isMark_of_mark opens)),
    bind_of_ok (expression_read tested (by omega) (by omega) closes (by decide)),
    bind_of_ok (expect_of_isMark (isMark_of_mark closes)), bind_of_ok bodyTaken]
  rfl

/-- The two ways to start a counting loop go on in the same way. -/
theorem initial_read {budget depth : Nat} {init : Option Node} {next : Option Node → Reading α}
    (derived : Initial ts init) (fits : ts.length ≤ budget) (shallow : 3 * ts.length ≤ depth)
    (ends : Mark ";" t) :
    (sees "let" >>= fun found =>
      if found then some <$> declaration (expression Node.literal budget depth) >>= next
      else optionalUnless ";" (expression Node.literal budget depth) >>= next)
      (ts ++ t :: rest) = next init (t :: rest) := by
  cases derived with
  | @declaration node declared =>
    have taken : (some <$> declaration (expression Node.literal budget depth)) (ts ++ t :: rest) =
        .ok (some node, t :: rest) :=
      map_eq_ok.2 ⟨node, declaration_read declared fits shallow ends, rfl⟩
    obtain ⟨keyword, us, rfl, isLet⟩ := declared.opens
    rw [List.cons_append, bind_of_ok (sees_of_isMark (isMark_of_keyword isLet)), if_pos rfl]
    exact bind_of_ok taken
  | optional derived =>
    have noDeclaration : Avoids ["let"] (ts ++ t :: rest) := by
      cases derived with
      | absent => exact .of_mark ends (by decide)
      | present inner => exact .of_expression inner (by decide)
    rw [bind_of_ok (noDeclaration.sees_eq (by simp)), if_neg (by simp)]
    exact bind_of_ok (optional_read derived fits shallow ends (by decide))

theorem readsStatement_forLoop {vs ws : List Token} {first second : Token}
    {init test update : Option Node} (isFor : Keyword "for" keyword) (opens : Mark "(" opening)
    (started : Initial ts init) (isFirst : Mark ";" first) (tested : Optional us test)
    (isSecond : Mark ";" second) (updates : Optional vs update) (closes : Mark ")" closing)
    (inner : ReadsBlock true ws body) :
    ReadsStatement inLoop
      (keyword :: opening :: (ts ++ first :: (us ++ second :: (vs ++ closing :: ws))))
      (.forLoop init test update body) := by
  intro budget depth rest fits shallow _
  simp only [List.length_append, List.length_cons] at fits shallow
  obtain ⟨depth, rfl⟩ : ∃ d, depth = d + 1 := ⟨depth - 1, by omega⟩
  have bodyTaken := inner budget depth rest (by omega) (by omega)
  simp only [List.cons_append, List.append_assoc]
  rw [statement, bind_of_ok get_apply]
  simp only [isFor.1, isFor.2]
  show forLoop _ _ _ = _
  rw [forLoop, bind_of_ok (expect_of_isMark (isMark_of_keyword isFor)),
    bind_of_ok (expect_of_isMark (isMark_of_mark opens)),
    initial_read started (by omega) (by omega) isFirst]
  dsimp only
  rw [bind_of_ok (expect_of_isMark (isMark_of_mark isFirst)),
    bind_of_ok (optional_read tested (by omega) (by omega) isSecond (by decide)),
    bind_of_ok (expect_of_isMark (isMark_of_mark isSecond)),
    bind_of_ok (optional_read updates (by omega) (by omega) closes (by decide)),
    bind_of_ok (expect_of_isMark (isMark_of_mark closes)), bind_of_ok bodyTaken]
  rfl

theorem statement_returning {argument : Option Node} {budget depth : Nat}
    (isReturn : Keyword "return" keyword)
    (taken : optionalUnless ";" (expression Node.literal budget depth) ts =
      .ok (argument, t :: rest))
    (ends : Mark ";" t) :
    statement Node.literal budget (depth + 1) inLoop (keyword :: ts) =
      .ok (.returning argument, rest) := by
  rw [statement, bind_of_ok get_apply]
  simp only [isReturn.1, isReturn.2]
  show returning _ _ = _
  rw [returning, bind_of_ok (expect_of_isMark (isMark_of_keyword isReturn)), bind_of_ok taken,
    bind_of_ok (expect_of_isMark (isMark_of_mark ends))]
  rfl

theorem readsStatement_returning {argument : Option Node} (isReturn : Keyword "return" keyword)
    (derived : Optional ts argument) (ends : Mark ";" t) :
    ReadsStatement inLoop (keyword :: (ts ++ [t])) (.returning argument) := by
  intro budget depth rest fits shallow _
  simp only [List.length_append, List.length_cons, List.length_nil] at fits shallow
  obtain ⟨depth, rfl⟩ : ∃ d, depth = d + 1 := ⟨depth - 1, by omega⟩
  rw [List.cons_append, List.append_assoc, List.singleton_append]
  exact statement_returning isReturn (optional_read derived (by omega) (by omega) ends (by decide))
    ends

omit [CharacterNames] in
theorem jump_read (keyword : Token) (ends : Mark ";" ending) :
    jump true node (keyword :: ending :: rest) = .ok (node, rest) := by
  show (expect ";" >>= fun _ => pure node : Reading Node) (ending :: rest) = _
  rw [bind_of_ok (expect_of_isMark (isMark_of_mark ends))]
  rfl

theorem readsStatement_breakJump (isBreak : Keyword "break" keyword) (ends : Mark ";" ending) :
    ReadsStatement true [keyword, ending] .breakJump := by
  intro budget depth rest _ shallow _
  simp only [List.length_cons] at shallow
  obtain ⟨depth, rfl⟩ : ∃ d, depth = d + 1 := ⟨depth - 1, by omega⟩
  rw [List.cons_append, List.singleton_append, statement, bind_of_ok get_apply]
  simp only [isBreak.1, isBreak.2]
  exact jump_read keyword ends

theorem readsStatement_continueJump (isContinue : Keyword "continue" keyword)
    (ends : Mark ";" ending) : ReadsStatement true [keyword, ending] .continueJump := by
  intro budget depth rest _ shallow _
  simp only [List.length_cons] at shallow
  obtain ⟨depth, rfl⟩ : ∃ d, depth = d + 1 := ⟨depth - 1, by omega⟩
  rw [List.cons_append, List.singleton_append, statement, bind_of_ok get_apply]
  simp only [isContinue.1, isContinue.2]
  exact jump_read keyword ends

theorem readsStatement_conditional (inner : ReadsConditional inLoop ts node)
    (opens : ∃ t us, ts = t :: us ∧ Keyword "if" t) : ReadsStatement inLoop ts node := by
  intro budget depth rest fits shallow avoids
  obtain ⟨keyword, us, rfl, isIf⟩ := opens
  simp only [List.length_cons] at shallow
  obtain ⟨depth, rfl⟩ : ∃ d, depth = d + 1 := ⟨depth - 1, by omega⟩
  rw [List.cons_append, statement, bind_of_ok get_apply]
  simp only [isIf.1, isIf.2]
  exact inner budget depth rest fits (by simp only [List.length_cons]; omega) avoids

theorem readsStatement_block (inner : ReadsBlock inLoop ts body)
    (opens : ∃ t us, ts = t :: us ∧ Mark "\x7b" t) : ReadsStatement inLoop ts (.block body) := by
  intro budget depth rest fits shallow _
  obtain ⟨opening, us, rfl, opens⟩ := opens
  simp only [List.length_cons] at shallow
  obtain ⟨depth, rfl⟩ : ∃ d, depth = d + 1 := ⟨depth - 1, by omega⟩
  have taken := inner budget depth rest fits (by simp only [List.length_cons]; omega)
  rw [List.cons_append] at taken ⊢
  rw [statement, bind_of_ok get_apply]
  dsimp only
  rw [if_neg (by simp [opens.1]), if_pos (isMark_of_mark opens), bind_of_ok taken]
  rfl

theorem readsStatement_expression {e : Node} (derived : Expression .expression ts e)
    (ends : Mark ";" t) : ReadsStatement inLoop (ts ++ [t]) (.statement e) := by
  intro budget depth rest fits shallow _
  simp only [List.length_append, List.length_cons, List.length_nil] at fits shallow
  obtain ⟨depth, rfl⟩ : ∃ d, depth = d + 1 := ⟨depth - 1, by omega⟩
  have taken : expression Node.literal budget depth (ts ++ t :: rest) = .ok (e, t :: rest) :=
    expression_read derived (by omega) (by omega) ends (by decide)
  have noBlock : Avoids ["\x7b"] (ts ++ t :: rest) := .of_expression derived (by decide)
  obtain ⟨first, us, rfl, opens⟩ := derived.opens
  -- of the keywords only the call marker begins an expression
  have noKeyword : ¬(first.kind = .keyword ∧ first.text ≠ Lexeme.callKeyword) := by
    rintro ⟨kind, differs⟩
    rcases opens with (opens | marker) | ⟨op, _, mark⟩
    · cases kind.symm.trans (opens.text_mem (.inr kind)).1
    · exact differs marker.2
    · cases kind.symm.trans mark.1
  rw [List.append_assoc, List.singleton_append, List.cons_append] at *
  rw [statement, bind_of_ok get_apply]
  dsimp only
  rw [if_neg noKeyword, if_neg (by simp [noBlock first rfl _ (List.mem_singleton.2 rfl)]),
    expressionStatement, bind_of_ok taken, bind_of_ok (expect_of_isMark (isMark_of_mark ends))]
  rfl

theorem readsConditional_alone (isIf : Keyword "if" keyword) (opens : Mark "(" opening)
    (tested : Expression .expression ts test) (closes : Mark ")" closing)
    (inner : ReadsBlock inLoop us body) :
    ReadsConditional inLoop (keyword :: opening :: (ts ++ closing :: us))
      (.conditional test body none) := by
  intro budget depth rest fits shallow avoids
  simp only [List.length_append, List.length_cons] at fits shallow
  obtain ⟨depth, rfl⟩ : ∃ d, depth = d + 1 := ⟨depth - 1, by omega⟩
  have bodyTaken := inner budget depth rest (by omega) (by omega)
  rw [List.cons_append, List.cons_append, List.append_assoc, List.cons_append, conditional,
    bind_of_ok (expect_of_isMark (isMark_of_keyword isIf)),
    bind_of_ok (expect_of_isMark (isMark_of_mark opens)),
    bind_of_ok (expression_read tested (by omega) (by omega) closes (by decide)),
    bind_of_ok (expect_of_isMark (isMark_of_mark closes)), bind_of_ok bodyTaken,
    bind_of_ok (avoids.accept_eq (by simp))]
  rfl

section

variable {vs : List Token} {otherwise : Token}

/-- Up to the `else`, both forms of an alternative are read in the same way. -/
theorem conditional_else {budget depth : Nat} (isIf : Keyword "if" keyword)
    (opens : Mark "(" opening) (tested : Expression .expression ts test)
    (closes : Mark ")" closing) (inner : ReadsBlock inLoop us body)
    (isElse : Keyword "else" otherwise) (fits : ts.length + us.length ≤ budget)
    (shallow : 3 * (ts.length + us.length) ≤ depth) :
    conditional Node.literal budget (depth + 1) inLoop
        (keyword :: opening :: (ts ++ closing :: (us ++ otherwise :: rest))) =
      (sees "if" >>= fun found =>
        if found then do
          let alternate ← conditional Node.literal budget depth inLoop
          return .conditional test body (some alternate)
        else do
          let alternate ← block budget (statement Node.literal budget depth inLoop)
          return .conditional test body (some (.block alternate)) : Reading Node) rest := by
  have bodyTaken := inner budget depth (otherwise :: rest) (by omega) (by omega)
  rw [conditional, bind_of_ok (expect_of_isMark (isMark_of_keyword isIf)),
    bind_of_ok (expect_of_isMark (isMark_of_mark opens)),
    bind_of_ok (expression_read tested (by omega) (by omega) closes (by decide)),
    bind_of_ok (expect_of_isMark (isMark_of_mark closes)), bind_of_ok bodyTaken,
    bind_of_ok (accept_of_isMark (isMark_of_keyword isElse)), if_pos rfl]

theorem readsConditional_elseBlock {alternate : List Node} (isIf : Keyword "if" keyword)
    (opens : Mark "(" opening) (tested : Expression .expression ts test)
    (closes : Mark ")" closing) (inner : ReadsBlock inLoop us body)
    (isElse : Keyword "else" otherwise) (second : ReadsBlock inLoop vs alternate)
    (braces : ∃ t ws, vs = t :: ws ∧ Mark "\x7b" t) :
    ReadsConditional inLoop (keyword :: opening :: (ts ++ closing :: (us ++ otherwise :: vs)))
      (.conditional test body (some (.block alternate))) := by
  intro budget depth rest fits shallow _
  simp only [List.length_append, List.length_cons] at fits shallow
  obtain ⟨depth, rfl⟩ : ∃ d, depth = d + 1 := ⟨depth - 1, by omega⟩
  have secondTaken := second budget depth rest (by omega) (by omega)
  -- after `else`, a brace tells a block from another conditional statement
  have noCondition : Avoids ["if"] (vs ++ rest) := by
    obtain ⟨t, ws, rfl, brace⟩ := braces
    exact .of_mark brace (by decide)
  simp only [List.cons_append, List.append_assoc]
  rw [conditional_else isIf opens tested closes inner isElse (by omega) (by omega),
    bind_of_ok (noCondition.sees_eq (by simp)), if_neg (by simp), bind_of_ok secondTaken]
  rfl

theorem readsConditional_elseIf {alternate : Node} (isIf : Keyword "if" keyword)
    (opens : Mark "(" opening) (tested : Expression .expression ts test)
    (closes : Mark ")" closing) (inner : ReadsBlock inLoop us body)
    (isElse : Keyword "else" otherwise) (second : ReadsConditional inLoop vs alternate)
    (starts : ∃ t ws, vs = t :: ws ∧ Keyword "if" t) :
    ReadsConditional inLoop (keyword :: opening :: (ts ++ closing :: (us ++ otherwise :: vs)))
      (.conditional test body (some alternate)) := by
  intro budget depth rest fits shallow avoids
  simp only [List.length_append, List.length_cons] at fits shallow
  obtain ⟨depth, rfl⟩ : ∃ d, depth = d + 1 := ⟨depth - 1, by omega⟩
  have secondTaken := second budget depth rest (by omega) (by omega) avoids
  have seen : sees "if" (vs ++ rest) = .ok (true, vs ++ rest) := by
    obtain ⟨t, ws, rfl, isNestedIf⟩ := starts
    exact sees_of_isMark (isMark_of_keyword isNestedIf)
  simp only [List.cons_append, List.append_assoc]
  rw [conditional_else isIf opens tested closes inner isElse (by omega) (by omega),
    bind_of_ok seen, if_pos rfl, bind_of_ok secondTaken]
  rfl

end

theorem readsBlock_braces (opens : Mark "\x7b" opening) (inner : ReadsStatements inLoop ts body)
    (closes : Mark "\x7d" closing) : ReadsBlock inLoop (opening :: (ts ++ [closing])) body := by
  intro budget depth rest fits shallow
  simp only [List.length_append, List.length_cons, List.length_nil] at fits shallow
  have taken := inner budget depth budget [] closing rest (by omega) (by omega) (by omega) closes
  rw [List.cons_append, List.append_assoc, List.singleton_append, block,
    bind_of_ok (expect_of_isMark (isMark_of_mark opens))]
  exact taken

theorem readsStatements_done : ReadsStatements inLoop [] [] := by
  intro budget depth fuel before closing rest _ _ enough closes
  obtain ⟨fuel, rfl⟩ : ∃ n, fuel = n + 1 := ⟨fuel - 1, by omega⟩
  rw [List.nil_append, statementsUntil, bind_of_ok (accept_of_isMark (isMark_of_mark closes)),
    if_pos rfl, List.append_nil]
  rfl

theorem readsStatements_separator (separates : Mark ";" t)
    (inner : ReadsStatements inLoop ts body) :
    ReadsStatements inLoop (t :: ts) body := by
  intro budget depth fuel before closing rest fits shallow enough closes
  simp only [List.length_cons] at fits shallow enough
  obtain ⟨fuel, rfl⟩ : ∃ n, fuel = n + 1 := ⟨fuel - 1, by omega⟩
  have notClosed : Avoids ["\x7d"] (t :: (ts ++ closing :: rest)) := .of_mark separates (by decide)
  rw [List.cons_append, statementsUntil, bind_of_ok (notClosed.accept_eq (by simp)),
    if_neg (by simp), bind_of_ok get_apply, if_neg (by simp),
    bind_of_ok (accept_of_isMark (isMark_of_mark separates)), if_pos rfl]
  exact inner budget depth fuel before closing rest (by omega) (by omega) (by omega) closes

/-- A statement does not begin with a mark that separates statements, closes their block or
continues a conditional statement. -/
theorem Avoids.of_statement (derived : Statement inLoop ts node) (rest : List Token) :
    Avoids [";", "\x7d", "else"] (ts ++ rest) := by
  obtain ⟨t, us, rfl, opens | ⟨text, isKeyword, keyword⟩ | brace⟩ := derived.opens
  · exact .of_opens opens (by decide)
  · have keywordsDiffer : ∀ text ∈ ["function", "let", "if", "for", "while", "return", "break",
        "continue"], text ∉ [";", "\x7d", "else"] := by decide
    exact .of_isMark (isMark_of_keyword keyword) (keywordsDiffer text isKeyword)
  · exact .of_mark brace (by decide)

theorem Avoids.of_statements (derived : Statements inLoop ts body) (avoids : Avoids ["else"] rest) :
    Avoids ["else"] (ts ++ rest) := by
  cases derived with
  | done => exact avoids
  | separator separates => exact .of_mark separates (by decide)
  | next first =>
    rw [List.append_assoc]
    exact (Avoids.of_statement first _).mono (by decide)

theorem readsStatements_next (derived : Statement inLoop ts node)
    (first : ReadsStatement inLoop ts node) (rests : Statements inLoop us body)
    (others : ReadsStatements inLoop us body) :
    ReadsStatements inLoop (ts ++ us) (node :: body) := by
  intro budget depth fuel before closing rest fits shallow enough closes
  have starts := Avoids.of_statement derived (us ++ closing :: rest)
  -- the next statement does not begin with `else`, so it is not taken for a part of this one
  have ends : Avoids ["else"] (us ++ closing :: rest) :=
    .of_statements rests (.of_mark closes (by decide))
  obtain ⟨t, vs, rfl, _⟩ := derived.opens
  simp only [List.length_append, List.length_cons] at fits shallow enough
  obtain ⟨fuel, rfl⟩ : ∃ n, fuel = n + 1 := ⟨fuel - 1, by omega⟩
  have firstTaken := first budget depth (us ++ closing :: rest)
    (by simp only [List.length_cons]; omega) (by simp only [List.length_cons]; omega) ends
  have othersTaken := others budget depth fuel (node :: before) closing rest (by omega) (by omega)
    (by omega) closes
  rw [List.append_assoc, statementsUntil, bind_of_ok (starts.accept_eq (by simp)),
    if_neg (by simp), bind_of_ok get_apply, if_neg (by simp),
    bind_of_ok (starts.accept_eq (by simp)), if_neg (by simp), bind_of_ok firstTaken, othersTaken]
  simp

end

mutual

theorem statement_reads {inLoop : Bool} {ts : List Token} {node : Node} :
    Statement inLoop ts node → ReadsStatement inLoop ts node
  | .function isFunction isName opens parameters closes body =>
    readsStatement_function isFunction isName opens parameters closes (block_reads body)
  | .declaration declared ends => readsStatement_declaration declared ends
  | .conditional inner => readsStatement_conditional (conditional_reads inner) inner.opens
  | .forLoop isFor opens started isFirst tested isSecond updates closes body =>
    readsStatement_forLoop isFor opens started isFirst tested isSecond updates closes
      (block_reads body)
  | .whileLoop isWhile opens tested closes body =>
    readsStatement_whileLoop isWhile opens tested closes (block_reads body)
  | .returning isReturn argument ends => readsStatement_returning isReturn argument ends
  | .breakJump isBreak ends => readsStatement_breakJump isBreak ends
  | .continueJump isContinue ends => readsStatement_continueJump isContinue ends
  | .block inner => readsStatement_block (block_reads inner) inner.opens
  | .expression inner ends => readsStatement_expression inner ends

theorem conditional_reads {inLoop : Bool} {ts : List Token} {node : Node} :
    Conditional inLoop ts node → ReadsConditional inLoop ts node
  | .alone isIf opens tested closes body =>
    readsConditional_alone isIf opens tested closes (block_reads body)
  | .elseBlock isIf opens tested closes body isElse alternate =>
    readsConditional_elseBlock isIf opens tested closes (block_reads body) isElse
      (block_reads alternate) alternate.opens
  | .elseIf isIf opens tested closes body isElse alternate =>
    readsConditional_elseIf isIf opens tested closes (block_reads body) isElse
      (conditional_reads alternate) alternate.opens

theorem block_reads {inLoop : Bool} {ts : List Token} {body : List Node} :
    Block inLoop ts body → ReadsBlock inLoop ts body
  | .braces opens inner closes => readsBlock_braces opens (statements_read inner) closes

theorem statements_read {inLoop : Bool} {ts : List Token} {body : List Node} :
    Statements inLoop ts body → ReadsStatements inLoop ts body
  | .done => readsStatements_done
  | .separator separates inner => readsStatements_separator separates (statements_read inner)
  | .next first others =>
    readsStatements_next first (statement_reads first) others (statements_read others)

end

/-! ### Programs -/

theorem statementsToEnd_read {budget depth : Nat} {inLoop : Bool} :
    ∀ {ts : List Token} {body before : List Node} {fuel : Nat}, Statements inLoop ts body →
      ts.length ≤ budget → 3 * ts.length ≤ depth → ts.length < fuel →
      statementsToEnd (statement Node.literal budget depth inLoop) fuel before ts =
        .ok (before.reverse ++ body, [])
  | _, _, before, fuel + 1, .done, _, _, _ => by
    rw [statementsToEnd, bind_of_ok get_apply, if_pos List.isEmpty_nil, List.append_nil]
    rfl
  | _, _, before, fuel + 1, .separator separates inner, fits, shallow, enough => by
    simp only [List.length_cons] at fits shallow enough
    rw [statementsToEnd, bind_of_ok get_apply, if_neg (by simp),
      bind_of_ok (accept_of_isMark (isMark_of_mark separates)), if_pos rfl]
    exact statementsToEnd_read inner (by omega) (by omega) (by omega)
  | _, _, before, fuel + 1, @Statements.next _ _ ts us node body first others, fits, shallow,
      enough => by
    have starts := Avoids.of_statement first us
    have ends : Avoids ["else"] us := by simpa using Avoids.of_statements others Avoids.nil
    obtain ⟨t, vs, rfl, _⟩ := first.opens
    simp only [List.length_append, List.length_cons] at fits shallow enough
    have firstTaken := statement_reads first budget depth us
      (by simp only [List.length_cons]; omega) (by simp only [List.length_cons]; omega) ends
    rw [statementsToEnd, bind_of_ok get_apply, if_neg (by simp),
      bind_of_ok (starts.accept_eq (by simp)), if_neg (by simp), bind_of_ok firstTaken,
      statementsToEnd_read others (by omega) (by omega) (by omega)]
    simp

/-- A program of a single statement. -/
theorem program_of_statement {limit : Nat} {node : Node} (starts : Avoids [";"] (t :: ts))
    (taken : statement Node.literal (t :: ts).length limit false (t :: ts) = .ok (node, [])) :
    program Node.literal limit (t :: ts) = .ok (.program [node]) := by
  have toEnd : statementsToEnd (statement Node.literal (t :: ts).length limit false)
      ((t :: ts).length + 1) [] (t :: ts) = .ok ([node], []) := by
    rw [statementsToEnd, bind_of_ok get_apply, if_neg (by simp),
      bind_of_ok (starts.accept_eq (by simp)), if_neg (by simp), bind_of_ok taken]
    rfl
  unfold program
  dsimp only [StateT.run]
  rw [toEnd]

/-- A program is read as its tree, if the limit is three times the number of its tokens. -/
theorem program_read {limit : Nat} {tokens : List Token} {tree : Node}
    (derived : Program tokens tree) (deep : 3 * tokens.length ≤ limit) :
    program Node.literal limit tokens = .ok tree := by
  cases derived with
  | statements derived =>
    unfold program
    dsimp only [StateT.run]
    rw [statementsToEnd_read derived (Nat.le_refl _) deep (Nat.lt_succ_self _)]
    rfl

/-- Within the nesting limit, a program is read as its tree. -/
theorem ofTokens_of_program {tokens : List Token} {tree : Node} (derived : Program tokens tree) :
    Node.ofTokens tokens = .ok tree ∨ Node.ofTokens tokens = .error .nestedTooDeeply := by
  unfold Node.ofTokens Tree.ofTokens
  -- a smaller limit gives the same answer as one that is deep enough, or none
  rcases program_of_le Node.literal (Nat.le_max_left Tree.nestingLimit (3 * tokens.length)) tokens
    with limited | same
  · rw [limited]
    exact .inr rfl
  · rw [same, program_read derived (Nat.le_max_right _ _)]
    exact .inl rfl

/-- Reading tokens decides the grammar: without a nesting limit in the way, the trees that tokens
are read as are those that the grammar gives them, and the grammar gives them one at most. -/
theorem reading_decides_grammar (tokens : List Token) (scannable : ∀ t ∈ tokens, t.Scannable) :
    (∀ tree limit, 3 * tokens.length ≤ limit →
      (program Node.literal limit tokens = .ok tree ↔ Program tokens tree)) ∧
    (∀ tree, Node.ofTokens tokens = .ok tree ↔
      Program tokens tree ∧ Node.ofTokens tokens ≠ .error .nestedTooDeeply) ∧
    ∀ tree other, Program tokens tree → Program tokens other → tree = other := by
  have lexical : ∀ t ∈ tokens, t.Lexical := fun t member => (scannable t member).lexical
  refine ⟨fun tree limit deep => ?_, fun tree => ?_, fun tree other first second => ?_⟩
  · exact ⟨program_derived lexical, fun derived => program_read derived deep⟩
  · constructor
    · intro returned
      exact ⟨program_of_ofTokens lexical returned, by rw [returned]; simp⟩
    · rintro ⟨derived, notLimited⟩
      exact (ofTokens_of_program derived).resolve_right notLimited
  · -- both are what the same tokens are read as
    have read := program_read first (Nat.le_refl _)
    rw [program_read second (Nat.le_refl _)] at read
    cases read
    rfl

end

/-- The marker in front of a call leaves no trace, subtraction groups to the left, and assignment is
looser than both. -/
theorem reading_decides_grammar_marked_call :
    let _ : CharacterNames := .none
    let tokens : List Token :=
      [ ⟨.identifier, "a", ⟨1, 1⟩⟩, ⟨.punctuation, "=", ⟨1, 3⟩⟩, ⟨.keyword, "call", ⟨1, 5⟩⟩,
        ⟨.identifier, "f", ⟨1, 12⟩⟩, ⟨.punctuation, "(", ⟨1, 13⟩⟩, ⟨.punctuation, ")", ⟨1, 14⟩⟩,
        ⟨.punctuation, "-", ⟨1, 16⟩⟩, ⟨.identifier, "b", ⟨1, 18⟩⟩, ⟨.punctuation, "-", ⟨1, 20⟩⟩,
        ⟨.identifier, "c", ⟨1, 22⟩⟩, ⟨.punctuation, ";", ⟨1, 23⟩⟩ ]
    (∀ t ∈ tokens, t.Scannable) ∧
      Program tokens
        (.program [.statement (.assignment "a" (.binary "-" (.binary "-"
          (.call (.identifier "f") []) (.identifier "b")) (.identifier "c")))]) := by
  intro names tokens
  have scannable : ∀ t ∈ tokens, t.Scannable :=
    Token.scannable_of_scan (show Token.scan "a = hop on f() - b - c;" = .ok tokens from rfl)
  exact ⟨scannable, (((reading_decides_grammar tokens scannable).2.1 _).1 rfl).1⟩

end YapLang.Reading
