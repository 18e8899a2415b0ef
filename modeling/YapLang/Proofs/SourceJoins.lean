import YapLang.Proofs.GrammarCompleteness
import YapLang.Proofs.LineBreaks

/-!
# Programs one after another

Two source texts, the second one on lines of its own, are read as the statements of the first one
followed by those of the second one. The tokens of a program are settled: an operand follows every
slash and no operand begins with a star, and the last token of a statement is a mark. So the two
texts are cut apart, and the grammar puts their statements together.
-/
namespace YapLang.Grammar

/-! ### Slashes and stars -/

/-- The token is neither a slash nor a star. -/
def Plain (t : Token) : Prop :=
  ¬Mark "/" t ∧ ¬Mark "*" t

theorem Mark.plain {text : String} {t : Token} (mark : Mark text t)
    (other : text ≠ "/" ∧ text ≠ "*") : Plain t :=
  ⟨fun slash => other.1 (mark.2.symm.trans slash.2), fun star => other.2 (mark.2.symm.trans star.2)⟩

theorem Mark.plain_of_mem {text : String} {texts : List String} {t : Token} (mark : Mark text t)
    (listed : text ∈ texts) (others : ∀ text ∈ texts, text ≠ "/" ∧ text ≠ "*") : Plain t :=
  mark.plain (others text listed)

theorem plain_of_kind {t : Token} {kind : Token.Kind} (isKind : t.kind = kind)
    (other : kind ≠ .punctuation) : Plain t :=
  ⟨fun slash => other (isKind.symm.trans slash.1), fun star => other (isKind.symm.trans star.1)⟩

theorem Keyword.plain {text : String} {t : Token} (keyword : Keyword text t) : Plain t :=
  plain_of_kind keyword.1 (by decide)

theorem Name.plain {name : Text} {t : Token} (isName : Name name t) : Plain t :=
  plain_of_kind isName.1 (by decide)

/-- No slash stands in front of a star, and neither can come to stand so beside other phrases. -/
structure Solid (ts : List Token) : Prop where
  apart : ts.IsChain fun t u => ¬(Mark "/" t ∧ Mark "*" u)
  first : ∀ t ∈ ts.head?, ¬Mark "*" t
  last : ∀ t ∈ ts.getLast?, ¬Mark "/" t

namespace Solid

variable {ts us : List Token} {t : Token}

theorem nil : Solid [] :=
  ⟨.nil, by simp, by simp⟩

theorem single (plain : Plain t) : Solid [t] :=
  ⟨.singleton t, by simpa using plain.2, by simpa using plain.1⟩

theorem append (front : Solid ts) (back : Solid us) : Solid (ts ++ us) := by
  constructor
  · refine List.isChain_append.2 ⟨front.apart, back.apart, ?_⟩
    intro t last u _ both
    exact front.last t last both.1
  · intro t first
    cases ts with
    | nil => exact back.first t first
    | cons u ts => exact front.first t first
  · intro t last
    rw [List.getLast?_append, Option.mem_def, Option.or_eq_some_iff] at last
    -- the last token is that of the back, unless the back is empty
    rcases last with inBack | ⟨_, inFront⟩
    · exact back.last t inBack
    · exact front.last t inFront

theorem cons (back : Solid us) (plain : Plain t) : Solid (t :: us) :=
  (single plain).append back

theorem enclosed {u : Token} (opening : Plain t) (inner : Solid ts) (closing : Plain u) :
    Solid (t :: (ts ++ [u])) :=
  (inner.append (single closing)).cons opening

/-- Any operator may stand between two operands. -/
theorem operator (front : Solid ts) (left : 0 < ts.length) (back : Solid us)
    (right : 0 < us.length) : Solid (ts ++ t :: us) := by
  constructor
  · refine List.isChain_append.2 ⟨front.apart, List.isChain_cons.2 ⟨?_, back.apart⟩, ?_⟩
    -- after a slash comes an operand, which does not begin with a star
    · intro u first both
      exact back.first u first both.2
    -- and in front of a star stands one, which does not end in a slash
    · intro u last _ _ both
      exact front.last u last both.1
  · intro u first
    cases ts with
    | nil => simp at left
    | cons v ts => exact front.first u first
  · intro u last
    obtain ⟨us, v, rfl⟩ :=
      List.eq_nil_or_concat us |>.resolve_left (List.ne_nil_of_length_pos right)
    refine back.last u ?_
    simpa [List.getLast?_append, List.getLast?_cons] using last

end Solid

theorem ParametersFrom.solid {ts : List Token} {names : List Text} :
    ParametersFrom ts names → Solid ts
  | .last name => .single name.plain
  | .more name comma rest => (rest.solid.cons (comma.plain (by decide))).cons name.plain

theorem Parameters.solid {ts : List Token} {names : List Text} (params : Parameters ts names) :
    Solid ts := by
  cases params with
  | none => exact .nil
  | some inner => exact inner.solid

section

variable [CharacterNames]

mutual

theorem Expression.solid {p : Phrase} {ts : List Token} {e : Node} :
    Expression p ts e → Solid ts
  | .operation inner | .operand inner | .unsigned inner | .unchanged inner | .unmarked inner
  | .primary inner => inner.solid
  | .assignment first equals second =>
    first.solid.append (second.solid.cons (equals.plain (by decide)))
  | .operator first _ _ second =>
    first.solid.operator first.length_pos second.solid second.length_pos
  | .signed mark listed inner => inner.solid.cons (mark.plain_of_mem listed (by decide))
  | .update inner mark listed =>
    inner.solid.append (.single (mark.plain_of_mem listed (by decide)))
  | .marked marker inner => inner.solid.cons marker.plain
  | .call inner opening items closing =>
    inner.solid.append
      (.enclosed (opening.plain (by decide)) items.solid (closing.plain (by decide)))
  | .property inner dot name =>
    inner.solid.append ((Solid.single name.plain).cons (dot.plain (by decide)))
  | .index inner opening key closing =>
    inner.solid.append (.enclosed (opening.plain (by decide)) key.solid (closing.plain (by decide)))
  | .number kind _ | .text kind _ => .single (plain_of_kind kind (by decide))
  | .name isName => .single isName.plain
  | .parentheses opening inner closing =>
    .enclosed (opening.plain (by decide)) inner.solid (closing.plain (by decide))
  | .array opening items closing =>
    .enclosed (opening.plain (by decide)) items.solid (closing.plain (by decide))

theorem Items.solid {ts : List Token} {es : List Node} : Items ts es → Solid ts
  | .none => .nil
  | .some items => items.solid

theorem ItemsFrom.solid {ts : List Token} {es : List Node} : ItemsFrom ts es → Solid ts
  | .last first => first.solid
  | .more first comma rest => first.solid.append (rest.solid.cons (comma.plain (by decide)))

end

theorem Optional.solid {ts : List Token} {e : Option Node} (optional : Optional ts e) :
    Solid ts := by
  cases optional with
  | absent => exact .nil
  | present inner => exact inner.solid

theorem Declaration.solid {ts : List Token} {node : Node} (declared : Declaration ts node) :
    Solid ts := by
  cases declared with
  | plain keyword name => exact (Solid.single name.plain).cons keyword.plain
  | initialized keyword name equals init =>
    exact ((init.solid.cons (equals.plain (by decide))).cons name.plain).cons keyword.plain

theorem Initial.solid {ts : List Token} {init : Option Node} (initial : Initial ts init) :
    Solid ts := by
  cases initial with
  | declaration declared => exact declared.solid
  | optional inner => exact inner.solid

mutual

theorem Statement.solid {inLoop : Bool} {ts : List Token} {node : Node} :
    Statement inLoop ts node → Solid ts
  | .function keyword name opening params closing body =>
    (((params.solid.append (body.solid.cons (closing.plain (by decide)))).cons
      (opening.plain (by decide))).cons name.plain).cons keyword.plain
  | .declaration declared mark => declared.solid.append (.single (mark.plain (by decide)))
  | .conditional inner => inner.solid
  | .forLoop keyword opening init first test second update closing body =>
    ((init.solid.append ((test.solid.append ((update.solid.append
      (body.solid.cons (closing.plain (by decide)))).cons (second.plain (by decide)))).cons
        (first.plain (by decide)))).cons (opening.plain (by decide))).cons keyword.plain
  | .whileLoop keyword opening test closing body =>
    ((test.solid.append (body.solid.cons (closing.plain (by decide)))).cons
      (opening.plain (by decide))).cons keyword.plain
  | .returning keyword argument mark =>
    .enclosed keyword.plain argument.solid (mark.plain (by decide))
  | .breakJump keyword mark | .continueJump keyword mark =>
    (Solid.single (mark.plain (by decide))).cons keyword.plain
  | .block inner => inner.solid
  | .expression inner mark => inner.solid.append (.single (mark.plain (by decide)))

theorem Conditional.solid {inLoop : Bool} {ts : List Token} {node : Node} :
    Conditional inLoop ts node → Solid ts
  | .alone keyword opening test closing body =>
    ((test.solid.append (body.solid.cons (closing.plain (by decide)))).cons
      (opening.plain (by decide))).cons keyword.plain
  | .elseBlock keyword opening test closing body otherwise alternate =>
    ((test.solid.append ((body.solid.append (alternate.solid.cons otherwise.plain)).cons
      (closing.plain (by decide)))).cons (opening.plain (by decide))).cons keyword.plain
  | .elseIf keyword opening test closing body otherwise alternate =>
    ((test.solid.append ((body.solid.append (alternate.solid.cons otherwise.plain)).cons
      (closing.plain (by decide)))).cons (opening.plain (by decide))).cons keyword.plain

theorem Block.solid {inLoop : Bool} {ts : List Token} {body : List Node} :
    Block inLoop ts body → Solid ts
  | .braces opening inner closing =>
    .enclosed (opening.plain (by decide)) inner.solid (closing.plain (by decide))

theorem Statements.solid {inLoop : Bool} {ts : List Token} {body : List Node} :
    Statements inLoop ts body → Solid ts
  | .done => .nil
  | .separator mark rest => rest.solid.cons (mark.plain (by decide))
  | .next first rest => first.solid.append rest.solid

end

end

/-! ### How statements end -/

/-- The last token is a punctuation mark. -/
def EndsInMark (ts : List Token) : Prop :=
  ∃ t ∈ ts.getLast?, t.kind = .punctuation

theorem EndsInMark.single {text : String} {t : Token} (mark : Mark text t) : EndsInMark [t] :=
  ⟨t, rfl, mark.1⟩

theorem EndsInMark.append {us : List Token} (back : EndsInMark us) (ts : List Token) :
    EndsInMark (ts ++ us) := by
  obtain ⟨t, last, kind⟩ := back
  exact ⟨t, by simp [List.getLast?_append, Option.mem_def.1 last], kind⟩

theorem EndsInMark.cons {us : List Token} (back : EndsInMark us) (t : Token) :
    EndsInMark (t :: us) :=
  back.append [t]

variable [CharacterNames]

theorem Block.endsInMark {inLoop : Bool} {ts : List Token} {body : List Node}
    (block : Block inLoop ts body) : EndsInMark ts := by
  cases block with
  | braces _ _ closing => exact ((EndsInMark.single closing).append _).cons _

theorem Conditional.endsInMark {inLoop : Bool} {ts : List Token} {node : Node} :
    Conditional inLoop ts node → EndsInMark ts
  | .alone _ _ _ _ body => (((body.endsInMark.cons _).append _).cons _).cons _
  | .elseBlock _ _ _ _ _ _ alternate =>
    (((((alternate.endsInMark.cons _).append _).cons _).append _).cons _).cons _
  | .elseIf _ _ _ _ _ _ alternate =>
    (((((alternate.endsInMark.cons _).append _).cons _).append _).cons _).cons _

theorem Statement.endsInMark {inLoop : Bool} {ts : List Token} {node : Node}
    (statement : Statement inLoop ts node) : EndsInMark ts := by
  cases statement with
  | function _ _ _ _ _ body => exact ((((body.endsInMark.cons _).append _).cons _).cons _).cons _
  | declaration _ mark | expression _ mark => exact (EndsInMark.single mark).append _
  | conditional inner => exact inner.endsInMark
  | forLoop _ _ _ _ _ _ _ _ body =>
    exact
      (((((((body.endsInMark.cons _).append _).cons _).append _).cons _).append _).cons _).cons _
  | whileLoop _ _ _ _ body => exact (((body.endsInMark.cons _).append _).cons _).cons _
  | returning _ _ mark => exact ((EndsInMark.single mark).append _).cons _
  | breakJump _ mark | continueJump _ mark => exact (EndsInMark.single mark).cons _
  | block inner => exact inner.endsInMark

theorem Statements.endsInMark {inLoop : Bool} {ts : List Token} {body : List Node} :
    Statements inLoop ts body → ts = [] ∨ EndsInMark ts
  | .done => .inl rfl
  | .separator mark rest => by
    right
    rcases rest.endsInMark with rfl | ends
    · exact .single mark
    · exact ends.cons _
  | .next first rest => by
    right
    rcases rest.endsInMark with rfl | ends
    · rw [List.append_nil]
      exact first.endsInMark
    · exact ends.append _

/-- Nothing on a later line can change the tokens of statements. -/
theorem Statements.settled {inLoop : Bool} {ts : List Token} {body : List Node}
    (statements : Statements inLoop ts body) : Lexeme.Settled (ts.map Token.shape) := by
  constructor
  · rw [List.isChain_map]
    refine statements.solid.apart.imp fun t u apart both => apart ?_
    exact ⟨Prod.mk.inj both.1, Prod.mk.inj both.2⟩
  · rcases statements.endsInMark with rfl | ⟨t, last, kind⟩
    · simp
    · rw [List.getLast?_map, Option.mem_def.1 last]
      simp [Token.shape, kind]

theorem Statements.append {inLoop : Bool} {ts us : List Token} {body body' : List Node} :
    Statements inLoop ts body → Statements inLoop us body' →
      Statements inLoop (ts ++ us) (body ++ body')
  | .done, back => back
  | .separator mark rest, back => .separator mark (rest.append back)
  | .next first rest, back => by
    rw [List.append_assoc]
    exact .next first (rest.append back)

end YapLang.Grammar

namespace YapLang.Reading

/-! ### Programs of the same tokens -/

/-- Tokens of the same shapes are the same tokens in other places. -/
theorem map_placed_of_shapes {ts us : List Token} (same : ts.map Token.shape = us.map Token.shape)
    (p : Position) :
    ts.map (Token.placed fun _ => p) = us.map (Token.placed fun _ => p) := by
  have factor :
      Token.placed (fun _ => p) = (fun shape => ⟨shape.1, shape.2, p⟩) ∘ Token.shape := rfl
  rw [factor, ← List.map_map, ← List.map_map, same]

theorem program_of_shapes [CharacterNames] {ts us : List Token}
    (same : ts.map Token.shape = us.map Token.shape) {limit : Nat} {tree : Node}
    (read : program Node.literal limit ts = .ok tree) :
    program Node.literal limit us = .ok tree := by
  -- all tokens are moved to one place, where only their shapes are left
  have moved := program_placed Node.literal (fun _ => Position.start) limit ts
  rw [map_placed_of_shapes same, program_placed, read] at moved
  cases other : program Node.literal limit us with
  | error rejection =>
    rw [other] at moved
    cases moved
  | ok tree' =>
    rw [other] at moved
    cases moved
    rfl

end YapLang.Reading

namespace YapLang.Node

open Reading

section

variable [CharacterNames]

/-- The source text is a program of these statements, however deep they are nested. -/
def IsProgram (source : String) (body : List Node) : Prop :=
  ∃ tokens limit, Token.scan source = .ok tokens ∧
    program literal limit tokens = .ok (.program body)

theorem isProgram_of_ofSource {source : String} {body : List Node}
    (parsed : ofSource source = .ok (.program body)) : IsProgram source body := by
  unfold ofSource at parsed
  cases scanned : Token.scan source with
  | error e =>
    rw [scanned] at parsed
    cases parsed
  | ok tokens =>
    rw [scanned] at parsed
    have parsed : ofTokens tokens = .ok (.program body) := parsed
    unfold ofTokens Tree.ofTokens at parsed
    split at parsed
    next tree read =>
      cases parsed
      exact ⟨tokens, Tree.nestingLimit, scanned, read⟩
    · cases parsed

theorem IsProgram.statements {source : String} {body : List Node}
    (isProgram : IsProgram source body) :
    ∃ tokens, Lexeme.Splits source.toList (tokens.map Token.shape) ∧
      Grammar.Statements false tokens body := by
  obtain ⟨tokens, limit, scanned, read⟩ := isProgram
  have derived := program_derived (Token.lexical_of_scan scanned) read
  cases derived with
  | statements derived => exact ⟨tokens, Lexeme.splits_of_scan scanned, derived⟩

/-- Source text that is cut into tokens of the shapes of a program is that program. -/
theorem isProgram_of_splits {source : String} {tokens : List Token} {body : List Node}
    (splits : Lexeme.Splits source.toList (tokens.map Token.shape))
    (derived : Grammar.Statements false tokens body) :
    IsProgram source body ∧
      (ofSource source = .ok (.program body) ∨ ofSource source = .error .nestedTooDeeply) := by
  obtain ⟨scanned, found, same⟩ := Lexeme.scan_of_splits splits
  -- what is scanned has these shapes in other places, and places do not matter
  have read := program_of_shapes same.symm (program_read (.statements derived) (Nat.le_refl _))
  have lexical := Token.lexical_of_scan found
  refine ⟨⟨scanned, _, found, read⟩, ?_⟩
  have source : ofSource source = ofTokens scanned := by
    rw [ofSource, found]
    rfl
  rw [source]
  exact ofTokens_of_program (program_derived lexical read)

/-- Two source texts that are programs are one program if the second one stands on lines of its own:
it has the statements of both, and only the nesting limit can keep it from being read. -/
theorem joined_sources_join_programs (first second : String) (body body' : List Node)
    (isFirst : IsProgram first body) (isSecond : IsProgram second body') :
    IsProgram (first ++ "\n" ++ second) (body ++ body') ∧
      (ofSource (first ++ "\n" ++ second) = .ok (.program (body ++ body')) ∨
        ofSource (first ++ "\n" ++ second) = .error .nestedTooDeeply) := by
  obtain ⟨ts, splits, derived⟩ := isFirst.statements
  obtain ⟨us, splits', derived'⟩ := isSecond.statements
  -- the tokens of the first text are settled, so the line break keeps the two apart
  have joined := splits.line derived.settled splits'
  have source : (first ++ "\n" ++ second).toList = first.toList ++ '\n' :: second.toList := by
    simp [String.toList_append]
  rw [← source, ← List.map_append] at joined
  exact isProgram_of_splits joined (derived.append derived')

end

/-- A comment at the end of the first text ends there, and the condition of the first text does not
take up the statement that follows it. -/
theorem joined_sources_join_programs_comment :
    let _ : CharacterNames := .none
    let conditional : Node := .conditional (.identifier "a") [] none
    let division : Node := .statement (.binary "/" (.identifier "hop") (.identifier "a"))
    ofSource "if (a) \x7b\x7d // hop /*" = .ok (.program [conditional]) ∧
      ofSource "hop / a; // */" = .ok (.program [division]) ∧
      IsProgram ("if (a) \x7b\x7d // hop /*" ++ "\n" ++ "hop / a; // */")
        [conditional, division] := by
  intro names conditional division
  have first : ofSource "if (a) \x7b\x7d // hop /*" = .ok (.program [conditional]) := by
    rw [ofSource, Token.scan]
    simp only [String.reduceToList]
    rfl
  have second : ofSource "hop / a; // */" = .ok (.program [division]) := by
    rw [ofSource, Token.scan]
    simp only [String.reduceToList]
    rfl
  refine ⟨first, second, ?_⟩
  exact (joined_sources_join_programs _ _ _ _ (isProgram_of_ofSource first)
    (isProgram_of_ofSource second)).1

end YapLang.Node
