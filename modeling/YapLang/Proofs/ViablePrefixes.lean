import YapLang.Proofs.GrammarCompleteness
import YapLang.Proofs.Lookahead

/-!
# Rejected tokens and what could stand in their place

When reading stops, the tokens in front of the place where it stops can still become a program, and
with the token at that place they cannot. For the first half, each step that rejects a list is shown
to have taken the beginning of a phrase: what it was reading can be completed by tokens of source
text. That a phrase can be begun at all goes along, so a sequence of steps is completed by
completing the step that has stopped and then the steps after it. The second half is a matter of
lookahead.
-/
namespace YapLang

open Grammar

/-! ### Beginnings of phrases -/

/-- Tokens of source text can be put behind the given ones so that together they have the
property. -/
def Viable (D : List Token → Prop) (ts : List Token) : Prop :=
  ∃ more, (∀ t ∈ more, t.Scannable) ∧ D (ts ++ more)

namespace Viable

variable {D E : List Token → Prop} {ts : List Token}

theorem done (holds : D ts) : Viable D ts :=
  ⟨[], by simp, by rwa [List.append_nil]⟩

/-- Completing goes on where something else is complete. -/
theorem bind (viable : Viable D ts) (next : ∀ us, D us → Viable E us) : Viable E ts := by
  obtain ⟨more, scannable, holds⟩ := viable
  obtain ⟨others, alsoScannable, whole⟩ := next (ts ++ more) holds
  rw [List.append_assoc] at whole
  refine ⟨more ++ others, fun t member => ?_, whole⟩
  rcases List.mem_append.1 member with first | second
  · exact scannable t first
  · exact alsoScannable t second

theorem mono (viable : Viable D ts) (weaker : ∀ us, D us → E us) : Viable E ts :=
  viable.bind fun us holds => done (weaker us holds)

theorem shift (us : List Token) : Viable (fun vs => D (us ++ vs)) ts ↔ Viable D (us ++ ts) := by
  unfold Viable
  simp only [List.append_assoc]

/-- What is missing is a source text of its own. -/
theorem source {text : String} {tokens : List Token} (scanned : Token.scan text = .ok tokens)
    (holds : D (ts ++ tokens)) : Viable D ts :=
  ⟨tokens, Token.scannable_of_scan scanned, holds⟩

/-- One token is missing. -/
theorem token {kind : Token.Kind} {text : String}
    (scanned : Token.scan text = .ok [⟨kind, text, .start⟩])
    (holds : ∀ t : Token, t.kind = kind ∧ t.text = text → D (ts ++ [t])) : Viable D ts :=
  source scanned (holds _ ⟨rfl, rfl⟩)

end Viable

/-! ### Rejections after the beginning of a phrase -/

namespace TargetUse

/-- The kind of phrase that is read before it turns out to be a target. -/
def phrase : TargetUse → Phrase
  | assignment => .operation .disjunction
  | update => .marked

/-- What makes the phrase in front of it a target. -/
def operators : TargetUse → List String
  | assignment => ["="]
  | update => ["++", "--"]

end TargetUse

section

variable [CharacterNames]

/-- The list is divided into tokens that can become what was to be read, and those from the one on
at which it is rejected. A bad target is a phrase that is no name, and with a name in its place the
token after it would fit. Apart from their nesting, lexical tokens are rejected for no other
reason. -/
def Rejection.After (D : List Token → Prop) (s : List Token) : Rejection → Prop
  | unexpected _ rest => ∃ front, s = front ++ rest ∧ Viable D front
  | strayJump jump rest => ∃ front, s = front ++ rest ∧ rest.head? = some jump ∧ Viable D front
  | badTarget use start rest => ∃ before target e t,
      s = before ++ start ∧ start = target ++ rest ∧ rest.head? = some t ∧
      Expression use.phrase target e ∧ Reading.name? e = none ∧ (∃ op ∈ use.operators, Mark op t) ∧
      Viable D (before ++ target) ∧ ∀ name u, Name name u → Viable D (before ++ [u, t])
  | badNumber _ | unhashable _ => False
  | nestedTooDeeply => True

/-- What can become one thing can, behind other tokens, become another. -/
theorem Rejection.After.mono {D E : List Token → Prop} {s front : List Token}
    {rejection : Rejection} (after : rejection.After D s)
    (weaker : ∀ ts, Viable D ts → Viable E (front ++ ts)) : rejection.After E (front ++ s) := by
  cases rejection with
  | unexpected expected rest =>
    obtain ⟨ts, rfl, viable⟩ := after
    exact ⟨front ++ ts, by simp, weaker ts viable⟩
  | strayJump jump rest =>
    obtain ⟨ts, rfl, here, viable⟩ := after
    exact ⟨front ++ ts, by simp, here, weaker ts viable⟩
  | badTarget use start rest =>
    obtain ⟨before, target, e, t, rfl, rfl, here, derived, noName, operator, viable, named⟩ := after
    refine ⟨front ++ before, target, e, t, by simp, rfl, here, derived, noName, operator, ?_, ?_⟩
    · simpa using weaker _ viable
    · intro name u isName
      simpa using weaker _ (named name u isName)
  | badNumber | unhashable => exact after
  | nestedTooDeeply => trivial

/-- What can come after the given tokens can, with them, become the whole. -/
theorem Rejection.After.shift {D : List Token → Prop} {s front : List Token} {rejection : Rejection}
    (after : rejection.After (fun us => D (front ++ us)) s) : rejection.After D (front ++ s) :=
  after.mono fun _ => (Viable.shift front).1

end

namespace Reading

section

variable [CharacterNames]

variable {α β : Type}

/-- If the step rejects the list, it does so after tokens that can get the property. -/
def StopsAt (s : List Token) (x : Reading α) (D : List Token → Prop) : Prop :=
  ∀ ⦃rejection⦄, x s = .error rejection → rejection.After D s

/-- Whenever the step rejects lexical tokens, it does so after tokens that can get the property; and
there are tokens that have it. -/
structure Stops (x : Reading α) (D : List Token → Prop) : Prop where
  rejects : ∀ ⦃s⦄, (∀ t ∈ s, t.Lexical) → StopsAt s x D
  viable : Viable D []

/-- The step takes what is in the relation with its result, or stops after what can become that. -/
structure Follows (x : Reading α) (P : List Token → α → Prop) : Prop where
  yields : Yields x P
  stops : Stops x fun ts => ∃ a, P ts a

/-- A step that takes the first token without further question, and goes on. -/
theorem StopsAt.skip {x : Reading α} {D : List Token → Prop} {t : Token} {rest : List Token}
    (stops : Stops x fun us => D (t :: us)) (lexical : ∀ u ∈ t :: rest, u.Lexical) :
    StopsAt (t :: rest) (set rest >>= fun _ => x) D := by
  intro rejection rejected
  have rejected : x rest = .error rejection := rejected
  have after := stops.rejects (fun u member => lexical u (by simp [member])) rejected
  have shifted : rejection.After D ([t] ++ rest) := .shift after
  exact shifted

namespace Stops

variable {x : Reading α} {f : α → Reading β} {P : List Token → α → Prop} {D E : List Token → Prop}

theorem bind (first : Follows x P)
    (next : ∀ ts a, P ts a → Stops (f a) fun us => E (ts ++ us)) : Stops (x >>= f) E := by
  -- whatever the first step can take, the second one can be completed after it
  have further : ∀ ts, (∃ a, P ts a) → Viable E ts := by
    rintro ts ⟨a, derived⟩
    simpa using (Viable.shift ts).1 (next ts a derived).viable
  constructor
  · intro s lexical rejection rejected
    rcases bind_eq_error.1 rejected with stopped | ⟨a, s', taken, stopped⟩
    · have after := first.stops.rejects lexical stopped
      have whole : rejection.After E ([] ++ s) := after.mono fun ts viable => viable.bind further
      exact whole
    · obtain ⟨ts, rfl, derived⟩ := first.yields lexical taken
      have restLexical : ∀ t ∈ s', t.Lexical := fun t member => lexical t (by simp [member])
      exact .shift ((next ts a derived).rejects restLexical stopped)
  · exact first.stops.viable.bind further

theorem mono (stops : Stops x D) (weaker : ∀ ts, D ts → E ts) : Stops x E := by
  constructor
  · intro s lexical rejection rejected
    have after := stops.rejects lexical rejected
    have whole : rejection.After E ([] ++ s) := after.mono fun ts viable => viable.mono weaker
    exact whole
  · exact stops.viable.mono weaker

/-- A step that never rejects anything. -/
theorem passing (never : ∀ s rejection, x s ≠ .error rejection) (holds : D []) : Stops x D :=
  ⟨fun s _ rejection rejected => absurd rejected (never s rejection), .done holds⟩

theorem pure {a : α} (holds : D []) : Stops (Pure.pure a : Reading α) D :=
  passing (fun s rejection => by simp) holds

/-- What is made of the result does not matter. -/
theorem bind_pure {g : α → β} (stops : Stops x D) (weaker : ∀ ts, D ts → E ts) :
    Stops (x >>= fun a => Pure.pure (g a)) E := by
  constructor
  · intro s lexical rejection rejected
    rcases bind_eq_error.1 rejected with stopped | ⟨a, s', taken, ⟨⟩⟩
    exact (stops.mono weaker).rejects lexical stopped
  · exact stops.viable.mono weaker

theorem map {g : α → β} (stops : Stops x D) (weaker : ∀ ts, D ts → E ts) : Stops (g <$> x) E :=
  stops.bind_pure weaker

theorem rejecting {expected : String} (viable : Viable D []) :
    Stops (reject expected : Reading α) D := by
  refine ⟨fun s _ rejection rejected => ?_, viable⟩
  cases rejected
  exact ⟨[], rfl, viable⟩

theorem nested (viable : Viable D []) :
    Stops (throw Rejection.nestedTooDeeply : Reading α) D := by
  refine ⟨fun s _ rejection rejected => ?_, viable⟩
  cases rejected
  trivial

/-- A step that looks at the tokens before it takes any. -/
theorem peek {f : List Token → Reading α} (viable : Viable D [])
    (stops : ∀ s, (∀ t ∈ s, t.Lexical) → StopsAt s (f s) D) : Stops (get >>= f) D :=
  ⟨fun s lexical _ rejected => stops s lexical rejected, viable⟩

end Stops

/-! ### Single tokens -/

section

variable {f : α → Reading β} {x : Reading β} {D : List Token → Prop} {text : String}

theorem sees_follows : Follows (sees text) fun ts _ => ts = [] :=
  ⟨yields_sees, .passing (fun s rejection => by simp [sees]) ⟨true, rfl⟩⟩

theorem get_follows : Follows get fun ts _ => ts = [] :=
  ⟨yields_get, .passing (fun s rejection => by simp) ⟨[], rfl⟩⟩

omit [CharacterNames] in
theorem accept_ne_error (s : List Token) (rejection : Rejection) :
    accept text s ≠ .error rejection := by
  cases s with
  | nil => simp [accept]
  | cons t rest =>
    rw [accept]
    split
    · simp
    · simp

theorem accept_mark_follows (noKeyword : text ∉ Token.keywordTexts) :
    Follows (accept text) fun ts found =>
      found = true ∧ (∃ t, ts = [t] ∧ Mark text t) ∨ found = false ∧ ts = [] :=
  ⟨yields_accept_mark noKeyword, .passing accept_ne_error ⟨false, .inr ⟨rfl, rfl⟩⟩⟩

theorem accept_keyword_follows (noMark : text.toList ∉ Lexeme.marks) :
    Follows (accept text) fun ts found =>
      found = true ∧ (∃ t, ts = [t] ∧ Keyword text t) ∨ found = false ∧ ts = [] :=
  ⟨yields_accept_keyword noMark, .passing accept_ne_error ⟨false, .inr ⟨rfl, rfl⟩⟩⟩

theorem operator?_follows (texts : List String) :
    Follows (operator? texts) fun ts found =>
      (∃ t, ts = [t] ∧ found = some t.text ∧ Mark t.text t ∧ t.text ∈ texts) ∨
        ts = [] ∧ found = none := by
  refine ⟨yields_operator? texts, .passing (fun s rejection => ?_) ⟨none, .inr ⟨rfl, rfl⟩⟩⟩
  cases s with
  | nil => simp [operator?]
  | cons t rest =>
    rw [operator?]
    split
    · simp
    · simp

theorem stops_expect (viable : Viable D []) : Stops (expect text) D := by
  refine ⟨fun s lexical rejection rejected => ?_, viable⟩
  rcases bind_eq_error.1 rejected with stopped | ⟨found, s', taken, stopped⟩
  · exact absurd stopped (accept_ne_error s rejection)
  · cases found with
    | true => cases stopped
    | false =>
      obtain ⟨rfl, -⟩ := accept_eq_false.1 taken
      cases stopped
      exact ⟨[], rfl, viable⟩

/-- The given mark and what comes after it. -/
theorem Stops.expect_mark (noKeyword : text ∉ Token.keywordTexts)
    (scanned : Token.scan text = .ok [⟨.punctuation, text, .start⟩])
    (next : ∀ t, Mark text t → Stops x fun us => D (t :: us)) :
    Stops (expect text >>= fun _ => x) D := by
  have viable : Viable (fun ts => ∃ _ : Unit, ∃ t, ts = [t] ∧ Mark text t) [] :=
    .token scanned fun t mark => ⟨(), t, rfl, mark⟩
  refine .bind ⟨yields_expect_mark noKeyword, stops_expect viable⟩ ?_
  rintro _ _ ⟨t, rfl, mark⟩
  exact next t mark

/-- The given keyword and what comes after it. -/
theorem Stops.expect_keyword (noMark : text.toList ∉ Lexeme.marks)
    (scanned : Token.scan text = .ok [⟨.keyword, text, .start⟩])
    (next : ∀ t, Keyword text t → Stops x fun us => D (t :: us)) :
    Stops (expect text >>= fun _ => x) D := by
  have viable : Viable (fun ts => ∃ _ : Unit, ∃ t, ts = [t] ∧ Keyword text t) [] :=
    .token scanned fun t keyword => ⟨(), t, rfl, keyword⟩
  refine .bind ⟨yields_expect_keyword noMark, stops_expect viable⟩ ?_
  rintro _ _ ⟨t, rfl, keyword⟩
  exact next t keyword

theorem identifier_follows : Follows identifier fun ts name => ∃ t, ts = [t] ∧ Name name t := by
  have viable : Viable (fun ts => ∃ name t, ts = [t] ∧ Name name t) [] :=
    .token (show Token.scan "x" = .ok [⟨.identifier, "x", .start⟩] from rfl)
      fun t isName => ⟨"x", t, rfl, isName.1, congrArg Text.whole isName.2⟩
  refine ⟨yields_identifier, ⟨fun s lexical rejection rejected => ?_, viable⟩⟩
  cases s with
  | nil =>
    cases rejected
    exact ⟨[], rfl, viable⟩
  | cons t rest =>
    rw [identifier] at rejected
    split at rejected
    · cases rejected
    · cases rejected
      exact ⟨[], rfl, viable⟩

end

/-! ### Lists -/

section

variable {item : Reading α} {P : List Token → α → Prop} (From : List Token → List α → Prop)
  (items : Follows item P) (last : ∀ ts a, P ts a → From ts [a])
  (more : ∀ ts t us a as, P ts a → Mark "," t → From us as → From (ts ++ t :: us) (a :: as))
include items last more

theorem stops_moreItems (fuel : Nat) {ts : List Token} {a : α} (first : P ts a) :
    Stops (moreItems item fuel) fun us => ∃ as, From (ts ++ us) (a :: as) := by
  induction fuel generalizing ts a with
  | zero => exact .pure ⟨[], by simpa using last ts a first⟩
  | succ fuel ih =>
    refine .bind (accept_mark_follows (by decide)) ?_
    rintro _ found (⟨rfl, comma, rfl, isComma⟩ | ⟨rfl, rfl⟩)
    · refine .bind items fun us b second => (ih second).bind_pure ?_
      rintro vs ⟨bs, rest⟩
      exact ⟨b :: bs, by simpa using more ts comma (us ++ vs) a (b :: bs) first isComma rest⟩
    · exact .pure ⟨[], by simpa using last ts a first⟩

theorem stops_itemsUntil (budget : Nat) {closing : String}
    (noKeyword : closing ∉ Token.keywordTexts)
    (scanned : Token.scan closing = .ok [⟨.punctuation, closing, .start⟩]) :
    Stops (itemsUntil budget item closing) fun ts =>
      ∃ as us t, ts = us ++ [t] ∧ Mark closing t ∧ (us = [] ∧ as = [] ∨ From us as) := by
  refine .bind (accept_mark_follows noKeyword) ?_
  rintro _ found (⟨rfl, t, rfl, closes⟩ | ⟨rfl, rfl⟩)
  · exact .pure ⟨[], [], t, rfl, closes, .inl ⟨rfl, rfl⟩⟩
  · refine .bind items fun ts a first => ?_
    have others : Follows (moreItems item budget) fun us as => From (ts ++ us) (a :: as) := by
      refine ⟨?_, stops_moreItems From items last more budget first⟩
      have yields := yields_moreItems From items.yields last more budget
      exact yields.mono fun _ _ rest => rest ts a first
    refine .bind others fun us as rest => .expect_mark noKeyword scanned fun t closes => ?_
    exact .pure ⟨a :: as, ts ++ us, t, by simp, closes, .inr rest⟩

end

theorem arguments_follow {expression : Reading Node}
    (expressions : Follows expression (Expression .expression)) (budget : Nat) {closing : String}
    (noKeyword : closing ∉ Token.keywordTexts)
    (scanned : Token.scan closing = .ok [⟨.punctuation, closing, .start⟩]) :
    Follows (itemsUntil budget expression closing) fun ts as =>
      ∃ us t, ts = us ++ [t] ∧ Mark closing t ∧ Items us as := by
  refine ⟨yields_arguments expressions.yields budget noKeyword, ?_⟩
  refine (stops_itemsUntil ItemsFrom expressions (fun _ _ => .last) (fun _ _ _ _ _ => .more)
    budget noKeyword scanned).mono ?_
  rintro _ ⟨as, us, t, rfl, closes, ⟨rfl, rfl⟩ | items⟩
  · exact ⟨[], [], t, rfl, closes, .none⟩
  · exact ⟨as, us, t, rfl, closes, .some items⟩

theorem parameters_follow (budget : Nat) :
    Follows (itemsUntil budget identifier ")") fun ts names =>
      ∃ us t, ts = us ++ [t] ∧ Mark ")" t ∧ Parameters us names := by
  refine ⟨yields_parameters budget, ?_⟩
  refine (stops_itemsUntil ParametersFrom identifier_follows ?_ ?_ budget (by decide) rfl).mono ?_
  · rintro _ name ⟨t, rfl, isName⟩
    exact .last isName
  · rintro _ comma us name names ⟨t, rfl, isName⟩ isComma rest
    exact .more isName isComma rest
  · rintro _ ⟨names, us, t, rfl, closes, ⟨rfl, rfl⟩ | items⟩
    · exact ⟨[], [], t, rfl, closes, .none⟩
    · exact ⟨names, us, t, rfl, closes, .some items⟩

/-! ### Operators -/

/-- Whatever phrase of the level comes first, it can always be left as it is. -/
theorem stops_moreOperands {level : Precedence} {operand : Reading Node}
    (operands : Follows operand (Expression level.operand)) (fuel : Nat) {ts : List Token}
    {left : Node} (first : Expression (.operation level) ts left) :
    Stops (moreOperands (levelOfPrecedence level) operand fuel left) fun us =>
      ∃ e, Expression (.operation level) (ts ++ us) e := by
  have unchanged : ∃ e, Expression (.operation level) (ts ++ []) e := ⟨left, by simpa using first⟩
  induction fuel generalizing ts left with
  | zero => exact .pure unchanged
  | succ fuel ih =>
    refine .peek (.done unchanged) fun s lexical => ?_
    cases s with
    | nil => exact (Stops.pure unchanged).rejects lexical
    | cons t rest =>
      dsimp only
      split
      · exact (Stops.pure unchanged).rejects lexical
      next join joins =>
        obtain ⟨mark, isOperator, rfl⟩ := mark_of_level (lexical t (by simp)) joins
        refine .skip (.bind operands fun us right second => ?_) lexical
        have joined := Expression.operator first mark isOperator second
        simpa using ih joined ⟨_, by simpa using joined⟩

theorem levelOf_follows (level : Precedence) {operand : Reading Node}
    (operands : Follows operand (Expression level.operand)) (budget : Nat) :
    Follows (levelOf budget (levelOfPrecedence level) operand) (Expression (.operation level)) := by
  refine ⟨yields_levelOf level operands.yields budget, .bind operands fun ts left first => ?_⟩
  exact stops_moreOperands operands budget (.operand first)

theorem operators_follow {operand : Reading Node} (operands : Follows operand (Expression .signed))
    (budget : Nat) : Follows (operators budget operand) (Expression (.operation .disjunction)) := by
  rw [operators_eq]
  have products := levelOf_follows .product operands budget
  have sums := levelOf_follows .sum products budget
  have comparisons := levelOf_follows .comparison sums budget
  have equalities := levelOf_follows .equality comparisons budget
  have conjunctions := levelOf_follows .conjunction equalities budget
  exact levelOf_follows .disjunction conjunctions budget

/-! ### Expressions -/

/-- A name is a phrase of every kind. -/
theorem expression_of_name {name : Text} {t : Token} (isName : Name name t) (p : Phrase) :
    Expression p [t] (.identifier name) := by
  have signed : Expression .signed [t] (.identifier name) :=
    .unsigned (.unchanged (.unmarked (.primary (.name isName))))
  have operation (level : Precedence) : Expression (.operation level) [t] (.identifier name) := by
    have product : Expression (.operation .product) [t] (.identifier name) := .operand signed
    have sum : Expression (.operation .sum) [t] (.identifier name) := .operand product
    have comparison : Expression (.operation .comparison) [t] (.identifier name) := .operand sum
    have equality : Expression (.operation .equality) [t] (.identifier name) := .operand comparison
    have conjunction : Expression (.operation .conjunction) [t] (.identifier name) :=
      .operand equality
    cases level with
    | product => exact product
    | sum => exact sum
    | comparison => exact comparison
    | equality => exact equality
    | conjunction => exact conjunction
    | disjunction => exact .operand conjunction
  cases p with
  | expression => exact .operation (operation .disjunction)
  | operation level => exact operation level
  | signed => exact signed
  | updated => exact .unchanged (.unmarked (.primary (.name isName)))
  | marked => exact .unmarked (.primary (.name isName))
  | chain => exact .primary (.name isName)
  | primary => exact .name isName

theorem viable_expression (p : Phrase) : Viable (fun ts => ∃ e, Expression p ts e) [] :=
  .token (show Token.scan "x" = .ok [⟨.identifier, "x", .start⟩] from rfl)
    fun _ isName => ⟨_, expression_of_name ⟨isName.1, congrArg Text.whole isName.2⟩ p⟩

section

variable {expression : Reading Node} (expressions : Follows expression (Expression .expression))
include expressions

theorem primary_follows (budget : Nat) :
    Follows (primary Node.literal budget expression) (Expression .primary) := by
  have viable := viable_expression .primary
  refine ⟨yields_primary expressions.yields budget, .peek viable fun s lexical => ?_⟩
  cases s with
  | nil => exact (Stops.rejecting viable).rejects lexical
  | cons t rest =>
    dsimp only
    split
    next kind =>
      -- a number token of source text has a value
      obtain ⟨x, value⟩ := (lexical t (by simp)).exists_number kind
      rw [value]
      exact .skip (.pure ⟨_, .number kind value⟩) lexical
    next kind =>
      cases value : Text.literalValue? t.text with
      | none =>
        simp only [Node.literal, value]
        exact (Stops.rejecting viable).rejects lexical
      | some text =>
        simp only [Node.literal, value]
        exact .skip (.pure ⟨_, .text kind value⟩) lexical
    next kind => exact .skip (.pure ⟨_, .name ⟨kind, rfl⟩⟩) lexical
    · split
      next fits =>
        have opens := mark_of_isMark (lexical t (by simp)) fits (by decide)
        refine .skip (.bind expressions fun us inner derived => ?_) lexical
        refine .expect_mark (by decide) rfl fun closing closes => .pure ⟨inner, ?_⟩
        simpa using .parentheses opens derived closes
      · split
        next fits =>
          have opens := mark_of_isMark (lexical t (by simp)) fits (by decide)
          refine .skip ((arguments_follow expressions budget (by decide) rfl).stops.bind_pure ?_)
            lexical
          rintro _ ⟨elements, us, closing, rfl, closes, derived⟩
          exact ⟨.array elements, .array opens derived closes⟩
        · exact (Stops.rejecting viable).rejects lexical

/-- Whatever chain comes first, it can always be left as it is. -/
theorem stops_suffixes (budget fuel : Nat) {ts : List Token} {node : Node}
    (first : Expression .chain ts node) :
    Stops (suffixes budget expression fuel node) fun us => ∃ e, Expression .chain (ts ++ us) e := by
  induction fuel generalizing ts node with
  | zero => exact .pure ⟨node, by simpa using first⟩
  | succ fuel ih =>
    refine .bind (accept_mark_follows (by decide)) ?_
    rintro _ found (⟨rfl, opening, rfl, opens⟩ | ⟨rfl, rfl⟩)
    · refine .bind (arguments_follow expressions budget (by decide) rfl) ?_
      rintro _ args ⟨us, closing, rfl, closes, derived⟩
      simpa using ih (.call first opens derived closes)
    refine .bind (accept_mark_follows (by decide)) ?_
    rintro _ found (⟨rfl, dot, rfl, isDot⟩ | ⟨rfl, rfl⟩)
    · refine .bind identifier_follows ?_
      rintro _ name ⟨t, rfl, isName⟩
      simpa using ih (.property first isDot isName)
    refine .bind (accept_mark_follows (by decide)) ?_
    rintro _ found (⟨rfl, opening, rfl, opens⟩ | ⟨rfl, rfl⟩)
    · refine .bind expressions fun us key derived => .expect_mark (by decide) rfl ?_
      intro closing closes
      simpa using ih (.index first opens derived closes)
    · exact .pure ⟨node, by simpa using first⟩

end

/-- A phrase that is no name is a bad target in front of an operator that needs one. With a name,
the operator would fit. -/
theorem target_after {D : List Token → Prop} (use : TargetUse) {ts rest : List Token} {e : Node}
    {t : Token} {op : String} (derived : Expression use.phrase ts e) (noName : name? e = none)
    (member : op ∈ use.operators) (mark : Mark op t) (viable : Viable D ts)
    (named : ∀ name u, Name name u → Viable D [u, t]) :
    (Rejection.badTarget use (ts ++ t :: rest) (t :: rest)).After D (ts ++ t :: rest) :=
  ⟨[], ts, e, t, rfl, rfl, rfl, derived, noName, ⟨op, member, mark⟩, viable, named⟩

theorem updated_follows {operand : Reading Node} (operands : Follows operand (Expression .marked)) :
    Follows (updated operand) (Expression .updated) := by
  have viable := viable_expression .updated
  refine ⟨yields_updated operands.yields, .peek viable fun s lexical rejection rejected => ?_⟩
  -- the list as a whole is the start that is kept for the message, so it is not split off
  rcases bind_eq_error.1 rejected with stopped | ⟨node, s', taken, stopped⟩
  · refine (operands.stops.mono ?_).rejects lexical stopped
    rintro ts ⟨e, derived⟩
    exact ⟨e, .unchanged derived⟩
  · obtain ⟨ts, rfl, derived⟩ := operands.yields lexical taken
    cases s' with
    | nil => cases stopped
    | cons t rest =>
      rw [bind_of_ok get_apply] at stopped
      dsimp only at stopped
      split at stopped
      next fits =>
        obtain ⟨mark, isOperator⟩ := mark_of_isOperator fits
        have target (noName : name? node = none) :
            (Rejection.badTarget .update (ts ++ t :: rest) (t :: rest)).After
              (fun ts => ∃ e, Expression .updated ts e) (ts ++ t :: rest) := by
          refine target_after .update derived noName isOperator mark ?_ ?_
          · exact .done ⟨node, .unchanged derived⟩
          · intro name u isName
            exact .done ⟨_, .update (expression_of_name isName .marked) mark isOperator⟩
        -- a name is updated, and anything else is the bad target
        cases node
        case identifier => cases stopped
        all_goals
          cases stopped
          exact target rfl
      · cases stopped

/-- Without a call at its end, a marked phrase is a chain, and a call can still come after it. -/
theorem viable_call {ts : List Token} {e : Node} (derived : Expression .marked ts e)
    (noCall : isCall e = false) {marker : Token} (isMarker : Keyword Lexeme.callKeyword marker) :
    Viable (fun us => ∃ e, Expression .marked (marker :: (ts ++ us)) e) [] := by
  cases derived with
  | marked => cases noCall
  | unmarked chain =>
    have scanned : Token.scan "()" =
        .ok [⟨.punctuation, "(", ⟨1, 1⟩⟩, ⟨.punctuation, ")", ⟨1, 2⟩⟩] := rfl
    refine .source scanned ⟨.call e [], .marked isMarker (.unmarked ?_)⟩
    exact .call chain ⟨rfl, rfl⟩ .none ⟨rfl, rfl⟩

/-- An assignment can be completed once the mark has been read, and a phrase that is no target in
front of the mark. -/
theorem stops_expression {budget depth : Nat}
    (expressions : Follows (expression Node.literal budget depth) (Expression .expression))
    (operands : Follows (prefixed Node.literal budget depth) (Expression .signed)) :
    Stops (expression Node.literal budget (depth + 1)) fun ts =>
      ∃ e, Expression .expression ts e := by
  have lefts := operators_follow operands budget
  rw [expression]
  refine .peek (viable_expression .expression) fun s lexical rejection rejected => ?_
  rcases bind_eq_error.1 rejected with stopped | ⟨left, s', taken, stopped⟩
  · refine (lefts.stops.mono ?_).rejects lexical stopped
    rintro ts ⟨e, derived⟩
    exact ⟨e, .operation derived⟩
  · obtain ⟨ts, rfl, derived⟩ := lefts.yields lexical taken
    have restLexical : ∀ t ∈ s', t.Lexical := fun t member => lexical t (by simp [member])
    rcases bind_eq_error.1 stopped with ⟨⟨⟩⟩ | ⟨found, s'', ⟨⟩, decided⟩
    cases s' with
    | nil => cases decided
    | cons t rest =>
      split at decided
      next fits =>
        have isEquals := mark_of_isMark (restLexical t (by simp)) fits (by decide)
        have target (noName : name? left = none) :
            (Rejection.badTarget .assignment (ts ++ t :: rest) (t :: rest)).After
              (fun ts => ∃ e, Expression .expression ts e) (ts ++ t :: rest) := by
          have member : "=" ∈ TargetUse.assignment.operators := by simp [TargetUse.operators]
          refine target_after .assignment derived noName member isEquals ?_ ?_
          · exact .done ⟨left, .operation derived⟩
          · intro name u isName
            -- any value may come after the mark
            refine (Viable.shift [u, t]).1 ((viable_expression .expression).mono ?_)
            rintro us ⟨value, assigned⟩
            exact ⟨_, .assignment (expression_of_name isName _) isEquals assigned⟩
        cases left
        case identifier name =>
          have stops : Stops
              (expect "=" >>= fun _ => expression Node.literal budget depth >>= fun value =>
                Pure.pure (Tree.assignment name value))
              fun us => ∃ e, Expression .expression (ts ++ us) e := by
            refine .expect_mark (by decide) rfl fun equals isEquals => ?_
            refine expressions.stops.bind_pure ?_
            rintro us ⟨value, assigned⟩
            exact ⟨_, .assignment derived isEquals assigned⟩
          exact .shift (stops.rejects restLexical decided)
        all_goals
          cases decided
          exact target rfl
      · cases decided

theorem stops_prefixed {budget depth : Nat}
    (operands : Follows (prefixed Node.literal budget depth) (Expression .signed))
    (chains : Follows (chain Node.literal budget depth) (Expression .marked)) :
    Stops (prefixed Node.literal budget (depth + 1)) fun ts => ∃ e, Expression .signed ts e := by
  rw [prefixed]
  refine .bind (operator?_follows _) ?_
  rintro _ found (⟨t, rfl, rfl, mark, isOperator⟩ | ⟨rfl, rfl⟩)
  · refine operands.stops.bind_pure ?_
    rintro us ⟨operand, derived⟩
    exact ⟨.unary t.text operand, .signed mark isOperator derived⟩
  · refine (updated_follows chains).stops.mono ?_
    rintro us ⟨e, derived⟩
    exact ⟨e, .unsigned derived⟩

theorem stops_chain {budget depth : Nat}
    (expressions : Follows (expression Node.literal budget depth) (Expression .expression))
    (chains : Follows (chain Node.literal budget depth) (Expression .marked)) :
    Stops (chain Node.literal budget (depth + 1)) fun ts => ∃ e, Expression .marked ts e := by
  rw [chain]
  refine .bind (accept_keyword_follows (by decide)) ?_
  rintro _ found (⟨rfl, marker, rfl, isMarker⟩ | ⟨rfl, rfl⟩)
  -- what follows the marker has to be a call, and the call may still be missing
  · refine .bind chains fun ts node derived => ?_
    cases node
    case call callee args =>
      exact .pure ⟨.call callee args, by simpa using .marked isMarker derived⟩
    all_goals exact .rejecting (viable_call derived rfl isMarker)
  · refine .bind (primary_follows expressions budget) fun ts first derived => ?_
    refine (stops_suffixes expressions budget budget (.primary derived)).mono ?_
    rintro us ⟨e, chained⟩
    exact ⟨e, .unmarked chained⟩

/-- Expressions, operands with signs, and chains with call markers, by induction on the depth. -/
theorem expressions_follow (budget depth : Nat) :
    Follows (expression Node.literal budget depth) (Expression .expression) ∧
      Follows (prefixed Node.literal budget depth) (Expression .signed) ∧
      Follows (chain Node.literal budget depth) (Expression .marked) := by
  have yields := yields_expressions budget depth
  induction depth with
  -- at the limit nothing is taken, and every kind of phrase can be begun
  | zero =>
    refine ⟨⟨yields.1, ?_⟩, ⟨yields.2.1, ?_⟩, ⟨yields.2.2, ?_⟩⟩
    · rw [expression]
      exact .nested (viable_expression .expression)
    · rw [prefixed]
      exact .nested (viable_expression .signed)
    · rw [chain]
      exact .nested (viable_expression .marked)
  | succ depth ih =>
    obtain ⟨expressions, operands, chains⟩ := ih (yields_expressions budget depth)
    refine ⟨?_, ?_, ?_⟩
    · exact ⟨yields.1, stops_expression expressions operands⟩
    · exact ⟨yields.2.1, stops_prefixed operands chains⟩
    · exact ⟨yields.2.2, stops_chain expressions chains⟩

/-! ### Statements -/

theorem viable_statement (inLoop : Bool) :
    Viable (fun ts => ∃ node, Statement inLoop ts node) [] := by
  have scanned : Token.scan "\x7b\x7d" =
      .ok [⟨.punctuation, "\x7b", ⟨1, 1⟩⟩, ⟨.punctuation, "\x7d", ⟨1, 2⟩⟩] := rfl
  exact .source scanned ⟨.block [], .block (.braces ⟨rfl, rfl⟩ .done ⟨rfl, rfl⟩)⟩

theorem viable_conditional (inLoop : Bool) :
    Viable (fun ts => ∃ node, Conditional inLoop ts node) [] := by
  have scanned : Token.scan "if(x)\x7b\x7d" =
      .ok [⟨.keyword, "if", ⟨1, 1⟩⟩, ⟨.punctuation, "(", ⟨1, 3⟩⟩, ⟨.identifier, "x", ⟨1, 4⟩⟩,
        ⟨.punctuation, ")", ⟨1, 5⟩⟩, ⟨.punctuation, "\x7b", ⟨1, 6⟩⟩,
        ⟨.punctuation, "\x7d", ⟨1, 7⟩⟩] := rfl
  have test : Expression .expression [⟨.identifier, "x", ⟨1, 4⟩⟩] (.identifier "x") :=
    expression_of_name ⟨rfl, rfl⟩ .expression
  have body : Block inLoop [⟨.punctuation, "\x7b", ⟨1, 6⟩⟩, ⟨.punctuation, "\x7d", ⟨1, 7⟩⟩] [] :=
    .braces ⟨rfl, rfl⟩ .done ⟨rfl, rfl⟩
  exact .source scanned ⟨_, .alone ⟨rfl, rfl⟩ ⟨rfl, rfl⟩ test ⟨rfl, rfl⟩ body⟩

/-- A block can be closed wherever a statement could begin. -/
theorem stops_statementsUntil {statement : Reading Node} {inLoop : Bool}
    (statements : Follows statement (Statement inLoop)) (fuel : Nat) (before : List Node) :
    Stops (statementsUntil statement fuel before) fun ts =>
      ∃ us t rest, ts = us ++ [t] ∧ Mark "\x7d" t ∧ Statements inLoop us rest := by
  have viable : Viable (fun ts => ∃ us t rest, ts = us ++ [t] ∧ Mark "\x7d" t ∧
      Statements inLoop us rest) [] :=
    .token rfl fun t closes => ⟨[], t, [], rfl, closes, .done⟩
  induction fuel generalizing before with
  | zero => exact .rejecting viable
  | succ fuel ih =>
    refine .bind (accept_mark_follows (by decide)) ?_
    rintro _ found (⟨rfl, t, rfl, closes⟩ | ⟨rfl, rfl⟩)
    · exact .pure ⟨[], t, [], rfl, closes, .done⟩
    refine .bind get_follows ?_
    rintro _ tokens rfl
    split
    · exact .rejecting viable
    refine .bind (accept_mark_follows (by decide)) ?_
    rintro _ found (⟨rfl, separator, rfl, separates⟩ | ⟨rfl, rfl⟩)
    · refine (ih before).mono ?_
      rintro _ ⟨us, t, rest, rfl, closes, derived⟩
      exact ⟨separator :: us, t, rest, rfl, closes, .separator separates derived⟩
    · refine .bind statements fun ts next first => (ih (next :: before)).mono ?_
      rintro _ ⟨us, t, rest, rfl, closes, derived⟩
      exact ⟨ts ++ us, t, next :: rest, by simp, closes, .next first derived⟩

theorem block_follows {statement : Reading Node} {inLoop : Bool}
    (statements : Follows statement (Statement inLoop)) (budget : Nat) :
    Follows (block budget statement) (Block inLoop) := by
  refine ⟨yields_block statements.yields budget, .expect_mark (by decide) rfl ?_⟩
  intro opening opens
  refine (stops_statementsUntil statements budget []).mono ?_
  rintro _ ⟨us, closing, rest, rfl, closes, derived⟩
  exact ⟨rest, .braces opens derived closes⟩

section

variable {expression : Reading Node} (expressions : Follows expression (Expression .expression))
include expressions

theorem declaration_follows : Follows (declaration expression) Declaration := by
  refine ⟨yields_declaration expressions.yields, .expect_keyword (by decide) rfl ?_⟩
  intro keyword isLet
  refine .bind identifier_follows ?_
  rintro _ name ⟨t, rfl, isName⟩
  refine .bind (accept_mark_follows (by decide)) ?_
  rintro _ found (⟨rfl, equals, rfl, isEquals⟩ | ⟨rfl, rfl⟩)
  · refine expressions.stops.bind_pure ?_
    rintro ts ⟨init, derived⟩
    exact ⟨_, .initialized isLet isName isEquals derived⟩
  · exact .pure ⟨_, .plain isLet isName⟩

theorem optionalUnless_follows (mark : String) :
    Follows (optionalUnless mark expression) Optional := by
  refine ⟨yields_optionalUnless expressions.yields mark, .bind sees_follows ?_⟩
  rintro _ found rfl
  split
  · exact .pure ⟨none, .absent⟩
  · refine expressions.stops.bind_pure ?_
    rintro ts ⟨e, derived⟩
    exact ⟨some e, .present derived⟩

theorem stops_returning {inLoop : Bool} :
    Stops (returning expression) fun ts => ∃ node, Statement inLoop ts node := by
  refine .expect_keyword (by decide) rfl fun keyword isReturn => ?_
  refine .bind (optionalUnless_follows expressions ";") fun ts argument derived => ?_
  refine .expect_mark (by decide) rfl fun t ends => ?_
  exact .pure ⟨_, .returning isReturn derived ends⟩

theorem stops_expressionStatement {inLoop : Bool} :
    Stops (expressionStatement expression) fun ts => ∃ node, Statement inLoop ts node := by
  refine .bind expressions fun ts e derived => .expect_mark (by decide) rfl fun t ends => ?_
  exact .pure ⟨_, .expression derived ends⟩

variable {body : Reading (List Node)} (bodies : Follows body (Block true))
include bodies

theorem stops_whileLoop {inLoop : Bool} :
    Stops (whileLoop expression body) fun ts => ∃ node, Statement inLoop ts node := by
  refine .expect_keyword (by decide) rfl fun keyword isWhile => ?_
  refine .expect_mark (by decide) rfl fun opening opens => ?_
  refine .bind expressions fun ts test tested => ?_
  refine .expect_mark (by decide) rfl fun closing closes => ?_
  refine bodies.stops.bind_pure ?_
  rintro us ⟨body, derived⟩
  exact ⟨_, .whileLoop isWhile opens tested closes derived⟩

theorem stops_forLoop {inLoop : Bool} :
    Stops (forLoop expression body) fun ts => ∃ node, Statement inLoop ts node := by
  have optionals := optionalUnless_follows expressions
  refine .expect_keyword (by decide) rfl fun keyword isFor => ?_
  refine .expect_mark (by decide) rfl fun opening opens => ?_
  -- both ways of starting the loop go on in the same way
  have afterInit {ts : List Token} {init : Option Node} (started : Initial ts init) :
      Stops
        (expect ";" >>= fun _ => optionalUnless ";" expression >>= fun test =>
          expect ";" >>= fun _ => optionalUnless ")" expression >>= fun update =>
            expect ")" >>= fun _ => body >>= fun body =>
              Pure.pure (Tree.forLoop init test update body))
        fun us => ∃ node, Statement inLoop (keyword :: opening :: (ts ++ us)) node := by
    refine .expect_mark (by decide) rfl fun first isFirst => ?_
    refine .bind (optionals ";") fun us test tested => ?_
    refine .expect_mark (by decide) rfl fun second isSecond => ?_
    refine .bind (optionals ")") fun vs update updates => ?_
    refine .expect_mark (by decide) rfl fun closing closes => ?_
    refine bodies.stops.bind_pure ?_
    rintro ws ⟨body, derived⟩
    exact ⟨_, .forLoop isFor opens started isFirst tested isSecond updates closes derived⟩
  refine .bind sees_follows ?_
  rintro _ found rfl
  split
  · have declared : Follows (some <$> declaration expression) Initial := by
      have declarations := declaration_follows expressions
      refine ⟨declarations.yields.map fun _ _ => .declaration, declarations.stops.map ?_⟩
      rintro ts ⟨node, derived⟩
      exact ⟨some node, .declaration derived⟩
    exact .bind declared fun ts init started => afterInit started
  · exact .bind (optionals ";") fun ts init started => afterInit (.optional started)

end

theorem stops_function {body : Reading (List Node)} (bodies : Follows body (Block false))
    (budget : Nat) {inLoop : Bool} :
    Stops (function budget body) fun ts => ∃ node, Statement inLoop ts node := by
  refine .expect_keyword (by decide) rfl fun keyword isFunction => ?_
  refine .bind identifier_follows ?_
  rintro _ name ⟨t, rfl, isName⟩
  refine .expect_mark (by decide) rfl fun opening opens => ?_
  refine .bind (parameters_follow budget) ?_
  rintro _ params ⟨ts, closing, rfl, closes, derived⟩
  refine bodies.stops.bind_pure ?_
  rintro us ⟨body, derivedBody⟩
  refine ⟨.function name params body, ?_⟩
  simpa using .function isFunction isName opens derived closes derivedBody

/-- A jump stops at its keyword outside of loops, and inside of them where the mark that ends it is
missing. -/
theorem stops_jump {D : List Token → Prop} {inLoop : Bool} {node : Node} {t : Token}
    {rest : List Token} (lexical : ∀ u ∈ t :: rest, u.Lexical) (viable : Viable D [])
    (ended : inLoop = true → ∀ ending, Mark ";" ending → D [t, ending]) :
    StopsAt (t :: rest) (jump inLoop node) D := by
  intro rejection rejected
  cases inLoop with
  | false =>
    cases rejected
    exact ⟨[], rfl, rfl, viable⟩
  | true =>
    have stops : Stops (expect ";" >>= fun _ => Pure.pure node) fun us => D ([t] ++ us) :=
      .expect_mark (by decide) rfl fun ending ends => .pure (ended rfl ending ends)
    have restLexical : ∀ u ∈ rest, u.Lexical := fun u member => lexical u (by simp [member])
    have after : rejection.After D ([t] ++ rest) := .shift (stops.rejects restLexical rejected)
    exact after

section

variable {budget depth : Nat} {inLoop : Bool}
  (expressions : Follows (expression Node.literal budget depth) (Expression .expression))
  (conditionals : Follows (conditional Node.literal budget depth inLoop) (Conditional inLoop))
include expressions conditionals

theorem stops_conditional
    (blocks : Follows (block budget (statement Node.literal budget depth inLoop)) (Block inLoop)) :
    Stops (conditional Node.literal budget (depth + 1) inLoop) fun ts =>
      ∃ node, Conditional inLoop ts node := by
  rw [conditional]
  refine .expect_keyword (by decide) rfl fun keyword isIf => ?_
  refine .expect_mark (by decide) rfl fun opening opens => ?_
  refine .bind expressions fun ts test tested => ?_
  refine .expect_mark (by decide) rfl fun closing closes => ?_
  refine .bind blocks fun us consequent first => ?_
  refine .bind (accept_keyword_follows (by decide)) ?_
  rintro _ found (⟨rfl, otherwise, rfl, isElse⟩ | ⟨rfl, rfl⟩)
  -- after `else` either form can be completed, whichever the next token has chosen
  · refine .bind sees_follows ?_
    rintro _ found rfl
    split
    · refine conditionals.stops.bind_pure ?_
      rintro vs ⟨alternate, second⟩
      exact ⟨_, .elseIf isIf opens tested closes first isElse second⟩
    · refine blocks.stops.bind_pure ?_
      rintro vs ⟨alternate, second⟩
      exact ⟨_, .elseBlock isIf opens tested closes first isElse second⟩
  · exact .pure ⟨_, by simpa using .alone isIf opens tested closes first⟩

theorem stops_statement
    (blocks : ∀ inLoop, Follows (block budget (statement Node.literal budget depth inLoop))
      (Block inLoop)) :
    Stops (statement Node.literal budget (depth + 1) inLoop) fun ts =>
      ∃ node, Statement inLoop ts node := by
  have viable := viable_statement inLoop
  rw [statement]
  refine .peek viable fun s lexical => ?_
  cases s with
  | nil => exact (Stops.rejecting viable).rejects lexical
  | cons t rest =>
    dsimp only
    split
    next isKeyword =>
      split
      -- a function is outside of the loops around it, the body of a loop inside
      · exact (stops_function (blocks false) budget).rejects lexical
      · have stops : Stops (declaration (expression Node.literal budget depth) >>= fun node =>
            expect ";" >>= fun _ => Pure.pure node) fun ts => ∃ node, Statement inLoop ts node := by
          refine .bind (declaration_follows expressions) fun ts node derived => ?_
          refine .expect_mark (by decide) rfl fun ending ends => ?_
          exact .pure ⟨node, .declaration derived ends⟩
        exact stops.rejects lexical
      · refine (conditionals.stops.mono ?_).rejects lexical
        rintro ts ⟨node, derived⟩
        exact ⟨node, .conditional derived⟩
      · exact (stops_forLoop expressions (blocks true)).rejects lexical
      · exact (stops_whileLoop expressions (blocks true)).rejects lexical
      · exact (stops_returning expressions).rejects lexical
      next isBreak =>
        refine stops_jump lexical viable ?_
        rintro rfl ending ends
        exact ⟨_, .breakJump ⟨isKeyword.1, isBreak⟩ ends⟩
      next isContinue =>
        refine stops_jump lexical viable ?_
        rintro rfl ending ends
        exact ⟨_, .continueJump ⟨isKeyword.1, isContinue⟩ ends⟩
      -- no statement begins with another keyword, but one could stand in its place
      · exact (Stops.rejecting viable).rejects lexical
    · split
      · refine ((blocks inLoop).stops.bind_pure ?_).rejects lexical
        rintro ts ⟨body, derived⟩
        exact ⟨.block body, .block derived⟩
      · exact (stops_expressionStatement expressions).rejects lexical

end

/-- Statements and conditional statements, by induction on the depth. -/
theorem statements_follow (budget depth : Nat) (inLoop : Bool) :
    Follows (statement Node.literal budget depth inLoop) (Statement inLoop) ∧
      Follows (conditional Node.literal budget depth inLoop) (Conditional inLoop) := by
  have yields := yields_statements budget depth inLoop
  induction depth generalizing inLoop with
  | zero =>
    refine ⟨⟨yields.1, ?_⟩, ⟨yields.2, ?_⟩⟩
    · rw [statement]
      exact .nested (viable_statement inLoop)
    · rw [conditional]
      exact .nested (viable_conditional inLoop)
  | succ depth ih =>
    have expressions := (expressions_follow budget depth).1
    have inner (inLoop : Bool) := ih inLoop (yields_statements budget depth inLoop)
    have blocks (inLoop : Bool) := block_follows (inner inLoop).1 budget
    constructor
    · exact ⟨yields.1, stops_statement expressions (inner inLoop).2 blocks⟩
    · exact ⟨yields.2, stops_conditional expressions (inner inLoop).2 (blocks inLoop)⟩

/-! ### Programs -/

theorem stops_statementsToEnd {statement : Reading Node}
    (statements : Follows statement (Statement false)) (fuel : Nat) (before : List Node) :
    Stops (statementsToEnd statement fuel before) fun ts => ∃ body, Statements false ts body := by
  induction fuel generalizing before with
  | zero => exact .pure ⟨[], .done⟩
  | succ fuel ih =>
    refine .bind get_follows ?_
    rintro _ tokens rfl
    split
    · exact .pure ⟨[], .done⟩
    refine .bind (accept_mark_follows (by decide)) ?_
    rintro _ found (⟨rfl, separator, rfl, separates⟩ | ⟨rfl, rfl⟩)
    · refine (ih before).mono ?_
      rintro us ⟨body, derived⟩
      exact ⟨body, .separator separates derived⟩
    · refine .bind statements fun ts next first => (ih (next :: before)).mono ?_
      rintro us ⟨body, derived⟩
      exact ⟨next :: body, by simpa using .next first derived⟩

/-- Lexical tokens are rejected after the beginning of a program. -/
theorem program_after {limit : Nat} {tokens : List Token} {rejection : Rejection}
    (lexical : ∀ t ∈ tokens, t.Lexical)
    (rejected : program Node.literal limit tokens = .error rejection) :
    rejection.After (fun ts => ∃ tree, Program ts tree) tokens := by
  have statements := (statements_follow tokens.length limit false).1
  unfold program at rejected
  dsimp only at rejected
  split at rejected
  · cases rejected
  next stopped =>
    cases rejected
    refine ((stops_statementsToEnd statements _ []).mono ?_).rejects lexical stopped
    rintro ts ⟨body, derived⟩
    exact ⟨.program body, .statements derived⟩

/-! ### Accepted tokens -/

/-- With a nesting limit that is high enough, the tokens are read as a program. They may be made by
hand. -/
def Accepted (tokens : List Token) : Prop :=
  ∃ limit tree, program Datum.ofText limit tokens = .ok tree

theorem readsAlike_ofText : ReadsAlike Datum.ofText :=
  fun _ lexical kind => ⟨.text, Datum.ofText_of_string lexical kind⟩

theorem viable_accepted {ts : List Token} (lexical : ∀ t ∈ ts, t.Lexical)
    (viable : Viable (fun us => ∃ tree, Program us tree) ts) : Viable Accepted ts := by
  obtain ⟨more, scannable, tree, derived⟩ := viable
  have allLexical : ∀ t ∈ ts ++ more, t.Lexical := by
    intro t member
    rcases List.mem_append.1 member with front | back
    · exact lexical t front
    · exact (scannable t back).lexical
  have read := program_read derived (Nat.le_refl _)
  obtain ⟨tree', read'⟩ := program_of_alike readsAlike_ofText allLexical read
  exact ⟨more, scannable, _, tree', read'⟩

omit [CharacterNames] in
/-- A higher limit changes neither what was read nor why it was rejected. -/
theorem program_of_ne_nested {τ : Type} {literal : String → Except Datum.Fault τ}
    {limit higher : Nat} {tokens : List Token} {outcome : Except Rejection (Tree τ)}
    (below : limit ≤ higher) (read : program literal limit tokens = outcome)
    (shallow : outcome ≠ .error .nestedTooDeeply) : program literal higher tokens = outcome := by
  rcases program_of_le literal below tokens with nested | same
  · exact absurd (read.symm.trans nested) shallow
  · exact same.symm.trans read

theorem not_accepted_of_rejected {limit : Nat} {tokens front rest rest' : List Token}
    {rejection : Rejection} (lexical : ∀ t ∈ tokens, t.Lexical)
    (rejected : program Node.literal limit tokens = .error rejection)
    (shallow : rejection ≠ .nestedTooDeeply) (cursor : rejection.cursor? = some rest)
    (whole : tokens = front ++ rest) (same : rest'.head? = rest.head?) :
    ¬Accepted (front ++ rest') := by
  rintro ⟨limit', tree, read⟩
  -- both lists are read within the higher one of the limits
  have rejected := program_of_ne_nested (Nat.le_max_left limit limit') rejected
    (by simpa using shallow)
  have read := program_of_ne_nested (Nat.le_max_right limit limit') read (by simp)
  obtain ⟨front', whole', further⟩ := program_rejects readsAlike_ofText lexical rejected cursor
  obtain rfl : front' = front := List.append_cancel_right (whole'.symm.trans whole)
  obtain ⟨other, failed⟩ := further rest' same
  cases read.symm.trans failed

omit [CharacterNames] in
/-- Where a list that is not empty is said to go wrong. -/
theorem positionOf_eq {tokens : List Token} (nonempty : tokens ≠ []) (rest : List Token) :
    some (Token.positionOf tokens rest) =
      match rest.head? with
      | some t => some t.position
      | none => tokens.getLast?.map Token.endPosition := by
  cases rest with
  | cons t rest => rfl
  | nil =>
    cases ends : tokens.getLast? with
    | none => exact absurd (List.getLast?_eq_none_iff.1 ends) nonempty
    | some last => simp [Token.positionOf, ends]

/-- Tokens of source text that are no program, and not nested too deeply, are rejected at the first
impossible one. What stands in front of it can become a program, but nothing that goes on with it is
one. The error is reported at its place, and at the end of input just after the last token. Only for
a bad target the place is the beginning of the phrase that would have to be a name: with a name
instead of the phrase, the token would be possible. -/
theorem rejected_at_first_impossible_token (tokens : List Token)
    (scannable : ∀ t ∈ tokens, t.Scannable) (limit : Nat) (rejection : Rejection)
    (rejected : program Datum.ofText limit tokens = .error rejection)
    (shallow : rejection ≠ .nestedTooDeeply) :
    ∃ front rest, tokens = front ++ rest ∧ rejection.cursor? = some rest ∧
      Viable Accepted front ∧
      (∀ t, rest.head? = some t → ∀ more, ¬Accepted (front ++ t :: more)) ∧
      match rejection with
      | .badTarget use _ _ => ∃ before first target e t,
          front = before ++ first :: target ∧ Expression use.phrase (first :: target) e ∧
          name? e = none ∧ rest.head? = some t ∧ (∃ op ∈ use.operators, Mark op t) ∧
          (∀ u name, u.Scannable → Name name u → Viable Accepted (before ++ [u, t])) ∧
          (rejection.toError tokens).position? = some first.position
      | _ => (rejection.toError tokens).position? =
          match rest.head? with
          | some t => some t.position
          | none => tokens.getLast?.map Token.endPosition := by
  have lexical : ∀ t ∈ tokens, t.Lexical := fun t member => (scannable t member).lexical
  have rejected := (program_eq_error readsAlike_ofText lexical).1 rejected
  have after := program_after lexical rejected
  have nonempty : tokens ≠ [] := by
    rintro rfl
    cases rejected
  have possible {front rest : List Token} (whole : tokens = front ++ rest)
      (viable : Viable (fun ts => ∃ tree, Program ts tree) front) : Viable Accepted front := by
    refine viable_accepted (fun t member => lexical t ?_) viable
    rw [whole]
    exact List.mem_append_left rest member
  have impossible {front rest : List Token} (whole : tokens = front ++ rest)
      (cursor : rejection.cursor? = some rest) (t : Token) (here : rest.head? = some t)
      (more : List Token) : ¬Accepted (front ++ t :: more) :=
    not_accepted_of_rejected lexical rejected shallow cursor whole here.symm
  cases rejection with
  | unexpected expected rest =>
    obtain ⟨front, whole, viable⟩ := after
    refine ⟨front, rest, whole, rfl, possible whole viable, impossible whole rfl, ?_⟩
    exact positionOf_eq nonempty rest
  | strayJump jump rest =>
    obtain ⟨front, whole, here, viable⟩ := after
    refine ⟨front, rest, whole, rfl, possible whole viable, impossible whole rfl, ?_⟩
    simp only [here]
    rfl
  | badTarget use start rest =>
    obtain ⟨before, target, e, t, whole, rfl, here, derived, noName, operator, viable, named⟩ :=
      after
    -- the phrase has a first token, and it is the one that is reported
    obtain ⟨first, others, rfl, -⟩ := derived.opens
    rw [← List.append_assoc] at whole
    refine ⟨before ++ first :: others, rest, whole, rfl, possible whole viable,
      impossible whole rfl, before, first, others, e, t, rfl, derived, noName, here, operator,
      ?_, rfl⟩
    intro u name isScannable isName
    refine viable_accepted (fun v member => ?_) (named name u isName)
    simp only [List.mem_append, List.mem_cons, List.not_mem_nil, or_false] at member
    rcases member with inFront | rfl | rfl
    · exact lexical v (by simp [whole, inFront])
    · exact isScannable.lexical
    · exact lexical v (by simp [whole, List.mem_of_mem_head? here])
  | badNumber | unhashable => exact after.elim
  | nestedTooDeeply => exact absurd rfl shallow

end

/-- The left side of an assignment inside an argument is a sum: the assignment is impossible, and
the place of the error is where the sum begins. -/
theorem rejected_at_first_impossible_token_sum :
    let _ : CharacterNames := .none
    let front : List Token :=
      [ ⟨.identifier, "f", ⟨1, 1⟩⟩, ⟨.punctuation, "(", ⟨1, 2⟩⟩, ⟨.identifier, "a", ⟨1, 3⟩⟩,
        ⟨.punctuation, "+", ⟨1, 5⟩⟩, ⟨.identifier, "b", ⟨1, 7⟩⟩ ]
    let equals : Token := ⟨.punctuation, "=", ⟨1, 9⟩⟩
    let rest : List Token := [equals, ⟨.identifier, "c", ⟨1, 11⟩⟩, ⟨.punctuation, ")", ⟨1, 12⟩⟩]
    let rejection : Rejection := .badTarget .assignment (front.drop 2 ++ rest) rest
    (∀ t ∈ front ++ rest, t.Scannable) ∧
      program Datum.ofText 20 (front ++ rest) = .error rejection ∧
      Viable Accepted front ∧ (∀ more, ¬Accepted (front ++ equals :: more)) ∧
      (rejection.toError (front ++ rest)).position? = some ⟨1, 3⟩ := by
  intro names front equals rest rejection
  have scannable : ∀ t ∈ front ++ rest, t.Scannable :=
    Token.scannable_of_scan (show Token.scan "f(a + b = c)" = .ok (front ++ rest) from rfl)
  have rejected : program Datum.ofText 20 (front ++ rest) = .error rejection := rfl
  obtain ⟨front', rest', whole, ⟨⟩, viable, impossible, -⟩ :=
    rejected_at_first_impossible_token (front ++ rest) scannable 20 rejection rejected
      (by simp [rejection])
  obtain rfl : front = front' := List.append_cancel_right whole
  exact ⟨scannable, rejected, viable, impossible equals rfl, rfl⟩

end Reading

end YapLang
