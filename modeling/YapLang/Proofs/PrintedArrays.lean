import YapLang.Proofs.ArrayContents
import YapLang.Proofs.Cutting
import YapLang.Proofs.GrammarCompleteness
import YapLang.Proofs.RunLogic
import YapLang.Proofs.StringText

/-!
# Printed arrays evaluate back

An array of data is printed as an expression that evaluates to a copy of it. A text, a number that
is not negative and a name of a built-in value are single tokens; the sign of a number is an
operator; items stand between commas and brackets. For each of them there are three things to see:
where the text is cut into tokens, that these are read as an expression, and what it evaluates to.
The three are carried along as one property of the text, with a lemma for each way in which texts
are put together, and the induction is over the content of the array.

Arrays may be shared and are printed once for each place, so the copy has the same content but not
the same sharing.
-/
namespace YapLang

open Grammar
open Lexeme (CutsInto Ends WordEnds)

/-! ### Evaluation -/

/-- In the scope, the names of the built-in values mean them. -/
def Scopes.ShowsBuiltins (scopes : Scopes) (scope : ScopeRef) : Prop :=
  ∀ binding ∈ Machine.builtins, scopes.get? binding.1 scope = some binding.2

theorem Machine.showsBuiltins_start (draws : Nat → Float) :
    (start builtins draws).scopes.ShowsBuiltins globalScope := by
  intro binding member
  simp only [builtins, List.mem_cons, List.not_mem_nil, or_false] at member
  rcases member with rfl | rfl | rfl | rfl | rfl | rfl | rfl | rfl | rfl <;> rfl

/-- The scopes are the same, and arrays may have been added. -/
structure Machine.AddsArrays (m m' : Machine) : Prop where
  scopes : m'.scopes = m.scopes
  heap : m.heap.Extends m'.heap

namespace Machine.AddsArrays

theorem refl (m : Machine) : m.AddsArrays m :=
  ⟨rfl, .refl _⟩

theorem trans {m₁ m₂ m₃ : Machine} (first : m₁.AddsArrays m₂) (second : m₂.AddsArrays m₃) :
    m₁.AddsArrays m₃ :=
  ⟨second.scopes.trans first.scopes, first.heap.trans second.heap⟩

end Machine.AddsArrays

namespace Content

/-- The expression evaluates to the value and changes nothing. -/
def Constant (node : Node) (value : Value) : Prop :=
  ∀ settings depth scope (m : Machine), m.scopes.ShowsBuiltins scope →
    Run.evaluate settings (depth + 1) scope node m = .ok value m

/-- The expression evaluates to a value with the content, with a level of the stack for each level
of items, one for a sign and one for what stands behind it. -/
def EvaluatesTo (node : Node) (content : Content) : Prop :=
  ∀ settings depth scope (m : Machine), content.nesting + 2 ≤ depth →
    m.scopes.ShowsBuiltins scope → ∃ value m',
      Run.evaluate settings depth scope node m = .ok value m' ∧
      m.AddsArrays m' ∧ value.HasContent m'.heap content

/-- The expressions evaluate to values with the contents, one after another. -/
def EvaluateTo (nodes : List Node) (contents : List Content) : Prop :=
  ∀ settings depth scope (m : Machine), nestingOfItems contents + 1 ≤ depth →
    m.scopes.ShowsBuiltins scope → ∃ values m',
      nodes.mapM (Run.evaluate settings depth scope) m = .ok values m' ∧
      m.AddsArrays m' ∧ Value.HaveContents m'.heap values contents

theorem constant_number (x : Float) : Constant (.number (.double x)) (.number x) := by
  intro settings depth scope m _
  rw [Run.evaluate]
  rfl

theorem constant_text (s : Text) : Constant (.text s) (.text s) := by
  intro settings depth scope m _
  rw [Run.evaluate]
  rfl

theorem constant_name {binding : Text × Value} (member : binding ∈ Machine.builtins) :
    Constant (.identifier binding.1) binding.2 := by
  intro settings depth scope m shows
  have current : (get : Run Machine) m = .ok m m := rfl
  rw [Run.evaluate, Run.readName, Run.bind_of_ok current, shows binding member]
  rfl

theorem Constant.evaluatesTo {node : Node} {value : Value} {content : Content}
    (constant : Constant node value) (has : ∀ heap, value.HasContent heap content) :
    EvaluatesTo node content := by
  intro settings depth scope m deep shows
  obtain ⟨depth, rfl⟩ : ∃ d, depth = d + 1 := ⟨depth - 1, by omega⟩
  exact ⟨value, m, constant settings depth scope m shows, .refl m, has _⟩

theorem Constant.negated {node : Node} {x : Float} (constant : Constant node (.number x))
    (signed : -x ≠ Double.negativeZero) : EvaluatesTo (.unary "-" node) (.number (-x)) := by
  intro settings depth scope m deep shows
  obtain ⟨depth, rfl⟩ : ∃ d, depth = d + 2 := ⟨depth - 2, by omega⟩
  refine ⟨.number (-x), m, ?_, .refl m, .number signed⟩
  rw [Run.evaluate, Run.bind_of_ok (constant settings depth scope m shows)]
  rfl

theorem evaluateTo_nil : EvaluateTo [] [] :=
  fun _ _ _ m _ _ => ⟨[], m, rfl, .refl m, .nil⟩

theorem evaluateTo_cons {node : Node} {nodes : List Node} {content : Content}
    {contents : List Content} (first : EvaluatesTo node content)
    (others : EvaluateTo nodes contents) : EvaluateTo (node :: nodes) (content :: contents) := by
  intro settings depth scope m deep shows
  simp only [nestingOfItems] at deep
  obtain ⟨value, m₁, evaluated, added, has⟩ := first settings depth scope m (by omega) shows
  obtain ⟨values, m₂, allEvaluated, addedMore, all⟩ :=
    others settings depth scope m₁ (by omega) (by rwa [added.scopes])
  -- the first value keeps its content, as evaluating the others only adds arrays
  refine ⟨value :: values, m₂, ?_, added.trans addedMore, .cons (has.mono addedMore.heap) all⟩
  rw [List.mapM_cons, Run.bind_of_ok evaluated, Run.bind_of_ok allEvaluated]
  rfl

/-- The new array is the last one of the heap. -/
theorem evaluatesTo_array {nodes : List Node} {contents : List Content}
    (items : EvaluateTo nodes contents) : EvaluatesTo (.array nodes) (.array contents) := by
  intro settings depth scope m deep shows
  simp only [nesting] at deep
  obtain ⟨depth, rfl⟩ : ∃ d, depth = d + 1 := ⟨depth - 1, by omega⟩
  obtain ⟨values, m₁, evaluated, added, all⟩ := items settings depth scope m (by omega) shows
  let heap : Heap := { m₁.heap with arrays := m₁.heap.arrays.push values.toArray }
  have grown : m₁.heap.Extends heap := ⟨#[values.toArray], by simp [heap]⟩
  -- the place of the new array is the size of the heap before
  have newItems : (heap.items ⟨m₁.heap.arrays.size⟩).toList = values := by
    simp [Heap.items, heap]
  refine ⟨.array ⟨m₁.heap.arrays.size⟩, { m₁ with heap }, ?_, added.trans ⟨rfl, grown⟩, ?_⟩
  · rw [Run.evaluate, Run.bind_of_ok evaluated]
    rfl
  · refine .array (by simp [heap]) ?_
    rw [newItems]
    exact all.mono grown

/-! ### Names and signs -/

theorem isName_of_mem_builtins {name : String} {value : Value}
    (member : ((name : Text), value) ∈ Machine.builtins) : Lexeme.IsName name := by
  have table : Machine.builtins.all (fun binding =>
      binding.1.head.toList.head?.any Lexeme.isWordStart &&
        binding.1.head.toList.all Lexeme.isWordChar &&
        (Lexeme.keyword? binding.1.head).isNone) = true := by decide
  -- the names of the built-in values are words and no keywords
  have checked := List.all_eq_true.1 table (name, value) member
  simp only [Bool.and_eq_true, Option.isNone_iff_eq_none] at checked
  obtain ⟨⟨starts, inside⟩, noKeyword⟩ := checked
  cases spelled : name.toList with
  | nil => simp [spelled] at starts
  | cons c cs =>
    rw [spelled] at starts inside
    have others := List.all_eq_true.1 inside
    exact ⟨c, cs, spelled, by simpa using starts,
      fun d member => others d (List.mem_cons_of_mem c member), noKeyword⟩

/-- No sign in front of a printed magnitude makes a longer mark with it. -/
theorem stops_minus_magnitude {bits : Nat} (number : bits ≤ Double.infinityBits)
    (rest : List Char) :
    Text.Stops (· == '-')
      ((Layout.printed.double (Double.ofMagnitudeBits false bits)).toList ++ rest) := by
  rcases Nat.lt_or_eq_of_le number with finite | rfl
  · have plainMark : Layout.printed.wholeMark = "" := rfl
    obtain ⟨n, plain, text, -⟩ := Layout.exists_numeral plainMark finite
    obtain ⟨c, first, digit⟩ := Numeral.exists_head plain
    obtain ⟨cs, begins⟩ := List.head?_eq_some_iff.1 first
    rw [text, begins]
    apply Text.stops_cons.2
    rw [beq_eq_false_iff_ne]
    rintro rfl
    exact absurd digit (by decide)
  · rw [show Double.ofMagnitudeBits false Double.infinityBits = Double.infinity from rfl,
      Layout.double_infinity]
    exact Text.stops_cons.2 (by decide)

theorem cutsInto_minus :
    CutsInto "-" (Text.Stops (· == '-')) fun ts => ∃ t, ts = [t] ∧ Mark "-" t := by
  have sign : "-".toList = ['-'] := by decide
  exact .of_cuts (Lexeme.cuts_sign sign (by decide))

/-! ### Tokens -/

section

variable [CharacterNames]

/-- The tokens are read as an operand that evaluates to the value. -/
def Spells (value : Value) (ts : List Token) : Prop :=
  ∃ node, Reading.Reads .primary 0 ts node ∧ (∃ t us, ts = t :: us ∧ OpensChain t) ∧
    Constant node value

/-- The tokens are read as an expression that evaluates to the content. Each level of items nests
three levels of expressions, and a sign one more. -/
def Means (content : Content) (ts : List Token) : Prop :=
  ∃ node, Reading.Reads .expression (3 * content.nesting + 1) ts node ∧
    (∃ t us, ts = t :: us ∧ Phrase.expression.Opens t) ∧ EvaluatesTo node content

/-- The tokens are read as at least one expression, and these evaluate to the contents. -/
def MeanEach (contents : List Content) (ts : List Token) : Prop :=
  ∃ nodes, (∀ n, 3 * nestingOfItems contents ≤ n + 2 → Reading.ReadsItemsFrom n ts nodes) ∧
    (∃ t us, ts = t :: us ∧ Phrase.expression.Opens t) ∧ EvaluateTo nodes contents

theorem Spells.means {value : Value} {content : Content} {ts : List Token}
    (spells : Spells value ts) (has : ∀ heap, value.HasContent heap content) :
    Means content ts := by
  obtain ⟨node, reads, opens, constant⟩ := spells
  have expression : Reading.Reads .expression 0 ts node :=
    Reading.reads_expression_of_signed (Reading.reads_signed_of_primary reads opens)
  obtain ⟨t, us, same, opens⟩ := opens
  exact ⟨node, expression.mono (Nat.zero_le _), ⟨t, us, same, .inl (.inl opens)⟩,
    constant.evaluatesTo has⟩

theorem Spells.negated {x : Float} {t : Token} {ts : List Token} (spells : Spells (.number x) ts)
    (minus : Mark "-" t) (signed : -x ≠ Double.negativeZero) : Means (.number (-x)) (t :: ts) := by
  obtain ⟨node, reads, opens, constant⟩ := spells
  have operand : Reading.Reads .signed 0 ts node := Reading.reads_signed_of_primary reads opens
  have expression : Reading.Reads .expression 1 (t :: ts) (.unary "-" node) :=
    Reading.reads_expression_of_signed (Reading.reads_signed minus (by decide) operand)
  exact ⟨.unary "-" node, expression, ⟨t, ts, rfl, .inr ⟨"-", by decide, minus⟩⟩,
    constant.negated signed⟩

theorem Means.last {content : Content} {ts : List Token} (means : Means content ts) :
    MeanEach [content] ts := by
  obtain ⟨node, reads, opens, evaluates⟩ := means
  refine ⟨[node], fun n deep => ?_, opens, evaluateTo_cons evaluates evaluateTo_nil⟩
  simp only [nestingOfItems] at deep
  exact Reading.readsItemsFrom_last (reads.mono (by omega))

theorem Means.more {content : Content} {contents : List Content} {t : Token} {ts us : List Token}
    (means : Means content ts) (comma : Mark "," t) (others : MeanEach contents us) :
    MeanEach (content :: contents) (ts ++ t :: us) := by
  obtain ⟨node, reads, ⟨first, more, rfl, opens⟩, evaluates⟩ := means
  obtain ⟨nodes, readEach, _, evaluateEach⟩ := others
  refine ⟨node :: nodes, fun n deep => ?_, ⟨first, more ++ t :: us, rfl, opens⟩,
    evaluateTo_cons evaluates evaluateEach⟩
  simp only [nestingOfItems] at deep
  have list := Reading.readsItemsFrom_more (reads.mono (by omega : _ ≤ n)) comma
    (readEach n (by omega))
  exact list.mono (by omega)

/-- Brackets around items make an array of them. -/
theorem means_brackets {n : Nat} {nodes : List Node} {contents : List Content}
    {opening closing : Token} {ts : List Token} (opens : Mark "[" opening)
    (items : Reading.ReadsItems n ts nodes) (shallow : n ≤ 3 * nestingOfItems contents + 1)
    (evaluate : EvaluateTo nodes contents) (closes : Mark "]" closing) :
    Means (.array contents) (opening :: (ts ++ [closing])) := by
  have starts : OpensChain opening := .inr (.inr (.inr (.inr opens)))
  have array : Reading.Reads .primary n (opening :: (ts ++ [closing])) (.array nodes) :=
    Reading.reads_array opens items closes
  have expression := Reading.reads_expression_of_signed
    (Reading.reads_signed_of_primary array ⟨_, _, rfl, starts⟩)
  exact ⟨.array nodes, expression.mono shallow, ⟨_, _, rfl, .inl (.inl starts)⟩,
    evaluatesTo_array evaluate⟩

theorem means_empty {opening closing : Token} (opens : Mark "[" opening)
    (closes : Mark "]" closing) : Means (.array []) [opening, closing] :=
  means_brackets opens Reading.readsItems_none (Nat.zero_le _) evaluateTo_nil closes

theorem MeanEach.brackets {contents : List Content} {opening closing : Token} {ts : List Token}
    (each : MeanEach contents ts) (nonempty : contents ≠ []) (opens : Mark "[" opening)
    (closes : Mark "]" closing) : Means (.array contents) (opening :: (ts ++ [closing])) := by
  obtain ⟨nodes, readEach, starts, evaluate⟩ := each
  -- the items are one level inside, so there is something to take the level of the brackets from
  have inside : 0 < nestingOfItems contents := by
    cases contents with
    | nil => exact absurd rfl nonempty
    | cons content contents =>
      simp only [nestingOfItems]
      omega
  have items :=
    Reading.readsItems_some (readEach (3 * nestingOfItems contents - 2) (by omega)) starts
  exact means_brackets opens items (by omega) evaluate closes

/-! ### Texts of single tokens -/

theorem cutsInto_name {name : String} {value : Value}
    (member : ((name : Text), value) ∈ Machine.builtins) : CutsInto name Ends (Spells value) := by
  have cuts := CutsInto.of_cuts (Lexeme.cuts_name (isName_of_mem_builtins member))
  refine cuts.mono (fun _ ends => ends.1) ?_
  rintro _ ⟨t, rfl, kind, text⟩
  exact ⟨.identifier name, Reading.reads_name ⟨kind, congrArg Text.whole text⟩,
    ⟨t, [], rfl, .inr (.inr (.inl kind))⟩, constant_name member⟩

theorem cutsInto_text (s : Text) : CutsInto (Text.quoted s) Ends (Spells (.text s)) := by
  have string := CutsInto.of_cuts (Lexeme.cuts_string (Text.string?_quoted s))
  refine string.mono (fun _ _ => trivial) ?_
  rintro _ ⟨t, rfl, kind, text⟩
  -- the quotes and escapes of messages are those of source text
  have literal : Text.literalValue? t.text = some s := by rw [text, Text.literalValue?_quoted]
  exact ⟨.text s, Reading.reads_text kind literal, ⟨t, [], rfl, .inr (.inl kind)⟩, constant_text s⟩

theorem cutsInto_magnitude {bits : Nat} (number : bits ≤ Double.infinityBits) :
    CutsInto (Layout.printed.double (Double.ofMagnitudeBits false bits)) Ends
      (Spells (.number (Double.ofMagnitudeBits false bits))) := by
  rcases Nat.lt_or_eq_of_le number with finite | rfl
  · have plainMark : Layout.printed.wholeMark = "" := rfl
    obtain ⟨n, plain, text, value⟩ := Layout.exists_numeral plainMark finite
    refine (CutsInto.of_cuts (Lexeme.cuts_number plain.formed text)).mono (fun _ ends => ends.2) ?_
    rintro _ ⟨t, rfl, kind, written⟩
    have token := Numeral.tokenNumber?_text plain.formed
    rw [← text, String.ofList_toList, value, ← written] at token
    exact ⟨_, Reading.reads_number kind token, ⟨t, [], rfl, .inl kind⟩, constant_number _⟩
  -- infinity is no numeral but a name
  · have member : (("Infinity" : Text), Value.number Double.infinity) ∈ Machine.builtins := by
      simp [Machine.builtins]
    have text : Layout.printed.double (Double.ofMagnitudeBits false Double.infinityBits) =
        "Infinity" := Layout.printed.double_infinity
    rw [text]
    exact cutsInto_name member

theorem cutsInto_number {x : Float} (signed : x ≠ Double.negativeZero) :
    CutsInto (Layout.printed.double x) Ends (Means (.number x)) := by
  have leaf {x : Float} (signed : x ≠ Double.negativeZero) {ts : List Token}
      (spells : Spells (.number x) ts) : Means (.number x) ts :=
    spells.means fun _ => .number signed
  rcases Double.exists_ofMagnitudeBits x with rfl | ⟨negative, bits, number, rfl⟩
  · have member : (("NaN" : Text), Value.number Double.nan) ∈ Machine.builtins := by
      simp [Machine.builtins]
    rw [Layout.double_nan]
    exact (cutsInto_name member).map fun _ => leaf signed
  · cases negative with
    | false => exact (cutsInto_magnitude number).map fun _ => leaf signed
    | true =>
      have nonzero : bits ≠ 0 := by
        rintro rfl
        exact signed rfl
      -- the sign is an operator that the magnitude is the operand of
      have negation : -Double.ofMagnitudeBits false bits = Double.ofMagnitudeBits true bits :=
        Double.neg_ofMagnitudeBits number
      rw [Layout.double_negative _ nonzero number, ← negation]
      rw [← negation] at signed
      refine cutsInto_minus.append (cutsInto_magnitude number)
        (fun rest _ => stops_minus_magnitude number rest) ?_
      rintro _ ts ⟨t, rfl, minus⟩ spells
      exact spells.negated minus signed

/-! ### Texts of arrays -/

/-- The text has no halves, and it is cut into tokens that are read as an expression with the
content. -/
def Shows (text : Text) (content : Content) : Prop :=
  ∃ s : String, text = s ∧ CutsInto s Ends (Means content)

theorem cutsInto_items {texts : List Text} {contents : List Content}
    (each : List.Forall₂ Shows texts contents) (nonempty : contents ≠ []) :
    ∃ s : String, Text.intercalate ", " texts = s ∧ CutsInto s Ends (MeanEach contents) := by
  induction each with
  | nil => exact absurd rfl nonempty
  | @cons text content texts contents shows others ih =>
    obtain ⟨text, rfl, first⟩ := shows
    cases others with
    | nil => exact ⟨text, rfl, first.map fun _ means => means.last⟩
    | @cons next nextContent texts contents second others =>
      obtain ⟨more, same, rest⟩ := ih (List.cons_ne_nil _ _)
      have comma : CutsInto ", " (fun _ => True) fun ts => ∃ t, ts = [t] ∧ Mark "," t :=
        .of_cuts (Lexeme.cuts_literal 1 " " (fun _ => rfl) (by decide))
      have front : CutsInto (text ++ ", ") (fun _ => True) fun us =>
          ∃ ts t, us = ts ++ [t] ∧ Means content ts ∧ Mark "," t := by
        refine first.append comma (fun rest _ => Lexeme.ends_append (by decide) rest) ?_
        rintro ts _ means ⟨t, rfl, mark⟩
        exact ⟨ts, t, rfl, means, mark⟩
      refine ⟨text ++ ", " ++ more, ?_, front.append rest (fun _ _ => trivial) ?_⟩
      · rw [Text.intercalate_cons_of_ne_nil (List.cons_ne_nil next texts), same]
        rfl
      · rintro _ us ⟨ts, t, rfl, means, mark⟩ others
        rw [List.append_assoc]
        exact means.more mark others

theorem shows_array {texts : List Text} {contents : List Content}
    (each : List.Forall₂ Shows texts contents) :
    Shows (Rendering.console.array texts) (.array contents) := by
  cases each with
  | nil =>
    have cuts : Lexeme.Cuts "[]" (fun _ => True) [(.punctuation, "["), (.punctuation, "]")] :=
      Lexeme.cuts_literal 2 "" (fun _ => rfl) (by decide)
    refine ⟨"[]", rfl, _, cuts.mono fun _ _ => trivial, fun ts same => ?_⟩
    obtain ⟨opening, ts, rfl, opens, same⟩ := List.map_eq_cons_iff.1 same
    obtain ⟨closing, rfl, closes⟩ := List.map_eq_singleton_iff.1 same
    exact means_empty (Prod.mk.inj opens) (Prod.mk.inj closes)
  | @cons text content texts contents first others =>
    have opening : CutsInto "[ " (fun _ => True) fun ts => ∃ t, ts = [t] ∧ Mark "[" t :=
      .of_cuts (Lexeme.cuts_literal 1 " " (fun _ => rfl) (by decide))
    have closing : CutsInto " ]" (fun _ => True) fun ts => ∃ t, ts = [t] ∧ Mark "]" t :=
      .of_cuts (Lexeme.cuts_literal 2 "" (fun _ => rfl) (by decide))
    obtain ⟨inner, same, items⟩ :=
      cutsInto_items (.cons first others) (List.cons_ne_nil content contents)
    have shown :
        Rendering.console.array (text :: texts) = (("[ " ++ inner ++ " ]" : String) : Text) := by
      simp only [Rendering.console, same]
      rfl
    refine ⟨"[ " ++ inner ++ " ]", shown, ?_⟩
    refine (opening.between items closing (by decide)).mono (fun _ _ => trivial) ?_
    rintro _ ⟨_, ts, _, rfl, ⟨o, rfl, opens⟩, each, ⟨c, rfl, closes⟩⟩
    exact each.brackets (List.cons_ne_nil content contents) opens closes

mutual

/-- What is printed for a content reads as an expression that evaluates to the content. -/
theorem shows_content {heap : Heap} {value : Value} {content : Content} :
    value.HasContent heap content → Shows (Rendering.console.contentText heap content) content
  | .number signed => ⟨_, rfl, cutsInto_number signed⟩
  | @Value.HasContent.text _ s =>
    ⟨_, rfl, (cutsInto_text s).map fun _ spells => spells.means fun _ => .text⟩
  | @Value.HasContent.bool _ b => by
    have member : (((if b then "true" else "false" : String) : Text), .bool b) ∈
        Machine.builtins := by
      cases b <;> simp [Machine.builtins]
    have name := (cutsInto_name member).map fun _ spells =>
      spells.means fun _ => Value.HasContent.bool
    cases b with
    | true | false => exact ⟨_, rfl, name⟩
  | .undefined => by
    have member : (("undefined" : Text), Value.undefined) ∈ Machine.builtins := by
      simp [Machine.builtins]
    exact ⟨_, rfl, (cutsInto_name member).map fun _ spells =>
      spells.means fun _ => .undefined⟩
  | .array _ items => shows_array (shows_contents items)

theorem shows_contents {heap : Heap} {values : List Value} {contents : List Content} :
    Value.HaveContents heap values contents →
      List.Forall₂ Shows (Rendering.console.contentTexts heap contents) contents
  | .nil => .nil
  | .cons first others => .cons (shows_content first) (shows_contents others)

end

/-! ### Programs that return a value -/

/-- What is read of a return statement with an expression that has a content. -/
theorem ofSource_return {text : String} {content : Content}
    (cuts : CutsInto text Ends (Means content))
    (shallow : 3 * content.nesting + 5 ≤ Tree.nestingLimit) :
    ∃ node, Node.ofSource ("return " ++ text ++ ";") = .ok (.program [.returning (some node)]) ∧
      EvaluatesTo node content := by
  have opening : CutsInto "return " (fun _ => True) fun ts => ∃ t, ts = [t] ∧ Keyword "return" t :=
    .of_cuts (Lexeme.cuts_literal 1 " " (fun _ => rfl) (by decide))
  have closing : CutsInto ";" (fun _ => True) fun ts => ∃ t, ts = [t] ∧ Mark ";" t :=
    .of_cuts (Lexeme.cuts_literal 1 "" (fun _ => rfl) (by decide))
  obtain ⟨_, scanned, _, ts, _, rfl, ⟨keyword, rfl, isReturn⟩, means, ⟨t, rfl, ends⟩⟩ :=
    (opening.between cuts closing (by decide)).tokens trivial
  obtain ⟨node, reads, ⟨first, us, same, opens⟩, evaluates⟩ := means
  refine ⟨node, ?_, evaluates⟩
  -- the statement takes one level of nesting, and its expression has the others
  obtain ⟨depth, limit⟩ : ∃ depth, Tree.nestingLimit = depth + 1 := ⟨2999, rfl⟩
  have starts : Reading.Avoids [";"] (ts ++ [t]) := by
    rw [same]
    exact .of_opens opens (by decide)
  have taken := reads (ts.length + 2) depth [t] (by omega) (by simp only [Reading.below]; omega)
    (.of_mark ends (by decide))
  have statement : Reading.statement Node.literal (ts.length + 2) (depth + 1) false
      (keyword :: (ts ++ [t])) = .ok (.returning (some node), []) :=
    Reading.statement_returning isReturn (Reading.optional_present starts taken) ends
  have read : Reading.program Node.literal Tree.nestingLimit (keyword :: (ts ++ [t])) =
      .ok (.program [.returning (some node)]) := by
    apply Reading.program_of_statement (.of_isMark (Reading.isMark_of_keyword isReturn) (by decide))
    rw [limit]
    simpa using statement
  have tokens : Node.ofTokens (keyword :: (ts ++ [t])) =
      .ok (.program [.returning (some node)]) := by
    rw [Node.ofTokens, Tree.ofTokens, read]
  rw [Node.ofSource, scanned]
  exact tokens

end

end Content

namespace Run

theorem exists_note (settings : Settings) (level : Nat) (message : Heap → Text) (m : Machine) :
    ∃ m', note settings level message m = .ok () m' ∧ m'.scopes = m.scopes ∧ m'.heap = m.heap := by
  unfold note
  split
  · exact ⟨_, rfl, rfl, rfl⟩
  · exact ⟨m, rfl, rfl, rfl⟩

theorem program_return {settings : Settings} {limit : Nat} {scope : ScopeRef} {node : Node}
    {content : Content} {m : Machine} (evaluates : Content.EvaluatesTo node content)
    (deep : content.nesting + 3 ≤ limit) (shows : m.scopes.ShowsBuiltins scope) :
    ∃ value m', program settings limit scope [.returning (some node)] m = .ok value m' ∧
      value.HasContent m'.heap content := by
  obtain ⟨depth, rfl⟩ : ∃ d, limit = d + 1 := ⟨limit - 1, by omega⟩
  obtain ⟨m₁, begun, scopes, -⟩ := exists_note settings 1
    (fun _ => "run: " ++ toString [Tree.returning (some node)].length ++ " top-level statements") m
  obtain ⟨value, m₂, evaluated, -, has⟩ :=
    evaluates settings depth scope m₁ (by omega) (by rwa [scopes])
  obtain ⟨m₃, finished, -, heap⟩ := exists_note settings 1
    (fun _ => "run: finished with <" ++ (Signal.returning value).name ++ ">") m₂
  have executed : execute settings (depth + 1) scope (.returning (some node)) m₁ =
      .ok (.returning value) m₂ := by
    rw [execute, bind_of_ok evaluated]
    rfl
  have ordered : inOrder (execute settings (depth + 1) scope) [.returning (some node)] m₁ =
      .ok (.returning value) m₂ := by
    rw [inOrder, bind_of_ok executed]
    rfl
  refine ⟨value, m₃, ?_, by rwa [heap]⟩
  rw [program, bind_of_ok begun, bind_of_ok ordered]
  dsimp only
  rw [bind_of_ok finished]
  rfl

open Machine (builtins globalScope start)

/-- An array of data that has no cycle, printed and run as the value of a program, gives an array
with the same content, if its items are not nested too deep for programs. -/
theorem printed_array_evaluates_back [CharacterNames] {heap : Heap} {ref : ArrayRef}
    (isData : heap.IsData ref) (settings : Settings) (draws : Nat → Float) :
    ∃ (content : Content) (text : String), (Value.array ref).HasContent heap content ∧
      (Value.array ref).inspect heap = text ∧
      (3 * content.nesting + 5 ≤ Tree.nestingLimit →
        ∃ body copy m, Node.ofSource ("return " ++ text ++ ";") = .ok (.program body) ∧
          program settings stackLimit globalScope body (start builtins draws) = .ok copy m ∧
          copy.HasContent m.heap content) := by
  obtain ⟨content, has⟩ := Value.exists_hasContent isData
  obtain ⟨text, same, cuts⟩ := Content.shows_content has
  have shown : (Value.array ref).inspect heap = text := by
    rw [Value.inspect_array, Rendering.arrayText_eq isData _ has, same]
  refine ⟨content, text, has, shown, fun shallow => ?_⟩
  obtain ⟨node, read, evaluates⟩ := Content.ofSource_return cuts shallow
  have deep : content.nesting + 3 ≤ stackLimit := by
    simp only [Tree.nestingLimit, stackLimit] at shallow ⊢
    omega
  obtain ⟨copy, m, ran, same⟩ := program_return evaluates deep (Machine.showsBuiltins_start draws)
  exact ⟨_, copy, m, read, ran, same⟩

/-- An array that contains another one twice, with a text that has a quotation mark in it. -/
theorem printed_array_evaluates_back_shared :
    let _ : CharacterNames := .none
    let heap : Heap :=
      ⟨#[#[.array ⟨1⟩, .text "it's", .array ⟨1⟩],
        #[.number Double.nan, .number (-Double.infinity), .number (-0.5), .undefined]], #[]⟩
    let content : Content :=
      .array [.number Double.nan, .number (-Double.infinity), .number (-0.5), .undefined]
    let text :=
      "[ [ NaN, -Infinity, -0.5, undefined ], \"it's\", [ NaN, -Infinity, -0.5, undefined ] ]"
    heap.IsData ⟨0⟩ ∧ (Value.array ⟨0⟩).inspect heap = text ∧
      ∃ body copy m, Node.ofSource ("return " ++ text ++ ";") = .ok (.program body) ∧
        program ⟨0, 1, .memory⟩ stackLimit globalScope body (start builtins fun _ => 0) =
          .ok copy m ∧
        copy.HasContent m.heap (.array [content, .text "it's", content]) := by
  intro names heap content text
  have nan : Double.nan ≠ Double.negativeZero := by decide +kernel
  have infinite : -Double.infinity ≠ Double.negativeZero := by decide +kernel
  have half : (-0.5 : Float) ≠ Double.negativeZero := by decide +kernel
  have shown : (Value.array ⟨0⟩).inspect heap = text := by decide +kernel
  have contains {outer inner : ArrayRef} (contained : heap.Contains outer inner) :
      outer = ⟨0⟩ ∧ inner = ⟨1⟩ := by
    obtain ⟨i⟩ := outer
    match i with
    | 0 => simpa [Heap.Contains, Heap.items, heap] using contained
    | 1 => simp [Heap.Contains, Heap.items, heap] at contained
    | i + 2 => simp [Heap.Contains, Heap.items, heap] at contained
  have within {inner : ArrayRef} (inside : heap.Within ⟨0⟩ inner) : inner = ⟨0⟩ ∨ inner = ⟨1⟩ := by
    cases inside with
    | refl => exact .inl rfl
    | tail _ last => exact .inr (contains last).2
  have isData : heap.IsData ⟨0⟩ := by
    constructor
    · intro inner inside
      rcases within inside with rfl | rfl <;> simp [heap]
    · intro inner _ cycle
      obtain ⟨_, first, -⟩ := Relation.TransGen.head'_iff.1 cycle
      obtain ⟨_, -, last⟩ := Relation.TransGen.tail'_iff.1 cycle
      exact absurd ((contains first).1.symm.trans (contains last).2) (by simp)
    · intro inner inside item member
      rcases within inside with rfl | rfl
      · simp [Heap.items, heap] at member
        rcases member with rfl | rfl | rfl <;> trivial
      · simp [Heap.items, heap] at member
        rcases member with rfl | rfl | rfl | rfl
        · exact nan
        · exact infinite
        · exact half
        · trivial
  have has : (Value.array ⟨0⟩).HasContent heap (.array [content, .text "it's", content]) := by
    have inner : (Value.array ⟨1⟩).HasContent heap content :=
      .array (by simp [heap]) (.cons (.number nan) (.cons (.number infinite)
        (.cons (.number half) (.cons .undefined .nil))))
    exact .array (by simp [heap]) (.cons inner (.cons .text (.cons inner .nil)))
  obtain ⟨other, printed, same, inspected, back⟩ :=
    printed_array_evaluates_back isData ⟨0, 1, .memory⟩ fun _ => 0
  cases same.unique has
  cases inspected.symm.trans shown
  exact ⟨isData, shown, back (by decide)⟩

end Run

end YapLang
