import YapLang.Proofs.NumberText
import YapLang.Proofs.StringText

/-!
# Cutting a text that is put together

A text that is made of pieces is cut at the seams if no piece runs on into the next one. What may
follow a piece is a condition on the rest of the text, and pieces are put together whenever the next
one meets it. Gaps at the seams are lost, whatever stands beside them.
-/
namespace YapLang

/-- A token without its place. -/
def Token.shape (t : Token) : Token.Kind × String :=
  (t.kind, t.text)

namespace Lexeme

/-! ### A text and its tokens -/

/-- The text is cut into pieces of which those that are tokens have the given shapes. -/
inductive Splits : List Char → List (Token.Kind × String) → Prop where
  | done : Splits [] []
  | cut {cs form piece rest shapes} :
      first? cs = some (form, piece, rest) → Splits rest shapes →
      Splits cs ((token? form (String.ofList piece)).toList ++ shapes)

theorem scanFrom_of_splits {cs : List Char} {shapes : List (Token.Kind × String)}
    (splits : Splits cs shapes) {fuel : Nat} (enough : cs.length ≤ fuel) (p : Position)
    (before : List Token) :
    ∃ tokens, Token.scanFrom fuel p before cs = .ok (before.reverse ++ tokens) ∧
      tokens.map Token.shape = shapes := by
  -- Each piece takes at least one character, so the fuel lasts as long as the text.
  induction splits generalizing fuel p before with
  | done => exact ⟨[], by simp [Token.scanFrom], rfl⟩
  | @cut cs form piece rest shapes found _ ih =>
    obtain ⟨-, whole, nonempty⟩ := of_first? found
    have shorter : rest.length < cs.length := by
      have positive : 0 < piece.length := List.length_pos_iff.2 nonempty
      have lengths := congrArg List.length whole
      simp only [List.length_append] at lengths
      omega
    cases cs with
    | nil => simp at shorter
    | cons c cs =>
      obtain ⟨fuel, rfl⟩ : ∃ less, fuel = less + 1 := ⟨fuel - 1, by simp at enough; omega⟩
      have enough : rest.length ≤ fuel := by omega
      simp only [Token.scanFrom, found, Token.keep]
      -- gaps and comments are no tokens and leave only their length behind
      cases token? form (String.ofList piece) with
      | none => exact ih enough _ before
      | some shape =>
        obtain ⟨tokens, scanned, shapes⟩ :=
          ih enough (p.afterAll piece) (⟨shape.1, shape.2, p⟩ :: before)
        refine ⟨⟨shape.1, shape.2, p⟩ :: tokens, ?_, ?_⟩
        · simpa using scanned
        · simp [shapes, Token.shape]

theorem scan_of_splits {source : String} {shapes : List (Token.Kind × String)}
    (splits : Splits source.toList shapes) :
    ∃ tokens, Token.scan source = .ok tokens ∧ tokens.map Token.shape = shapes :=
  scanFrom_of_splits splits (Nat.le_of_eq String.length_toList) Position.start []

theorem splits_of_scanFrom {fuel : Nat} {p : Position} {before tokens : List Token}
    {cs : List Char} (scanned : Token.scanFrom fuel p before cs = .ok tokens) :
    ∃ more, tokens = before.reverse ++ more ∧ Splits cs (more.map Token.shape) := by
  fun_induction Token.scanFrom fuel p before cs with
  | case1 =>
    cases scanned
    exact ⟨[], by simp, .done⟩
  | case2 => cases scanned
  | case3 => cases scanned
  | case4 fuel p before c cs form piece rest found ih =>
    obtain ⟨more, same, splits⟩ := ih scanned
    have cut := Splits.cut found splits
    unfold Token.keep at same
    cases shape : token? form (String.ofList piece) with
    | none =>
      rw [shape] at same cut
      exact ⟨more, same, cut⟩
    | some shape' =>
      rw [shape] at same cut
      exact ⟨⟨shape'.1, shape'.2, p⟩ :: more, by simpa using same, cut⟩

theorem splits_of_scan {source : String} {tokens : List Token}
    (scanned : Token.scan source = .ok tokens) :
    Splits source.toList (tokens.map Token.shape) := by
  obtain ⟨more, rfl, splits⟩ := splits_of_scanFrom scanned
  exact splits

/-! ### Which form a text begins with -/

/-- Whether a piece of the form can begin with the character. -/
def Form.opens : Form → Char → Bool
  | blockComment, c | lineComment, c => c == '/'
  | callMarker, c => c == 'h'
  | string, c => c == '"' || c == '\''
  | number, c => Text.isDigit c || c == '.'
  | word, c => isWordStart c
  | gap, c => isGapChar c
  | punctuation, c => marks.any fun mark => mark.head? == some c

theorem number?_eq_none {c : Char} (other : Form.number.opens c = false) (cs : List Char) :
    number? (c :: cs) = none := by
  simp only [Form.opens, Bool.or_eq_false_iff, beq_eq_false_iff_ne] at other
  have whole : (c :: cs).takeWhile Text.isDigit = [] := by simp [other.1]
  have rest : (c :: cs).dropWhile Text.isDigit = c :: cs := by simp [other.1]
  rw [number?, Numeral.split?, whole, rest]
  split
  · rename_i point
    cases point
    exact absurd rfl other.2
  · rfl

theorem Form.cut?_eq_none {form : Form} {c : Char} (other : form.opens c = false)
    (cs : List Char) : form.cut? (c :: cs) = none := by
  cases form
  case blockComment | lineComment | callMarker =>
    simp only [opens, beq_eq_false_iff_ne] at other
    simp [cut?, blockComment?, lineComment?, callMarker?, other]
  case string =>
    simp only [opens, Bool.or_eq_false_iff, beq_eq_false_iff_ne] at other
    simp [cut?, string?, other]
  case number => exact number?_eq_none other cs
  case word => simp_all [cut?, word?, opens]
  case gap => simp_all [cut?, gap?, opens]
  case punctuation =>
    rw [opens, List.any_eq_false] at other
    rw [cut?, punctuation?, Option.map_eq_none_iff, List.find?_eq_none]
    intro mark listed
    have nonempty : ∀ mark ∈ marks, mark ≠ [] := by decide
    have begins := other mark listed
    cases mark with
    | nil => exact absurd rfl (nonempty _ listed)
    | cons d mark => simp_all [List.isPrefixOf]

/-- A text begins with a piece of a form if no form that is tried before it fits. -/
theorem first?_of_cut? {cs : List Char} {form : Form} {cut : Cut} (found : form.cut? cs = some cut)
    (earlier : ∀ other ∈ Form.all.takeWhile (· ≠ form), other.cut? cs = none) :
    first? cs = some (form, cut) := by
  cases form <;>
    simp [Form.all, List.takeWhile] at earlier <;>
    simp [first?, Form.all, List.findSome?, found, earlier]

/-! ### Gaps -/

theorem first?_gap {c : Char} (gap : isGapChar c = true) (cs : List Char) :
    first? (c :: cs) =
      some (.gap, (c :: cs).takeWhile isGapChar, (c :: cs).dropWhile isGapChar) := by
  have listed : c ∈ [' ', '\t', '\x0c', '\r', '\n'] := by
    simpa [isGapChar, or_assoc] using gap
  apply first?_of_cut?
  · simp [Form.cut?, gap?, gap]
  · intro other earlier
    have table : ∀ c ∈ [' ', '\t', '\x0c', '\r', '\n'],
        ∀ other ∈ Form.all.takeWhile (· ≠ .gap), other.opens c = false :=
      List.all_iff_forall_prop.1 (by decide)
    exact Form.cut?_eq_none (table c listed other earlier) cs

theorem Splits.dropGap {cs : List Char} {shapes : List (Token.Kind × String)}
    (splits : Splits cs shapes) : Splits (cs.dropWhile isGapChar) shapes := by
  cases cs with
  | nil => exact splits
  | cons c cs =>
    -- a gap is cut off as a whole, so the text behind it is what was cut next
    by_cases gap : isGapChar c = true
    · cases splits with
      | cut found inner =>
        rw [first?_gap gap] at found
        cases found
        exact inner
    · rwa [List.dropWhile_cons_of_neg gap]

/-- A gap in front of a text does not count. -/
theorem Splits.gap {gap rest : List Char} {shapes : List (Token.Kind × String)}
    (inside : ∀ c ∈ gap, isGapChar c = true) (splits : Splits rest shapes) :
    Splits (gap ++ rest) shapes := by
  cases gap with
  | nil => exact splits
  | cons c gap =>
    have found := first?_gap (inside c List.mem_cons_self) (gap ++ rest)
    rw [← List.cons_append, List.dropWhile_append_of_pos inside] at found
    exact .cut found splits.dropGap

/-! ### Words -/

theorem range_of_isWordStart {c : Char} (starts : isWordStart c = true) :
    c.toNat = 0x24 ∨ (0x41 ≤ c.toNat ∧ c.toNat ≤ 0x5a) ∨ c.toNat = 0x5f ∨
      (0x61 ≤ c.toNat ∧ c.toNat ≤ 0x7a) := by
  have cases : (decide ('A'.val ≤ c.val ∧ c.val ≤ 'Z'.val) ||
      (decide ('a'.val ≤ c.val) && decide (c.val ≤ 'z'.val)) || c == '_' || c == '$') = true :=
    starts
  simp only [Bool.or_eq_true, Bool.and_eq_true, decide_eq_true_eq, beq_iff_eq] at cases
  rcases cases with ((upper | lower) | rfl) | rfl
  · exact .inr (.inl upper)
  · exact .inr (.inr (.inr lower))
  · exact .inr (.inr (.inl rfl))
  · exact .inl rfl

theorem isDigit_of_isWordStart {c : Char} (starts : isWordStart c = true) :
    Text.isDigit c = false := by
  have range := range_of_isWordStart starts
  rw [Bool.eq_false_iff]
  intro digit
  have := Text.range_of_isDigit digit
  omega

theorem isWordChar_of_isWordStart {c : Char} (starts : isWordStart c = true) :
    isWordChar c = true := by
  simp only [isWordStart, isWordChar, Char.isAlphanum, Bool.or_eq_true] at starts ⊢
  tauto

theorem isWordStart_or_isDigit {c : Char} (inside : isWordChar c = true) :
    isWordStart c = true ∨ c.isDigit = true := by
  simp only [isWordChar, isWordStart, Char.isAlphanum, Bool.or_eq_true] at inside ⊢
  tauto

theorem isBlank_of_isWordChar {c : Char} (inside : isWordChar c = true) :
    Text.isBlank c = false := by
  rcases isWordStart_or_isDigit inside with starts | digit
  · have range := range_of_isWordStart starts
    simp [Text.isBlank, Text.blankRanges]
    omega
  · exact Text.isBlank_of_isDigit (Text.isDigit_of_isDigit digit)

/-- The two words of the call marker have a blank between them, and the second starts with `o`. -/
theorem callMarker?_eq_none {rest : List Char}
    (apart : Text.Stops Text.isBlank rest ∨
      Text.Stops (· == 'o') (rest.dropWhile Text.isBlank)) :
    callMarker? ('h' :: 'o' :: 'p' :: rest) = none := by
  simp only [callMarker?]
  split
  · rename_i more second
    rcases apart with solid | other
    · simp [Text.takeWhile_of_stops solid]
    · rw [second] at other
      exact absurd (Text.stops_cons.1 other) (by decide)
  · rfl

theorem callMarker?_of_word {c : Char} {cs rest : List Char}
    (inside : ∀ d ∈ cs, isWordChar d = true) (ends : Text.Stops isWordChar rest)
    (apart : c :: cs = ['h', 'o', 'p'] → Text.Stops (· == 'o') (rest.dropWhile Text.isBlank)) :
    callMarker? (c :: cs ++ rest) = none := by
  by_cases marker : ∃ more, c :: cs ++ rest = 'h' :: 'o' :: 'p' :: more
  · obtain ⟨more, text⟩ := marker
    rw [text]
    apply callMarker?_eq_none
    -- The word has all three letters: what follows a word does not continue it.
    match cs, inside, apart, text with
    | [], _, _, text =>
      cases text
      exact absurd (Text.stops_cons.1 ends) (by decide)
    | [d], _, _, text =>
      cases text
      exact absurd (Text.stops_cons.1 ends) (by decide)
    | [d, e], _, apart, text =>
      cases text
      exact .inr (apart rfl)
    | d :: e :: f :: cs, inside, _, text =>
      cases text
      exact .inl (Text.stops_cons.2 (isBlank_of_isWordChar (inside f (by simp))))
  · unfold callMarker?
    split
    · exact absurd ⟨_, by assumption⟩ marker
    · rfl

/-- A word ends where no character continues it. After `hop` the second word of the call marker must
not follow either. -/
theorem first?_word {c : Char} {cs rest : List Char} (starts : isWordStart c = true)
    (inside : ∀ d ∈ cs, isWordChar d = true) (ends : Text.Stops isWordChar rest)
    (apart : c :: cs = ['h', 'o', 'p'] → Text.Stops (· == 'o') (rest.dropWhile Text.isBlank)) :
    first? (c :: cs ++ rest) = some (.word, c :: cs, rest) := by
  have range := range_of_isWordStart starts
  apply first?_of_cut?
  · simp [Form.cut?, word?, starts, Text.takeWhile_append_of_stops inside ends,
      Text.dropWhile_append_of_stops inside ends]
  -- of the forms tried before a word, only the call marker can begin with a letter
  · have unlike : ∀ d : Char, d.toNat ∈ [0x22, 0x27, 0x2e, 0x2f] → c ≠ d := by
      rintro d listed rfl
      simp at listed
      omega
    intro other earlier
    cases other
    case callMarker => exact callMarker?_of_word inside ends apart
    case blockComment | lineComment => exact Form.cut?_eq_none (by simp [Form.opens, unlike '/']) _
    case string => exact Form.cut?_eq_none (by simp [Form.opens, unlike '"', unlike '\'']) _
    case number =>
      have noDigit := isDigit_of_isWordStart starts
      exact Form.cut?_eq_none (by simp [Form.opens, unlike '.', noDigit]) _
    all_goals exact absurd earlier (by decide)

/-! ### Literals and marks -/

/-- Whatever begins with a numeral begins with a number. -/
theorem first?_of_split? {cs rest : List Char} {n : Numeral}
    (split : Numeral.split? cs = some (n, rest)) : first? cs = some (.number, n.text, rest) := by
  obtain ⟨c, begins, digit⟩ := Numeral.head_of_split? split
  have whole := Numeral.text_append_of_split? split
  obtain ⟨more, text⟩ := List.head?_eq_some_iff.1 begins
  have range := Text.range_of_head digit
  apply first?_of_cut?
  · simp [Form.cut?, number?, split]
  -- the forms that are tried before a number begin with a slash, a quote or a letter
  · have unlike : ∀ d : Char, d.toNat ∈ [0x22, 0x27, 0x2f, 0x68] → c ≠ d := by
      rintro d listed rfl
      simp at listed
      omega
    intro other earlier
    rw [← whole, text]
    cases other
    case blockComment | lineComment => exact Form.cut?_eq_none (by simp [Form.opens, unlike '/']) _
    case callMarker => exact Form.cut?_eq_none (by simp [Form.opens, unlike 'h']) _
    case string => exact Form.cut?_eq_none (by simp [Form.opens, unlike '"', unlike '\'']) _
    all_goals exact absurd earlier (by decide)

theorem first?_number {n : Numeral} (formed : n.Formed) {rest : List Char}
    (ends : Text.Stops Numeral.continues rest) :
    first? (n.text ++ rest) = some (.number, n.text, rest) :=
  first?_of_split? (Numeral.split?_text formed ends)

theorem first?_of_string? {cs : List Char} {cut : Cut} (found : string? cs = some cut) :
    first? cs = some (.string, cut) := by
  cases cs with
  | nil => cases found
  | cons quote rest =>
    have isQuote : quote = '"' ∨ quote = '\'' := by
      by_contra other
      simp [string?, other] at found
    have found : Form.string.cut? (quote :: rest) = some cut := found
    apply first?_of_cut? found
    intro other earlier
    have table : ∀ quote ∈ ['"', '\''],
        ∀ other ∈ Form.all.takeWhile (· ≠ .string), other.opens quote = false :=
      List.all_iff_forall_prop.1 (by decide)
    exact Form.cut?_eq_none (table quote (by simpa using isQuote) other earlier) rest

/-- The character that would make a longer mark of a sign. -/
def signPartner (op : Char) : Char :=
  if op = '!' then '=' else op

theorem first?_sign {op : Char} (sign : op ∈ ['!', '-', '+']) {rest : List Char}
    (apart : Text.Stops (· == signPartner op) rest) :
    first? (op :: rest) = some (.punctuation, [op], rest) := by
  apply first?_of_cut?
  · cases rest with
    | nil =>
      have table : ∀ op ∈ ['!', '-', '+'], Form.punctuation.cut? [op] = some ([op], []) :=
        List.all_iff_forall_prop.1 (by decide)
      exact table op sign
    | cons c rest =>
      have other : (signPartner op == c) = false := by
        rw [beq_eq_false_iff_ne]
        exact fun same => absurd (Text.stops_cons.1 apart) (by simp [same])
      simp only [List.mem_cons, List.not_mem_nil, or_false] at sign
      -- the longer marks are tried first: each has a second character, and it is not there
      rcases sign with rfl | rfl | rfl
      · have other : ('=' == c) = false := other
        simp [Form.cut?, punctuation?, marks, List.find?, List.isPrefixOf, other]
      · have other : ('-' == c) = false := other
        simp [Form.cut?, punctuation?, marks, List.find?, List.isPrefixOf, other]
      · have other : ('+' == c) = false := other
        simp [Form.cut?, punctuation?, marks, List.find?, List.isPrefixOf, other]
  · intro other earlier
    have table : ∀ op ∈ ['!', '-', '+'],
        ∀ other ∈ Form.all.takeWhile (· ≠ .punctuation), other.opens op = false :=
      List.all_iff_forall_prop.1 (by decide)
    exact Form.cut?_eq_none (table op sign other earlier) rest

theorem first?_dot {rest : List Char} (name : Text.Stops Text.isDigit rest) :
    first? ('.' :: rest) = some (.punctuation, ['.'], rest) := by
  have noDigit : Text.isDigit '.' = false := by decide
  apply first?_of_cut?
  · rfl
  · intro other earlier
    cases other
    -- a point begins a number only if a digit follows it
    case number =>
      simp [Form.cut?, number?, Numeral.split?, noDigit, Text.takeWhile_of_stops name]
    case punctuation => exact absurd earlier (by decide)
    all_goals exact Form.cut?_eq_none (by decide) rest

/-! ### Pieces in front of a text -/

/-- In front of whatever meets the condition, the text is cut into tokens of the given shapes. -/
def Cuts (text : String) (follow : List Char → Prop) (shapes : List (Token.Kind × String)) : Prop :=
  ∀ rest more, follow rest → Splits rest more → Splits (text.toList ++ rest) (shapes ++ more)

theorem Cuts.append {a b : String} {follow follow' : List Char → Prop}
    {shapes shapes' : List (Token.Kind × String)} (first : Cuts a follow shapes)
    (second : Cuts b follow' shapes') (fits : ∀ rest, follow' rest → follow (b.toList ++ rest)) :
    Cuts (a ++ b) follow' (shapes ++ shapes') := by
  intro rest more follows splits
  -- the first text stands in front of the second one and the rest
  rw [String.toList_append, List.append_assoc, List.append_assoc]
  exact first _ _ (fits rest follows) (second rest more follows splits)

theorem Cuts.mono {text : String} {follow follow' : List Char → Prop}
    {shapes : List (Token.Kind × String)} (cuts : Cuts text follow shapes)
    (fits : ∀ rest, follow' rest → follow rest) : Cuts text follow' shapes :=
  fun rest more follows splits => cuts rest more (fits rest follows) splits

/-- A text that is a single piece wherever it stands. -/
theorem cuts_piece (form : Form) {text : String} {follow : List Char → Prop}
    (whole : ∀ rest, follow rest → first? (text.toList ++ rest) = some (form, text.toList, rest)) :
    Cuts text follow (token? form text).toList := by
  intro rest more follows splits
  have cut := Splits.cut (whole rest follows) splits
  rwa [String.ofList_toList] at cut

theorem cuts_gap {gap : String} (inside : gap.toList.all isGapChar = true) :
    Cuts gap (fun _ => True) [] :=
  fun _ _ _ splits => splits.gap (List.all_eq_true.1 inside)

/-- What may follow a name. -/
def WordEnds (rest : List Char) : Prop :=
  Text.Stops isWordChar rest ∧ Text.Stops (· == 'o') (rest.dropWhile Text.isBlank)

/-- What may follow a name or a number. -/
def Ends (rest : List Char) : Prop :=
  WordEnds rest ∧ Text.Stops Numeral.continues rest

/-- Whether a text ends whatever stands in front of it. -/
def endsBefore (text : List Char) : Bool :=
  text.head?.any (fun c => !isWordChar c && !Numeral.continues c) &&
    (text.dropWhile Text.isBlank).head?.any (· != 'o')

theorem ends_append {text : List Char} (check : endsBefore text = true) (rest : List Char) :
    Ends (text ++ rest) := by
  simp only [endsBefore, Bool.and_eq_true] at check
  obtain ⟨first, solid⟩ := check
  cases text with
  | nil => simp at first
  | cons c text =>
    simp only [List.head?_cons, Option.any_some, Bool.and_eq_true, Bool.not_eq_true'] at first
    refine ⟨⟨Text.stops_cons.2 first.1, ?_⟩, Text.stops_cons.2 first.2⟩
    rw [List.dropWhile_append]
    cases after : (c :: text).dropWhile Text.isBlank with
    | nil => simp [after] at solid
    | cons d more => simp_all [Text.stops_cons]

/-- A word is cut off as a whole, whether it is a keyword or a name. -/
theorem cuts_word {word : String} {c : Char} {cs : List Char} (letters : word.toList = c :: cs)
    (starts : isWordStart c = true) (inside : ∀ d ∈ cs, isWordChar d = true) :
    Cuts word WordEnds (token? .word word).toList := by
  apply cuts_piece .word
  intro rest ends
  rw [letters]
  exact first?_word starts inside ends.1 fun _ => ends.2

theorem cuts_name {name : String} (isName : IsName name) :
    Cuts name WordEnds [(.identifier, name)] := by
  obtain ⟨c, cs, letters, starts, inside, noKeyword⟩ := isName
  have piece := cuts_word letters starts inside
  simpa [token?, noKeyword] using piece

theorem cuts_number {text : String} {n : Numeral} (formed : n.Formed)
    (written : text.toList = n.text) :
    Cuts text (Text.Stops Numeral.continues) [(.number, text)] := by
  apply cuts_piece .number
  intro rest ends
  rw [written]
  exact first?_number formed ends

theorem cuts_string {text : String}
    (whole : ∀ rest, string? (text.toList ++ rest) = some (text.toList, rest)) :
    Cuts text (fun _ => True) [(.string, text)] := by
  apply cuts_piece .string
  intro rest _
  exact first?_of_string? (whole rest)

theorem cuts_sign {op : String} {sign : Char} (text : op.toList = [sign])
    (isSign : sign ∈ ['!', '-', '+']) :
    Cuts op (Text.Stops (· == signPartner sign)) [(.punctuation, op)] := by
  apply cuts_piece .punctuation
  intro rest apart
  rw [text]
  exact first?_sign isSign apart

theorem cuts_dot : Cuts "." (Text.Stops Text.isDigit) [(.punctuation, ".")] := by
  apply cuts_piece .punctuation
  intro rest name
  exact first?_dot name

/-- Takes a number of pieces off the front of a text. -/
def peel : Nat → List Char → Option (List (Token.Kind × String) × List Char)
  | 0, cs => some ([], cs)
  | n + 1, cs =>
    match first? cs with
    | none => none
    | some (form, piece, rest) =>
      (peel n rest).map fun (shapes, rest) =>
        ((token? form (String.ofList piece)).toList ++ shapes, rest)

theorem Splits.peel {n : Nat} {cs rest : List Char} {shapes more : List (Token.Kind × String)}
    (peeled : Lexeme.peel n cs = some (shapes, rest)) (splits : Splits rest more) :
    Splits cs (shapes ++ more) := by
  induction n generalizing cs shapes with
  | zero =>
    cases peeled
    exact splits
  | succ n ih =>
    rw [Lexeme.peel] at peeled
    split at peeled
    · cases peeled
    · rename_i form piece after found
      obtain ⟨⟨others, last⟩, further, same⟩ := Option.map_eq_some_iff.1 peeled
      cases same
      rw [List.append_assoc]
      exact .cut found (ih further)

/-- A fixed text that can be cut without looking at what follows it, up to a gap. -/
theorem cuts_literal {text : String} {shapes : List (Token.Kind × String)} (n : Nat) (gap : String)
    (peeled : ∀ rest, peel n (text.toList ++ rest) = some (shapes, gap.toList ++ rest))
    (inside : gap.toList.all isGapChar = true) : Cuts text (fun _ => True) shapes :=
  fun rest _ _ splits => (splits.gap (List.all_eq_true.1 inside)).peel (peeled rest)

/-! ### Texts of tokens with a property -/

/-- In front of whatever meets the condition, the text is cut into tokens that have the property. -/
def CutsInto (text : String) (follow : List Char → Prop) (D : List Token → Prop) : Prop :=
  ∃ shapes, Cuts text follow shapes ∧ ∀ ts : List Token, ts.map Token.shape = shapes → D ts

namespace CutsInto

variable {text : String} {follow follow' : List Char → Prop} {D E : List Token → Prop}

theorem append {a b : String} {F : List Token → Prop} (first : CutsInto a follow D)
    (second : CutsInto b follow' E) (fits : ∀ rest, follow' rest → follow (b.toList ++ rest))
    (join : ∀ ts us, D ts → E us → F (ts ++ us)) : CutsInto (a ++ b) follow' F := by
  obtain ⟨shapes, cuts, holds⟩ := first
  obtain ⟨shapes', cuts', holds'⟩ := second
  refine ⟨shapes ++ shapes', cuts.append cuts' fits, ?_⟩
  intro tokens same
  obtain ⟨ts, us, rfl, left, right⟩ := List.map_eq_append_iff.1 same
  exact join ts us (holds ts left) (holds' us right)

theorem mono (into : CutsInto text follow D) (fits : ∀ rest, follow' rest → follow rest)
    (weaker : ∀ ts, D ts → E ts) : CutsInto text follow' E := by
  obtain ⟨shapes, cuts, holds⟩ := into
  exact ⟨shapes, cuts.mono fits, fun ts same => weaker ts (holds ts same)⟩

theorem map (into : CutsInto text follow D) (weaker : ∀ ts, D ts → E ts) :
    CutsInto text follow E :=
  into.mono (fun _ follows => follows) weaker

theorem of_cuts {kind : Token.Kind} {word : String} (cuts : Cuts text follow [(kind, word)]) :
    CutsInto text follow fun ts => ∃ t, ts = [t] ∧ t.kind = kind ∧ t.text = word := by
  refine ⟨_, cuts, fun ts same => ?_⟩
  obtain ⟨t, rfl, shape⟩ := List.map_eq_singleton_iff.1 same
  exact ⟨t, rfl, Prod.mk.inj shape⟩

/-- A text between two texts that end and begin it. -/
theorem between {a b : String} {O C : List Token → Prop} (opening : CutsInto a (fun _ => True) O)
    (inner : CutsInto text Ends D) (closing : CutsInto b (fun _ => True) C)
    (ends : endsBefore b.toList = true) :
    CutsInto (a ++ text ++ b) (fun _ => True) fun tokens =>
      ∃ os ts cs, tokens = os ++ (ts ++ cs) ∧ O os ∧ D ts ∧ C cs := by
  have front : CutsInto (a ++ text) Ends fun tokens =>
      ∃ os ts, tokens = os ++ ts ∧ O os ∧ D ts :=
    opening.append inner (fun _ _ => trivial) fun os ts opens holds => ⟨os, ts, rfl, opens, holds⟩
  refine front.append closing (fun rest _ => ends_append ends rest) ?_
  rintro _ cs ⟨os, ts, rfl, opens, holds⟩ closes
  exact ⟨os, ts, cs, by rw [List.append_assoc], opens, holds, closes⟩

/-- On its own, the text is cut into tokens that have the property. -/
theorem tokens (into : CutsInto text follow D) (ends : follow []) :
    ∃ tokens, Token.scan text = .ok tokens ∧ D tokens := by
  obtain ⟨shapes, cuts, holds⟩ := into
  -- nothing follows the text: the rest is empty
  have splits := cuts [] [] ends .done
  rw [List.append_nil, List.append_nil] at splits
  obtain ⟨tokens, scanned, same⟩ := scan_of_splits splits
  exact ⟨tokens, scanned, holds tokens same⟩

end CutsInto

end Lexeme

end YapLang
