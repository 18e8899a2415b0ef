import YapLang.Proofs.Rounding
import YapLang.Token.Scan

/-!
# Tokens of source text

Which tokens the scanner makes. A token is lexical if it is a piece of text of one of the forms that
are kept, and every token of every source text is. The kinds are thereby apart: a keyword is one of
ten words, and a punctuation mark is none of them. An identifier spells a word that is no keyword,
and the value of a number is a double without a sign, infinity included.
-/
namespace YapLang.Token

/-- The token is a piece that can be cut off the front of some text. -/
def Lexical (t : Token) : Prop :=
  ∃ (form : Lexeme.Form) (cs piece rest : List Char), form.cut? cs = some (piece, rest) ∧
    Lexeme.token? form (String.ofList piece) = some (t.kind, t.text)

/-- A token of this kind and text is among the tokens of some source text. -/
def Scannable (t : Token) : Prop :=
  ∃ source tokens, scan source = .ok tokens ∧ ∃ u ∈ tokens, u.kind = t.kind ∧ u.text = t.text

/-! ### The scanner makes lexical tokens -/

theorem lexical_keep {form : Lexeme.Form} {cs piece rest : List Char} {before : List Token}
    (cut : form.cut? cs = some (piece, rest)) (lexical : ∀ t ∈ before, t.Lexical) (p : Position) :
    ∀ t ∈ keep form piece p before, t.Lexical := by
  unfold keep
  split
  next kind text kept =>
    intro t member
    rcases List.mem_cons.1 member with rfl | member
    · exact ⟨form, cs, piece, rest, cut, kept⟩
    · exact lexical t member
  · exact lexical

theorem lexical_of_scanFrom {fuel : Nat} {p : Position} {before tokens : List Token}
    {cs : List Char} (lexical : ∀ t ∈ before, t.Lexical)
    (scanned : scanFrom fuel p before cs = .ok tokens) : ∀ t ∈ tokens, t.Lexical := by
  fun_induction scanFrom fuel p before cs with
  | case1 =>
    cases scanned
    simpa using lexical
  | case2 => cases scanned
  | case3 => cases scanned
  | case4 fuel p before c cs form piece rest found ih =>
    exact ih (lexical_keep (Lexeme.of_first? found).1 lexical p) scanned

theorem lexical_of_scan {source : String} {tokens : List Token}
    (scanned : scan source = .ok tokens) : ∀ t ∈ tokens, t.Lexical :=
  lexical_of_scanFrom (by simp) scanned

theorem scannable_of_scan {source : String} {tokens : List Token}
    (scanned : scan source = .ok tokens) : ∀ t ∈ tokens, t.Scannable :=
  fun t member => ⟨source, tokens, scanned, t, member, rfl, rfl⟩

theorem Scannable.lexical {t : Token} (scannable : t.Scannable) : t.Lexical := by
  obtain ⟨source, tokens, scanned, u, member, sameKind, sameText⟩ := scannable
  obtain ⟨form, cs, piece, rest, cut, kept⟩ := lexical_of_scan scanned u member
  exact ⟨form, cs, piece, rest, cut, by rw [kept, sameKind, sameText]⟩

/-! ### Texts of lexical tokens -/

/-- The words that keywords stand for, and the one that stands for the call marker. -/
def keywordTexts : List String :=
  [ "function", "let", "if", "else", "for", "while", "return", "break", "continue",
    Lexeme.callKeyword ]

theorem keyword?_mem {word keyword : String} (known : Lexeme.keyword? word = some keyword) :
    keyword ∈ keywordTexts := by
  unfold Lexeme.keyword? at known
  split at known <;> cases known <;> decide

theorem Lexical.text_of_keyword {t : Token} (lexical : t.Lexical) (kind : t.kind = .keyword) :
    t.text ∈ keywordTexts := by
  obtain ⟨_, text, _⟩ := t
  obtain rfl := kind
  obtain ⟨form, cs, piece, rest, cut, kept⟩ := lexical
  -- a keyword is the marker of a call, or a word that is looked up
  cases form <;> simp only [Lexeme.token?] at kept
  case callMarker =>
    cases kept
    simp [keywordTexts]
  case word =>
    split at kept
    next keyword known =>
      cases kept
      exact keyword?_mem known
    · cases kept
  all_goals cases kept

theorem Lexical.text_of_punctuation {t : Token} (lexical : t.Lexical)
    (kind : t.kind = .punctuation) : t.text.toList ∈ Lexeme.marks := by
  obtain ⟨_, text, _⟩ := t
  obtain rfl := kind
  obtain ⟨form, cs, piece, rest, cut, kept⟩ := lexical
  cases form <;> simp only [Lexeme.token?] at kept
  case punctuation =>
    cases kept
    obtain ⟨mark, found, same⟩ := Option.map_eq_some_iff.1 cut
    cases same
    simpa using List.mem_of_find?_eq_some found
  case word => split at kept <;> cases kept
  all_goals cases kept

end YapLang.Token

namespace YapLang

/-! ### Names -/

namespace Lexeme

/-- A word that is not a keyword. -/
def IsName (name : String) : Prop :=
  ∃ c cs, name.toList = c :: cs ∧ isWordStart c = true ∧ (∀ d ∈ cs, isWordChar d = true) ∧
    keyword? name = none

end Lexeme

theorem Token.Lexical.isName {t : Token} (lexical : t.Lexical) (kind : t.kind = .identifier) :
    Lexeme.IsName t.text := by
  obtain ⟨_, text, _⟩ := t
  obtain rfl := kind
  obtain ⟨form, cs, piece, rest, cut, kept⟩ := lexical
  cases form <;> simp only [Lexeme.token?] at kept
  case word =>
    split at kept
    · cases kept
    next unknown =>
      cases kept
      simp only [Lexeme.Form.cut?] at cut
      unfold Lexeme.word? at cut
      split at cut
      · split at cut
        next c cs starts =>
          cases cut
          exact ⟨c, _, String.toList_ofList, starts, List.all_eq_true.1 List.all_takeWhile, unknown⟩
        · cases cut
      · cases cut
  all_goals cases kept

/-! ### Numbers -/

namespace Text

theorem exists_zero_of_isDigit {c : Char} (digit : isDigit c = true) :
    ∃ base ∈ digitZeros, base ≤ c.toNat ∧ c.toNat < base + 10 := by
  obtain ⟨value, found⟩ := Option.isSome_iff_exists.1 digit
  obtain ⟨base, listed, -⟩ := Option.map_eq_some_iff.1 found
  exact ⟨base, List.mem_of_find?_eq_some listed, by simpa using List.find?_some listed⟩

theorem range_of_isDigit {c : Char} (digit : isDigit c = true) :
    (0x30 ≤ c.toNat ∧ c.toNat < 0x3a) ∨ 0x660 ≤ c.toNat := by
  have table : ∀ base ∈ digitZeros, base = 0x30 ∨ 0x660 ≤ base := by decide
  obtain ⟨base, listed, within⟩ := exists_zero_of_isDigit digit
  rcases table base listed with rfl | above
  · exact .inl within
  · exact .inr (Nat.le_trans above within.1)

theorem isBlank_of_isDigit {c : Char} (digit : isDigit c = true) : isBlank c = false := by
  -- every row of ten digits is below or above every range of blanks
  have table : ∀ base ∈ digitZeros, ∀ range ∈ blankRanges,
      base + 10 ≤ range.1 ∨ range.2 < base := by decide
  obtain ⟨base, listed, within⟩ := exists_zero_of_isDigit digit
  rw [isBlank, List.any_eq_false]
  rintro ⟨first, last⟩ range
  rcases table base listed _ range with below | above
  · simp
    omega
  · simp
    omega

theorem trim_cons (within : Char → Bool) {c : Char} (outside : within c = false) (cs : List Char) :
    ∃ rest, trim within (c :: cs) = c :: rest := by
  rw [trim, List.dropWhile_cons_of_neg (by simp [outside]), List.reverse_cons,
    List.dropWhile_append]
  split
  · exact ⟨[], by simp [outside]⟩
  · exact ⟨_, by rw [List.reverse_append]; rfl⟩

section Head

variable {first : Char} (digit : isDigit first = true ∨ first = '.')
include digit

theorem range_of_head :
    first.toNat = 0x2e ∨ (0x30 ≤ first.toNat ∧ first.toNat < 0x3a) ∨ 0x660 ≤ first.toNat := by
  rcases digit with digit | rfl
  · exact .inr (range_of_isDigit digit)
  · exact .inl rfl

theorem splitSign_of_head (cs : List Char) :
    Numeral.splitSign (first :: cs) = (none, first :: cs) := by
  have range := range_of_head digit
  unfold Numeral.splitSign
  split
  · rename_i plus
    cases plus
    exact absurd range (by decide)
  · rename_i minus
    cases minus
    exact absurd range (by decide)
  · rfl

theorem lower_ne_word (cs : List Char) {word : String}
    (listed : word ∈ ["inf", "infinity", "nan"]) :
    String.ofList ((first :: cs).map Char.toLower) ≠ word := by
  have range := range_of_head digit
  have lower : first.toLower = first := by
    refine dif_neg ?_
    rintro ⟨least, greatest⟩
    have least : 65 ≤ first.toNat := UInt32.le_iff_toNat_le.1 least
    have greatest : first.toNat ≤ 90 := UInt32.le_iff_toNat_le.1 greatest
    omega
  intro same
  have letter : word.toList.head? = some first := by
    rw [← same, String.toList_ofList, List.map_cons, lower]
    rfl
  have letters : ∀ word ∈ ["inf", "infinity", "nan"],
      word.toList.head? = some 'i' ∨ word.toList.head? = some 'n' := by decide
  rcases letters word listed with other | other
  · cases letter.symm.trans other
    exact absurd range (by decide)
  · cases letter.symm.trans other
    exact absurd range (by decide)

/-- A number that starts with a digit or a point has no sign, and is not a word. -/
theorem tokenNumber?_of_head {s : String} (begins : s.toList.head? = some first) :
    tokenNumber? s =
      (let magnitude := trim (fun c => isBlank c && !isInformationSeparator c) s.toList
      if separatorsFit isDigit none magnitude then
        (Numeral.ofText? (magnitude.filter (· ≠ '_'))).map (·.toDouble false)
      else none) := by
  obtain ⟨more, text⟩ := List.head?_eq_some_iff.1 begins
  have solid : (isBlank first && !isInformationSeparator first) = false := by
    rcases digit with digit | rfl
    · rw [isBlank_of_isDigit digit]
      rfl
    · decide
  -- trimming leaves the first character in its place
  obtain ⟨rest, trimmed⟩ := trim_cons (fun c => isBlank c && !isInformationSeparator c) solid more
  have noWord : ∀ word ∈ ["inf", "infinity", "nan"],
      String.ofList ((first :: rest).map Char.toLower) ≠ word :=
    fun word => lower_ne_word digit rest
  simp only [tokenNumber?, text, trimmed, splitSign_of_head digit]
  rw [if_neg (by
      rintro (inf | infinity)
      · exact noWord _ (by decide) inf
      · exact noWord _ (by decide) infinity),
    if_neg (noWord _ (by decide))]
  rfl

end Head

end Text

theorem Numeral.head_of_split? {cs rest : List Char} {n : Numeral}
    (found : split? cs = some (n, rest)) :
    ∃ c, n.text.head? = some c ∧ (Text.isDigit c = true ∨ c = '.') := by
  have digits : ∀ c more, cs.takeWhile Text.isDigit = c :: more → Text.isDigit c = true :=
    fun c more whole => List.all_eq_true.1 (List.all_takeWhile (l := cs)) c (by simp [whole])
  simp only [split?] at found
  -- with a point there may be no digits in front of it, without one there are some
  split at found
  · split at found
    · cases found
    · cases found
      cases whole : cs.takeWhile Text.isDigit with
      | nil => exact ⟨'.', by simp [text], .inr rfl⟩
      | cons c more => exact ⟨c, by simp [text], .inl (digits c more whole)⟩
  · split at found
    · cases found
    next some =>
      cases found
      cases whole : cs.takeWhile Text.isDigit with
      | nil => simp [whole] at some
      | cons c more => exact ⟨c, by simp [text], .inl (digits c more whole)⟩

theorem Token.Lexical.head_of_number {t : Token} (lexical : t.Lexical) (kind : t.kind = .number) :
    ∃ c, t.text.toList.head? = some c ∧ (Text.isDigit c = true ∨ c = '.') := by
  obtain ⟨_, text, _⟩ := t
  obtain rfl := kind
  obtain ⟨form, cs, piece, rest, cut, kept⟩ := lexical
  cases form <;> simp only [Lexeme.token?] at kept
  case number =>
    cases kept
    obtain ⟨⟨n, rest⟩, split, same⟩ := Option.map_eq_some_iff.1 cut
    cases same
    rw [String.toList_ofList]
    exact Numeral.head_of_split? split
  case word => split at kept <;> cases kept
  all_goals cases kept

theorem Token.Lexical.exists_bits {t : Token} (lexical : t.Lexical) (kind : t.kind = .number)
    {x : Float} (value : Text.tokenNumber? t.text = some x) :
    ∃ bits ≤ Double.infinityBits, x = Double.ofMagnitudeBits false bits := by
  obtain ⟨first, begins, digit⟩ := lexical.head_of_number kind
  rw [Text.tokenNumber?_of_head digit begins] at value
  simp only at value
  split at value
  · obtain ⟨n, -, rfl⟩ := Option.map_eq_some_iff.1 value
    exact ⟨_, n.toDecimal.roundedBits_le, rfl⟩
  · cases value

end YapLang
