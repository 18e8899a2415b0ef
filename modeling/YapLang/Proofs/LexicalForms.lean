import YapLang.Proofs.LineBreaks

/-!
# Which texts are pieces of a form

The forms of pieces, said without a search: what a comment, a gap, or the written form of a token
looks like. The search for a form takes the longest piece of that form off the front of a text, and
comes back without one only if no piece of that form stands there. So the first piece of a text is
the longest one of the first form that has any.
-/
namespace YapLang

/-! ### Numerals -/

namespace Text

theorem exists_of_not_stops {within : Char → Bool} {cs : List Char} (runs : ¬Stops within cs) :
    ∃ c rest, cs = c :: rest ∧ within c = true := by
  cases cs with
  | nil => exact absurd (stops_nil within) runs
  | cons c rest => exact ⟨c, rest, rfl, by simpa [stops_cons] using runs⟩

end Text

namespace Numeral

theorem mem_splitSign {cs : List Char} : ∀ c ∈ (splitSign cs).1, c = '+' ∨ c = '-' := by
  intro c isSign
  unfold splitSign at isSign
  split at isSign
  · exact .inl (Option.some.inj isSign).symm
  · exact .inr (Option.some.inj isSign).symm
  · cases isSign

theorem formed_of_splitExponent {cs : List Char} : ∀ e ∈ (splitExponent cs).1, e.Formed := by
  intro e isExponent
  cases cs with
  | nil => cases isExponent
  | cons mark more =>
    simp only [splitExponent] at isExponent
    split at isExponent
    next isMark =>
      split at isExponent
      · cases isExponent
      next some =>
        cases isExponent
        constructor
        · exact isMark
        · exact mem_splitSign
        · exact fun none => some (List.isEmpty_iff.2 none)
        · exact List.all_eq_true.1 List.all_takeWhile
    · cases isExponent

/-- What is split off the front of a text is a numeral. -/
theorem formed_of_split? {cs rest : List Char} {n : Numeral} (found : split? cs = some (n, rest)) :
    n.Formed := by
  have digits (cs : List Char) : ∀ c ∈ cs.takeWhile Text.isDigit, Text.isDigit c = true :=
    List.all_eq_true.1 List.all_takeWhile
  simp only [split?] at found
  split at found
  next more _ =>
    split at found
    · cases found
    next some =>
      cases found
      rw [Bool.and_eq_true, List.isEmpty_iff, List.isEmpty_iff, not_and_or] at some
      exact ⟨some, digits _, digits _, by simp, formed_of_splitExponent⟩
  · split at found
    · cases found
    next some =>
      cases found
      rw [List.isEmpty_iff] at some
      exact ⟨.inl some, digits _, by simp, by simp, formed_of_splitExponent⟩

theorem length_splitExponent (cs : List Char) : (splitExponent cs).2.length ≤ cs.length := by
  have lengths := congrArg List.length (splitExponent_append cs)
  rw [List.length_append] at lengths
  omega

/-- An exponent that stands behind digits is split off, and possibly more digits with it. -/
theorem length_splitExponent_exponentText {exponent : Option Exponent}
    (formed : ∀ e ∈ exponent, e.Formed) (rest : List Char) :
    (splitExponent ((exponentText exponent ++ rest).dropWhile Text.isDigit)).2.length ≤
      rest.length := by
  cases exponent with
  | none =>
    have shorter : (rest.dropWhile Text.isDigit).length ≤ rest.length :=
      (List.dropWhile_suffix _).length_le
    exact Nat.le_trans (length_splitExponent _) shorter
  | some e =>
    have inside := (formed e rfl).digits
    -- the mark of the exponent ends the digits in front of it
    have letter : Text.isDigit e.mark = false :=
      (Bool.or_eq_false_iff.1 (Text.stops_cons.1 (stops_exponent (formed e rfl) rest))).1
    have signed := splitSign_text (formed e rfl) rest
    have nonempty : (e.digits ++ rest).takeWhile Text.isDigit ≠ [] := by
      rw [List.takeWhile_append_of_pos inside]
      exact List.append_ne_nil_of_left_ne_nil (formed e rfl).nonempty _
    have mark := (formed e rfl).mark
    simp only [exponentText, Exponent.text, List.cons_append, List.append_assoc,
      List.dropWhile_cons_of_neg (by simp [letter] : ¬Text.isDigit e.mark = true), splitExponent,
      if_pos mark, signed]
    rw [if_neg (by simpa using nonempty), List.dropWhile_append_of_pos inside]
    exact (List.dropWhile_suffix _).length_le

theorem split?_point {cs more : List Char} (point : cs.dropWhile Text.isDigit = '.' :: more)
    (some : cs.takeWhile Text.isDigit ≠ [] ∨ more.takeWhile Text.isDigit ≠ []) :
    ∃ n, split? cs = .some (n, (splitExponent (more.dropWhile Text.isDigit)).2) := by
  simp only [split?, point]
  rw [if_neg (by rwa [Bool.and_eq_true, List.isEmpty_iff, List.isEmpty_iff, not_and_or])]
  exact ⟨_, rfl⟩

theorem split?_pointless {cs : List Char} (some : cs.takeWhile Text.isDigit ≠ [])
    (pointless : Text.Stops (· == '.') (cs.dropWhile Text.isDigit)) :
    ∃ n, split? cs = .some (n, (splitExponent (cs.dropWhile Text.isDigit)).2) := by
  simp only [split?]
  split
  next more point =>
    rw [point] at pointless
    exact absurd (Text.stops_cons.1 pointless) (by simp)
  · rw [if_neg (by simpa using some)]
    exact ⟨_, rfl⟩

/-- A numeral at the front of a text is split off, and possibly more of the text with it. -/
theorem split?_of_formed {n : Numeral} (formed : n.Formed) (rest : List Char) :
    ∃ longer more, split? (n.text ++ rest) = some (longer, more) ∧ more.length ≤ rest.length := by
  obtain ⟨whole, point, fraction, exponent⟩ := n
  obtain ⟨nonempty, inside, fractionInside, pointless, exponentFormed⟩ := formed
  dsimp only at nonempty inside fractionInside pointless exponentFormed
  have read := length_splitExponent_exponentText exponentFormed rest
  have shorter : (rest.dropWhile Text.isDigit).length ≤ rest.length :=
    (List.dropWhile_suffix _).length_le
  -- the digits in front of the point are taken first, then the point decides
  cases point with
  | true =>
    have pointStops : Text.Stops Text.isDigit
        ('.' :: (fraction ++ (exponentText exponent ++ rest))) :=
      Text.stops_cons.2 (by decide)
    have taken := Text.takeWhile_append_of_stops inside pointStops
    have dropped := Text.dropWhile_append_of_stops inside pointStops
    have some : whole ≠ [] ∨
        (fraction ++ (exponentText exponent ++ rest)).takeWhile Text.isDigit ≠ [] := by
      rw [List.takeWhile_append_of_pos fractionInside]
      exact nonempty.imp_right fun some => List.append_ne_nil_of_left_ne_nil some _
    obtain ⟨longer, split⟩ := split?_point dropped (by rwa [taken])
    rw [List.dropWhile_append_of_pos fractionInside] at split
    exact ⟨longer, _, by simpa [text] using split, read⟩
  | false =>
    obtain rfl : fraction = [] := pointless rfl
    have some : (whole ++ (exponentText exponent ++ rest)).takeWhile Text.isDigit ≠ [] := by
      rw [List.takeWhile_append_of_pos inside]
      exact List.append_ne_nil_of_left_ne_nil (nonempty.resolve_right (by simp)) _
    have dropped : (whole ++ (exponentText exponent ++ rest)).dropWhile Text.isDigit =
        (exponentText exponent ++ rest).dropWhile Text.isDigit :=
      List.dropWhile_append_of_pos inside
    by_cases ends : Text.Stops (· == '.') ((exponentText exponent ++ rest).dropWhile Text.isDigit)
    · obtain ⟨longer, split⟩ := split?_pointless some (by rwa [dropped])
      rw [dropped] at split
      exact ⟨longer, _, by simpa [text] using split, read⟩
    · -- a point further on can only be in the rest, since an exponent would come first
      cases exponent with
      | some e =>
        have letter := stops_exponent (exponentFormed e rfl) rest
        refine absurd ?_ ends
        rw [exponentText, Text.dropWhile_of_stops fun c first =>
          (Bool.or_eq_false_iff.1 (letter c first)).1]
        exact fun c first => (Bool.or_eq_false_iff.1 (letter c first)).2
      | none =>
        obtain ⟨c, more, begins, isPoint⟩ := Text.exists_of_not_stops ends
        obtain rfl := beq_iff_eq.1 isPoint
        obtain ⟨longer, split⟩ := split?_point (dropped.trans begins) (.inl some)
        refine ⟨longer, _, by simpa [text] using split, ?_⟩
        have least := length_splitExponent (more.dropWhile Text.isDigit)
        have less : (more.dropWhile Text.isDigit).length ≤ more.length :=
          (List.dropWhile_suffix _).length_le
        simp only [exponentText, List.nil_append] at begins
        rw [begins, List.length_cons] at shorter
        omega

end Numeral

namespace Lexeme

/-! ### Forms -/

/-- What may stand between quotes: a backslash takes the character after it along, the quote ends
the text, and neither goes past the end of a line. -/
inductive Quotable (quote : Char) : List Char → Prop where
  | nil : Quotable quote []
  | escaped {c cs} : c ≠ '\n' → Quotable quote cs → Quotable quote ('\\' :: c :: cs)
  | plain {c cs} : c ≠ '\\' → c ≠ quote → c ≠ '\n' → Quotable quote cs → Quotable quote (c :: cs)

/-- The piece is of the form. What follows it counts in two of them: a line comment ends with its
line, and the second word of the call marker is a whole word. -/
def Form.Fits : Form → (piece rest : List Char) → Prop
  | blockComment, piece, _ =>
    ∃ body, piece = '/' :: '*' :: (body ++ ['*', '/']) ∧ ¬['*', '/'] <:+: body
  | lineComment, piece, rest =>
    ∃ body, piece = '/' :: '/' :: body ∧ '\n' ∉ body ∧ ∀ c ∈ rest.head?, c = '\n'
  | callMarker, piece, rest =>
    ∃ blanks, piece = 'h' :: 'o' :: 'p' :: (blanks ++ ['o', 'n']) ∧ blanks ≠ [] ∧
      (∀ c ∈ blanks, Text.isBlank c = true) ∧ ∀ c ∈ rest.head?, isWordChar c = false
  | string, piece, _ =>
    ∃ quote body, (quote = '"' ∨ quote = '\'') ∧ piece = quote :: (body ++ [quote]) ∧
      Quotable quote body
  | number, piece, _ => ∃ n : Numeral, n.Formed ∧ piece = n.text
  | word, piece, _ =>
    ∃ c cs, piece = c :: cs ∧ isWordStart c = true ∧ ∀ d ∈ cs, isWordChar d = true
  | gap, piece, _ => piece ≠ [] ∧ ∀ c ∈ piece, isGapChar c = true
  | punctuation, piece, _ => piece ∈ marks

/-! ### What is cut off is of the form -/

theorem exists_of_commentEnd? {cs piece rest : List Char}
    (found : commentEnd? cs = some (piece, rest)) :
    ∃ body, piece = body ++ ['*', '/'] ∧ ¬['*', '/'] <:+: body := by
  fun_induction commentEnd? cs generalizing piece with
  | case1 =>
    cases found
    exact ⟨[], rfl, by simp⟩
  | case2 c cs other ih =>
    obtain ⟨⟨tail, more⟩, tailFound, same⟩ := Option.map_eq_some_iff.1 found
    cases same
    obtain ⟨body, rfl, unclosed⟩ := ih tailFound
    refine ⟨c :: body, rfl, ?_⟩
    -- an end that begins with this character would have been found here
    rw [List.infix_cons_iff]
    rintro (⟨after, first⟩ | inside)
    · obtain ⟨rfl, second⟩ := List.cons.inj first
      obtain ⟨whole, -⟩ := of_commentEnd? tailFound
      exact other _ rfl (by rw [← whole, ← second]; rfl)
    · exact unclosed inside
  | case3 => cases found

theorem exists_of_stringEnd? {quote : Char} {cs piece rest : List Char}
    (found : stringEnd? quote cs = some (piece, rest)) :
    ∃ body, piece = body ++ [quote] ∧ Quotable quote body := by
  fun_induction stringEnd? quote cs generalizing piece with
  | case1 | case2 | case3 | case6 => cases found
  | case4 c cs inLine ih =>
    obtain ⟨⟨tail, more⟩, tailFound, same⟩ := Option.map_eq_some_iff.1 found
    cases same
    obtain ⟨body, rfl, quotable⟩ := ih tailFound
    exact ⟨'\\' :: c :: body, rfl, .escaped inLine quotable⟩
  | case5 =>
    cases found
    exact ⟨[], rfl, .nil⟩
  | case7 c cs last escape other inLine ih =>
    obtain ⟨⟨tail, more⟩, tailFound, same⟩ := Option.map_eq_some_iff.1 found
    cases same
    obtain ⟨body, rfl, quotable⟩ := ih tailFound
    exact ⟨c :: body, rfl, .plain (ne_backslash last escape) other inLine quotable⟩

/-- What is cut off a text as a piece of a form is one. -/
theorem Form.fits_of_cut? {form : Form} {cs piece rest : List Char}
    (found : form.cut? cs = some (piece, rest)) : form.Fits piece rest := by
  cases form <;> simp only [Form.cut?] at found
  case blockComment =>
    unfold blockComment? at found
    split at found
    · obtain ⟨⟨tail, more⟩, tailFound, same⟩ := Option.map_eq_some_iff.1 found
      cases same
      obtain ⟨body, rfl, unclosed⟩ := exists_of_commentEnd? tailFound
      exact ⟨body, rfl, unclosed⟩
    · cases found
  case lineComment =>
    unfold lineComment? at found
    split at found
    next rest =>
      cases found
      refine ⟨_, rfl, ?_, ?_⟩
      · intro member
        simpa using List.mem_takeWhile_imp member
      · intro c first
        have ends := List.head?_dropWhile_not (· ≠ '\n') rest
        rw [Option.mem_def.1 first] at ends
        simpa using ends
    · cases found
  case callMarker =>
    unfold callMarker? at found
    split at found
    next rest =>
      simp only at found
      split at found
      next more _ =>
        split at found
        · cases found
        next ends =>
          cases found
          simp only [Bool.or_eq_true, not_or, List.isEmpty_iff] at ends
          refine ⟨_, rfl, ends.1, List.all_eq_true.1 List.all_takeWhile, ?_⟩
          intro c first
          rw [Option.mem_def.1 first] at ends
          simpa using ends.2
      · cases found
    · cases found
  case string =>
    unfold string? at found
    split at found
    · split at found
      next quote _ isQuote =>
        obtain ⟨⟨tail, more⟩, tailFound, same⟩ := Option.map_eq_some_iff.1 found
        cases same
        obtain ⟨body, rfl, quotable⟩ := exists_of_stringEnd? tailFound
        exact ⟨quote, body, isQuote, rfl, quotable⟩
      · cases found
    · cases found
  case number =>
    obtain ⟨⟨n, more⟩, split, same⟩ := Option.map_eq_some_iff.1 found
    cases same
    exact ⟨n, Numeral.formed_of_split? split, rfl⟩
  case word =>
    unfold word? at found
    split at found
    · split at found
      next c cs starts =>
        cases found
        exact ⟨c, _, rfl, starts, List.all_eq_true.1 List.all_takeWhile⟩
      · cases found
    · cases found
  case gap =>
    have cut : Form.cut? .gap cs = some (piece, rest) := found
    obtain ⟨-, nonempty⟩ := Form.of_cut? cut
    exact ⟨nonempty, isGapChar_of_gap? found⟩
  case punctuation =>
    obtain ⟨mark, listed, same⟩ := Option.map_eq_some_iff.1 found
    cases same
    exact List.mem_of_find?_eq_some listed

/-! ### What is of the form is cut off, and possibly more -/

theorem commentEnd?_of_body {body : List Char} (unclosed : ¬['*', '/'] <:+: body)
    (rest : List Char) :
    commentEnd? (body ++ '*' :: '/' :: rest) = some (body ++ ['*', '/'], rest) := by
  induction body with
  | nil => rfl
  | cons c body ih =>
    rw [List.infix_cons_iff, not_or] at unclosed
    rw [List.cons_append, commentEnd?, ih unclosed.2]
    · rfl
    · -- the slash after a star would be in the body, or be the star that ends it
      rintro more rfl slash
      cases body with
      | nil => cases slash
      | cons d body =>
        cases slash
        exact unclosed.1 ⟨body, rfl⟩

theorem stringEnd?_of_quotable {quote : Char} (isQuote : quote = '"' ∨ quote = '\'')
    {body : List Char} (quotable : Quotable quote body) (rest : List Char) :
    stringEnd? quote (body ++ quote :: rest) = some (body ++ [quote], rest) := by
  induction quotable with
  | nil =>
    have plain : quote ≠ '\\' := by rcases isQuote with rfl | rfl <;> decide
    simp [stringEnd?, plain]
  | escaped inLine _ ih =>
    simp only [List.cons_append, stringEnd?, if_neg inLine, ih]
    rfl
  | plain notEscape other inLine _ ih =>
    rw [List.cons_append, Text.stringEnd?_ordinary ⟨notEscape, other, inLine⟩, ih]
    rfl

theorem lineComment?_of_body {body rest : List Char} (inLine : '\n' ∉ body)
    (ends : ∀ c ∈ rest.head?, c = '\n') :
    lineComment? ('/' :: '/' :: (body ++ rest)) = some ('/' :: '/' :: body, rest) := by
  have inside : ∀ c ∈ body, decide (c ≠ '\n') = true := by
    intro c member
    rw [decide_eq_true_iff]
    rintro rfl
    exact inLine member
  have stops : Text.Stops (fun c => decide (c ≠ '\n')) rest := by
    intro c first
    simp [ends c first]
  rw [lineComment?, Text.takeWhile_append_of_stops inside stops,
    Text.dropWhile_append_of_stops inside stops]

theorem callMarker?_of_blanks {blanks rest : List Char} (some : blanks ≠ [])
    (inside : ∀ c ∈ blanks, Text.isBlank c = true) (ends : ∀ c ∈ rest.head?, isWordChar c = false) :
    callMarker? ('h' :: 'o' :: 'p' :: (blanks ++ 'o' :: 'n' :: rest)) =
      .some ('h' :: 'o' :: 'p' :: (blanks ++ ['o', 'n']), rest) := by
  have stops : Text.Stops Text.isBlank ('o' :: 'n' :: rest) := Text.stops_cons.2 (by decide)
  have whole : rest.head?.any isWordChar = false := by
    cases rest with
    | nil => rfl
    | cons c rest => exact ends c rfl
  simp [callMarker?, Text.takeWhile_append_of_stops inside stops,
    Text.dropWhile_append_of_stops inside stops, some, whole]

/-- No mark goes on in one that is listed after it, so the first one found is the longest. -/
theorem punctuation?_of_mem {piece : List Char} (listed : piece ∈ marks) (rest : List Char) :
    ∃ cut, punctuation? (piece ++ rest) = some cut ∧ piece.length ≤ cut.1.length := by
  -- checked mark by mark
  have order : marks.Pairwise fun earlier later => ¬earlier <+: later := by decide
  have isPrefix : piece <+: piece ++ rest := List.prefix_append piece rest
  have found : (marks.find? (·.isPrefixOf (piece ++ rest))).isSome = true :=
    List.find?_isSome.2 ⟨piece, listed, List.isPrefixOf_iff_prefix.2 isPrefix⟩
  obtain ⟨mark, found⟩ := Option.isSome_iff_exists.1 found
  refine ⟨(mark, (piece ++ rest).drop mark.length), by rw [punctuation?, found]; rfl, ?_⟩
  obtain ⟨starts, before, after, split, failed⟩ := List.find?_eq_some_iff_append.1 found
  have starts : mark <+: piece ++ rest := List.isPrefixOf_iff_prefix.1 starts
  rw [split, List.mem_append, List.mem_cons] at listed
  -- a mark that is listed earlier would have been found instead
  rcases listed with earlier | rfl | later
  · simpa [List.isPrefixOf_iff_prefix.2 isPrefix] using failed piece earlier
  · exact Nat.le_refl _
  · rw [split, List.pairwise_append, List.pairwise_cons] at order
    -- both are at the front of the text, so one goes on in the other
    rcases List.prefix_or_prefix_of_prefix starts isPrefix with goesOn | stops
    · exact absurd goesOn (order.2.1.1 piece later)
    · exact stops.length_le

/-- Where a piece of a form stands, one is cut off that is no shorter. -/
theorem Form.Fits.exists_cut? {form : Form} {piece rest : List Char} (fits : form.Fits piece rest) :
    ∃ cut, form.cut? (piece ++ rest) = some cut ∧ piece.length ≤ cut.1.length := by
  -- four of the forms cannot go on, and are cut off as they are
  have unchanged (cut : form.cut? (piece ++ rest) = some (piece, rest)) :
      ∃ cut, form.cut? (piece ++ rest) = some cut ∧ piece.length ≤ cut.1.length :=
    ⟨(piece, rest), cut, Nat.le_refl _⟩
  cases form <;> simp only [Form.Fits] at fits
  case blockComment =>
    obtain ⟨body, rfl, unclosed⟩ := fits
    apply unchanged
    simp [Form.cut?, blockComment?, commentEnd?_of_body unclosed, Cut.prepend]
  case lineComment =>
    obtain ⟨body, rfl, inLine, ends⟩ := fits
    exact unchanged (lineComment?_of_body inLine ends)
  case callMarker =>
    obtain ⟨blanks, rfl, some, inside, ends⟩ := fits
    apply unchanged
    simpa [Form.cut?] using callMarker?_of_blanks some inside ends
  case string =>
    obtain ⟨quote, body, isQuote, rfl, quotable⟩ := fits
    apply unchanged
    simp [Form.cut?, string?, isQuote, stringEnd?_of_quotable isQuote quotable, Cut.prepend]
  case number =>
    obtain ⟨n, formed, rfl⟩ := fits
    obtain ⟨longer, more, split, shorter⟩ := Numeral.split?_of_formed formed rest
    refine ⟨(longer.text, more), by simp [Form.cut?, number?, split], ?_⟩
    have lengths := congrArg List.length (Numeral.text_append_of_split? split)
    simp only [List.length_append] at lengths ⊢
    omega
  case word =>
    obtain ⟨c, cs, rfl, starts, inside⟩ := fits
    refine ⟨_, by rw [Form.cut?, List.cons_append, word?, if_pos starts], ?_⟩
    simp [List.takeWhile_append_of_pos inside]
  case gap =>
    obtain ⟨some, inside⟩ := fits
    have taken : (piece ++ rest).takeWhile isGapChar = piece ++ rest.takeWhile isGapChar :=
      List.takeWhile_append_of_pos inside
    refine ⟨(piece ++ rest.takeWhile isGapChar, (piece ++ rest).dropWhile isGapChar), ?_, by simp⟩
    rw [Form.cut?, gap?, taken, if_neg (by simp [some])]
  case punctuation => exact punctuation?_of_mem fits rest

/-! ### The first piece of a text -/

/-- The piece is the longest one of its form, and no form that is tried earlier has one there. -/
structure Form.Chosen (form : Form) (piece rest : List Char) : Prop where
  fits : form.Fits piece rest
  longest : ∀ longer more, longer ++ more = piece ++ rest → form.Fits longer more →
    longer.length ≤ piece.length
  earliest : ∀ other ∈ Form.all.takeWhile (· ≠ form), ∀ front more, front ++ more = piece ++ rest →
    ¬other.Fits front more

theorem not_fits_of_cut? {form : Form} {cs : List Char} (none : form.cut? cs = none)
    {piece rest : List Char} (whole : piece ++ rest = cs) : ¬form.Fits piece rest := by
  intro fits
  obtain ⟨cut, found, -⟩ := fits.exists_cut?
  rw [whole, none] at found
  cases found

theorem chosen_of_first? {cs piece rest : List Char} {form : Form}
    (found : first? cs = some (form, piece, rest)) :
    piece ++ rest = cs ∧ form.Chosen piece rest := by
  obtain ⟨cut, whole, -⟩ := of_first? found
  refine ⟨whole, ?_⟩
  constructor
  · exact Form.fits_of_cut? cut
  · intro longer more same fits
    -- what is cut off is at least as long as any piece of the form
    obtain ⟨_, found, bound⟩ := fits.exists_cut?
    rw [same, whole, cut] at found
    cases found
    exact bound
  · intro other earlier front more same
    exact not_fits_of_cut? (earlier_of_first? found other earlier) (same.trans whole)

/-- A text of which nothing is cut off does not begin with a piece of any form. -/
theorem not_fits_of_first? {cs : List Char} (none : first? cs = none) (form : Form)
    {piece rest : List Char} (whole : piece ++ rest = cs) : ¬form.Fits piece rest := by
  have failed := List.findSome?_eq_none_iff.1 none form (by cases form <;> decide)
  exact not_fits_of_cut? (Option.map_eq_none_iff.1 failed) whole

end Lexeme

end YapLang
