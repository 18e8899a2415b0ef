import Mathlib.Data.List.Find
import YapLang.Proofs.Cutting

/-!
# Texts on lines of their own

A text that is cut into tokens is cut into the same tokens if further lines follow it, with two
exceptions. A block comment that is not closed is no comment but two marks, and could be closed on a
later line; and the first word of the call marker could find the second one there. Whether either is
so can be told from the tokens of the text, and a text is settled if neither is.
-/
namespace YapLang.Lexeme

/-- The same cut of a text that goes on. -/
def Cut.before (more : List Char) (cut : Cut) : Cut :=
  (cut.1, cut.2 ++ more)

variable (more : List Char)

/-! ### Pieces in front of a line break -/

theorem takeWhile_line {within : Char → Bool} (stops : within '\n' = false) (cs : List Char) :
    (cs ++ '\n' :: more).takeWhile within = cs.takeWhile within := by
  induction cs with
  | nil => simp [stops]
  | cons c cs ih => by_cases inside : within c = true <;> simp [inside, ih]

theorem dropWhile_line {within : Char → Bool} (stops : within '\n' = false) (cs : List Char) :
    (cs ++ '\n' :: more).dropWhile within = cs.dropWhile within ++ '\n' :: more := by
  induction cs with
  | nil => simp [stops]
  | cons c cs ih => by_cases inside : within c = true <;> simp [inside, ih]

theorem lineComment?_line (cs : List Char) :
    lineComment? (cs ++ '\n' :: more) = (lineComment? cs).map (Cut.before ('\n' :: more)) := by
  match cs with
  | [] | [c] => simp [lineComment?]
  | c :: d :: rest =>
    by_cases slashes : c = '/' ∧ d = '/'
    · obtain ⟨rfl, rfl⟩ := slashes
      simp [lineComment?, Cut.before, takeWhile_line, dropWhile_line]
    · have other (rest : List Char) : lineComment? (c :: d :: rest) = none := by
        unfold lineComment?
        split
        · simp_all
        · rfl
      simp [other]

theorem prepend_before (front : List Char) :
    Cut.prepend front ∘ Cut.before more = Cut.before more ∘ Cut.prepend front := rfl

theorem ne_backslash {c : Char} {rest : List Char} (last : c = '\\' → rest = [] → False)
    (escape : ∀ d rest', c = '\\' → rest = d :: rest' → False) : c ≠ '\\' := by
  intro same
  cases rest with
  | nil => exact last same rfl
  | cons d rest => exact escape d rest same rfl

theorem stringEnd?_line {quote : Char} (inLine : quote ≠ '\n') (cs : List Char) :
    stringEnd? quote (cs ++ '\n' :: more) =
      (stringEnd? quote cs).map (Cut.before ('\n' :: more)) := by
  fun_induction stringEnd? quote cs with
  -- no closing quote: the line break ends the search, as the end of the text did
  | case1 => simp [stringEnd?, Ne.symm inLine]
  -- an escape at the end, or in front of a line break
  | case2 | case3 => simp [stringEnd?]
  | case4 c rest other ih =>
    simp [stringEnd?, other, ih, prepend_before]
  | case5 rest last escape =>
    have plain : quote ≠ '\\' := ne_backslash last escape
    simp [stringEnd?, plain, Cut.before]
  | case6 rest last escape other =>
    simp [stringEnd?, Ne.symm inLine]
  | case7 c rest last escape other inLine' ih =>
    have plain : c ≠ '\\' := ne_backslash last escape
    simp [stringEnd?, plain, other, inLine', ih, prepend_before]

theorem string?_line (cs : List Char) :
    string? (cs ++ '\n' :: more) = (string? cs).map (Cut.before ('\n' :: more)) := by
  cases cs with
  | nil => simp [string?]
  | cons quote rest =>
    by_cases opens : quote = '"' ∨ quote = '\''
    · have inLine : quote ≠ '\n' := by rcases opens with rfl | rfl <;> decide
      simp [string?, opens, stringEnd?_line more inLine, prepend_before]
    · simp [string?, opens]

theorem splitSign_line (cs : List Char) :
    Numeral.splitSign (cs ++ '\n' :: more) =
      ((Numeral.splitSign cs).1, (Numeral.splitSign cs).2 ++ '\n' :: more) := by
  fun_cases Numeral.splitSign cs with
  | case1 | case2 => rfl
  | case3 plus minus =>
    cases cs with
    | nil => rfl
    | cons c cs => simp_all [Numeral.splitSign]

theorem splitExponent_line (cs : List Char) :
    Numeral.splitExponent (cs ++ '\n' :: more) =
      ((Numeral.splitExponent cs).1, (Numeral.splitExponent cs).2 ++ '\n' :: more) := by
  cases cs with
  | nil => simp [Numeral.splitExponent]
  | cons mark rest =>
    have stops : Text.isDigit '\n' = false := by decide
    simp only [List.cons_append, Numeral.splitExponent, splitSign_line, takeWhile_line more stops,
      dropWhile_line more stops]
    split
    · split <;> rfl
    · rfl

theorem number?_line (cs : List Char) :
    number? (cs ++ '\n' :: more) = (number? cs).map (Cut.before ('\n' :: more)) := by
  have stops : Text.isDigit '\n' = false := by decide
  simp only [number?, Numeral.split?, takeWhile_line more stops, dropWhile_line more stops]
  generalize cs.takeWhile Text.isDigit = whole
  cases cs.dropWhile Text.isDigit with
  | nil =>
    have exponent := splitExponent_line more []
    rw [List.nil_append] at exponent
    by_cases digits : whole.isEmpty <;> simp [digits, exponent, Cut.before, Numeral.text]
  | cons c rest =>
    by_cases point : c = '.'
    · subst point
      simp only [List.cons_append, takeWhile_line more stops, dropWhile_line more stops,
        splitExponent_line]
      split <;> rfl
    · have exponent := splitExponent_line more (c :: rest)
      rw [List.cons_append] at exponent
      by_cases digits : whole.isEmpty <;> simp [digits, point, exponent, Cut.before, Numeral.text]

theorem word?_line (cs : List Char) :
    word? (cs ++ '\n' :: more) = (word? cs).map (Cut.before ('\n' :: more)) := by
  have stops : isWordChar '\n' = false := by decide
  cases cs with
  | nil => rfl
  | cons c rest =>
    simp only [List.cons_append, word?, takeWhile_line more stops, dropWhile_line more stops]
    split <;> rfl

theorem isPrefixOf_line {mark : List Char} (inLine : '\n' ∉ mark) (cs : List Char) :
    mark.isPrefixOf (cs ++ '\n' :: more) = mark.isPrefixOf cs := by
  induction mark generalizing cs with
  | nil => rfl
  | cons c mark ih =>
    simp only [List.mem_cons, not_or] at inLine
    cases cs with
    | nil => simp [List.isPrefixOf, Ne.symm inLine.1]
    | cons d cs => simp [List.isPrefixOf, ih inLine.2]

theorem punctuation?_line (cs : List Char) :
    punctuation? (cs ++ '\n' :: more) = (punctuation? cs).map (Cut.before ('\n' :: more)) := by
  -- no mark goes on after a line break, so the same one is found first
  have inLine : ∀ mark ∈ marks, '\n' ∉ mark := by decide
  have found : marks.find? (·.isPrefixOf (cs ++ '\n' :: more)) = marks.find? (·.isPrefixOf cs) :=
    List.find?_congr fun mark listed => isPrefixOf_line more (inLine mark listed) cs
  rw [punctuation?, punctuation?, found]
  cases starts : marks.find? (·.isPrefixOf cs) with
  | none => rfl
  | some mark =>
    obtain ⟨rest, rfl⟩ : mark <+: cs := by simpa using List.find?_some starts
    simp [Cut.before]

theorem commentEnd?_append {cs : List Char} {cut : Cut} (found : commentEnd? cs = some cut) :
    commentEnd? (cs ++ more) = some (cut.before more) := by
  fun_induction commentEnd? cs generalizing cut with
  | case1 rest =>
    cases found
    rfl
  | case2 c rest other ih =>
    obtain ⟨tail, tailFound, rfl⟩ := Option.map_eq_some_iff.1 found
    cases rest with
    | nil => cases tailFound
    | cons d rest =>
      have further := ih tailFound
      rw [List.cons_append] at further ⊢
      rw [List.cons_append, commentEnd?, further]
      · rfl
      -- the end of the comment would have been found in the shorter text
      · intro rest' star slash
        cases slash
        exact other rest star rfl
  | case3 => cases found

/-- A block comment that is closed stays as it is. -/
theorem blockComment?_line {cs : List Char}
    (closed : ∀ rest, cs = '/' :: '*' :: rest → commentEnd? rest ≠ none) :
    blockComment? (cs ++ '\n' :: more) = (blockComment? cs).map (Cut.before ('\n' :: more)) := by
  match cs with
  | [] | [c] => simp [blockComment?]
  | c :: d :: rest =>
    by_cases opens : c = '/' ∧ d = '*'
    · obtain ⟨rfl, rfl⟩ := opens
      obtain ⟨cut, found⟩ := Option.ne_none_iff_exists'.1 (closed rest rfl)
      simp [blockComment?, found, commentEnd?_append _ found]
      rfl
    · have other (rest : List Char) : blockComment? (c :: d :: rest) = none := by
        unfold blockComment?
        split
        · simp_all
        · rfl
      simp [other]

theorem callMarker?_hop {rest : List Char} (apart : rest.dropWhile Text.isBlank ≠ []) :
    callMarker? ('h' :: 'o' :: 'p' :: (rest ++ '\n' :: more)) =
      (callMarker? ('h' :: 'o' :: 'p' :: rest)).map (Cut.before ('\n' :: more)) := by
  have stops : isWordChar '\n' = false := by decide
  have drop : (rest ++ '\n' :: more).dropWhile Text.isBlank =
      rest.dropWhile Text.isBlank ++ '\n' :: more := by
    simp [List.dropWhile_append, apart]
  -- what is taken is what is left of the text without what is dropped
  have take : (rest ++ '\n' :: more).takeWhile Text.isBlank = rest.takeWhile Text.isBlank := by
    have whole := List.takeWhile_append_dropWhile (p := Text.isBlank) (l := rest ++ '\n' :: more)
    rw [drop, ← List.append_assoc] at whole
    have front := List.append_cancel_right whole
    exact List.append_cancel_right (front.trans List.takeWhile_append_dropWhile.symm)
  simp only [callMarker?, drop, take]
  rcases rest.dropWhile Text.isBlank with _ | ⟨d, _ | ⟨e, tail⟩⟩
  · simp
  · simp
  · by_cases second : d = 'o' ∧ e = 'n'
    · obtain ⟨rfl, rfl⟩ := second
      -- a line break ends the second word as well as the end of the text does
      have head : (tail ++ '\n' :: more).head?.any isWordChar = tail.head?.any isWordChar := by
        cases tail with
        | nil => simp [stops]
        | cons f tail => rfl
      simp only [List.cons_append, head]
      split <;> rfl
    · simp_all

/-- The call marker is found only where it was, unless its first word is the last one. -/
theorem callMarker?_line {cs : List Char}
    (apart : ∀ rest, cs = 'h' :: 'o' :: 'p' :: rest → rest.dropWhile Text.isBlank ≠ []) :
    callMarker? (cs ++ '\n' :: more) = (callMarker? cs).map (Cut.before ('\n' :: more)) := by
  match cs with
  | [] | [c] | [c, d] => simp [callMarker?]
  | c :: d :: e :: rest =>
    by_cases first : c = 'h' ∧ d = 'o' ∧ e = 'p'
    · obtain ⟨rfl, rfl, rfl⟩ := first
      exact callMarker?_hop more (apart rest rfl)
    · have other (rest : List Char) : callMarker? (c :: d :: e :: rest) = none := by
        unfold callMarker?
        split
        · simp_all
        · rfl
      simp [other]

theorem gap?_line {cs : List Char} (nonempty : cs ≠ []) (none : gap? cs = none) :
    gap? (cs ++ '\n' :: more) = Option.none := by
  cases cs with
  | nil => exact absurd rfl nonempty
  | cons c cs =>
    by_cases gap : isGapChar c = true
    · simp [gap?, gap] at none
    · simp [gap?, gap]

theorem isGapChar_of_gap? {cs piece rest : List Char} (found : gap? cs = some (piece, rest)) :
    ∀ c ∈ piece, isGapChar c = true := by
  unfold gap? at found
  split at found
  · cases found
  · cases found
    exact fun c member => List.mem_takeWhile_imp member

/-! ### The first piece of a text -/

theorem earlier_of_first? {cs : List Char} {form : Form} {cut : Cut}
    (found : first? cs = some (form, cut)) :
    ∀ other ∈ Form.all.takeWhile (· ≠ form), other.cut? cs = none := by
  obtain ⟨before, tried, after, order, triedFound, failed⟩ := List.findSome?_eq_some_iff.1 found
  obtain ⟨triedCut, -, same⟩ := Option.map_eq_some_iff.1 triedFound
  cases same
  intro other earlier
  -- the forms in front of it were tried first
  have listed : other ∈ before := by
    rw [order, List.takeWhile_append] at earlier
    split at earlier
    · simpa using earlier
    · exact List.takeWhile_subset _ earlier
  exact Option.map_eq_none_iff.1 (failed other listed)

/-- A piece that is not a gap is the first one even if further lines follow, unless it starts a
comment that is not closed or is the first word of a call marker that is not complete. -/
theorem first?_line {cs : List Char} {form : Form} {cut : Cut}
    (found : first? cs = some (form, cut)) (solid : form ≠ .gap)
    (closed : ∀ rest, cs = '/' :: '*' :: rest → commentEnd? rest ≠ none)
    (apart : ∀ rest, cs = 'h' :: 'o' :: 'p' :: rest → rest.dropWhile Text.isBlank ≠ []) :
    first? (cs ++ '\n' :: more) = some (form, cut.before ('\n' :: more)) := by
  have unchanged (other : Form) (solid : other ≠ .gap) :
      other.cut? (cs ++ '\n' :: more) = (other.cut? cs).map (Cut.before ('\n' :: more)) := by
    cases other with
    | blockComment => exact blockComment?_line more closed
    | lineComment => exact lineComment?_line more cs
    | callMarker => exact callMarker?_line more apart
    | string => exact string?_line more cs
    | number => exact number?_line more cs
    | word => exact word?_line more cs
    | gap => exact absurd rfl solid
    | punctuation => exact punctuation?_line more cs
  obtain ⟨cutFound, whole, nonempty⟩ := of_first? found
  apply first?_of_cut?
  · rw [unchanged form solid, cutFound]
    rfl
  · intro other earlier
    have failed := earlier_of_first? found other earlier
    by_cases gap : other = .gap
    · subst gap
      -- a gap is the one form that goes on over the line break, but it does not start here
      refine gap?_line more ?_ failed
      rw [← whole]
      exact List.append_ne_nil_of_left_ne_nil nonempty _
    · rw [unchanged other gap, failed]
      rfl

variable {more}

/-! ### What may still be changed by a later line -/

/-- A comment that is not closed starts with a slash that is a mark, and so is the star after it. -/
theorem Splits.open_comment {rest : List Char} {shapes : List (Token.Kind × String)}
    (unclosed : commentEnd? rest = none) (splits : Splits ('/' :: '*' :: rest) shapes) :
    ∃ others, shapes = (.punctuation, "/") :: (.punctuation, "*") :: others := by
  -- neither comment fits, and nothing but a mark starts with a slash otherwise
  have slash : first? ('/' :: '*' :: rest) = some (.punctuation, ['/'], '*' :: rest) := by
    apply first?_of_cut?
    · rfl
    · intro other earlier
      cases other
      case blockComment => simp [Form.cut?, blockComment?, unclosed]
      case lineComment => simp [Form.cut?, lineComment?]
      case punctuation => exact absurd earlier (by decide)
      all_goals exact Form.cut?_eq_none (by decide) _
  have star : first? ('*' :: rest) = some (.punctuation, ['*'], rest) := by
    apply first?_of_cut?
    · rfl
    · intro other earlier
      have table : ∀ other ∈ Form.all.takeWhile (· ≠ .punctuation), other.opens '*' = false := by
        decide
      exact Form.cut?_eq_none (table other earlier) _
  cases splits with
  | cut found inner =>
    rw [slash] at found
    cases found
    cases inner with
    | cut found inner =>
      rw [star] at found
      cases found
      exact ⟨_, rfl⟩

theorem gap_of_isBlank {c : Char} (blank : Text.isBlank c = true) {form : Form}
    (opens : form.opens c = true) : form = .gap := by
  have other {d : Char} (solid : Text.isBlank d = false) : c ≠ d := by
    rintro rfl
    simp [blank] at solid
  cases form
  case gap => rfl
  case blockComment | lineComment | callMarker =>
    exact absurd (beq_iff_eq.1 opens) (other (by decide))
  case string =>
    simp only [Form.opens, Bool.or_eq_true, beq_iff_eq] at opens
    rcases opens with quote | quote <;> exact absurd quote (other (by decide))
  case number =>
    simp only [Form.opens, Bool.or_eq_true, beq_iff_eq] at opens
    rcases opens with digit | point
    · simp [Text.isBlank_of_isDigit digit] at blank
    · exact absurd point (other (by decide))
  case word =>
    have inside : isWordChar c = true := by
      simp only [Form.opens, isWordStart, isWordChar, Char.isAlphanum, Bool.or_eq_true] at opens ⊢
      tauto
    simp [isBlank_of_isWordChar inside] at blank
  case punctuation =>
    have table : ∀ mark ∈ marks, mark.head?.all (fun d => !Text.isBlank d) = true := by decide
    obtain ⟨mark, listed, head⟩ := List.any_eq_true.1 opens
    have solid := table mark listed
    rw [beq_iff_eq.1 head] at solid
    simp [blank] at solid

/-- Blanks are no tokens. -/
theorem Splits.of_blanks {cs : List Char} {shapes : List (Token.Kind × String)}
    (splits : Splits cs shapes) (blanks : ∀ c ∈ cs, Text.isBlank c = true) : shapes = [] := by
  induction splits with
  | done => rfl
  | @cut cs form piece rest shapes found inner ih =>
    obtain ⟨cutFound, rfl, nonempty⟩ := of_first? found
    obtain ⟨c, piece, rfl⟩ := List.exists_cons_of_ne_nil nonempty
    -- a form that does not open with the character cuts nothing off
    have opens : form.opens c = true := by
      by_contra other
      rw [List.cons_append, Form.cut?_eq_none (Bool.eq_false_iff.2 other)] at cutFound
      cases cutFound
    have gap := gap_of_isBlank (blanks c (by simp)) opens
    have rest := ih fun c member => blanks c (List.mem_append_right _ member)
    rw [gap, rest]
    rfl

/-- The first word of the call marker and nothing but blanks after it. -/
theorem Splits.open_marker {blanks : List Char} {shapes : List (Token.Kind × String)}
    (inside : ∀ c ∈ blanks, Text.isBlank c = true)
    (splits : Splits ('h' :: 'o' :: 'p' :: blanks) shapes) : shapes = [(.identifier, "hop")] := by
  have word : first? ('h' :: 'o' :: 'p' :: blanks) = some (.word, ['h', 'o', 'p'], blanks) := by
    show first? ('h' :: ['o', 'p'] ++ blanks) = some (.word, 'h' :: ['o', 'p'], blanks)
    apply first?_word (by decide) (List.all_eq_true.1 (by decide))
    · cases blanks with
      | nil => exact Text.stops_nil _
      | cons c blanks =>
        rw [Text.stops_cons, Bool.eq_false_iff]
        intro continues
        simp [isBlank_of_isWordChar continues] at inside
    · intro _
      rw [List.dropWhile_eq_nil_iff.2 inside]
      exact Text.stops_nil _
  cases splits with
  | cut found inner =>
    rw [word] at found
    cases found
    rw [inner.of_blanks inside]
    rfl

/-! ### Settled texts -/

/-- Nothing on a later line can change tokens of these shapes: no slash stands in front of a star,
and the last one is not the first word of the call marker. -/
structure Settled (shapes : List (Token.Kind × String)) : Prop where
  apart : shapes.IsChain fun a b => ¬(a = (.punctuation, "/") ∧ b = (.punctuation, "*"))
  complete : shapes.getLast? ≠ some (.identifier, "hop")

theorem Settled.of_append {front shapes : List (Token.Kind × String)}
    (settled : Settled (front ++ shapes)) : Settled shapes := by
  constructor
  · exact (List.isChain_append.1 settled.apart).2.1
  · intro last
    exact settled.complete (by simp [List.getLast?_append, last])

/-- A settled text and the lines after it are cut apart. -/
theorem Splits.line {cs : List Char} {shapes shapes' : List (Token.Kind × String)}
    (splits : Splits cs shapes) (settled : Settled shapes) (next : Splits more shapes') :
    Splits (cs ++ '\n' :: more) (shapes ++ shapes') := by
  induction splits with
  | done =>
    have inside : ∀ c ∈ ['\n'], isGapChar c = true := by simp [isGapChar]
    -- at the end, the line break is a gap in front of what follows
    have broken := next.gap inside
    exact broken
  | @cut cs form piece rest shapes found inner ih =>
    have further := ih settled.of_append
    by_cases gap : form = .gap
    · subst gap
      obtain ⟨cutFound, rfl, -⟩ := of_first? found
      rw [List.append_assoc]
      exact further.gap (isGapChar_of_gap? cutFound)
    · have whole := Splits.cut found inner
      rw [List.append_assoc]
      refine .cut (first?_line more found gap ?_ ?_) further
      -- an open comment would show as a slash in front of a star
      · rintro rest rfl unclosed
        obtain ⟨others, same⟩ := whole.open_comment unclosed
        have apart := settled.apart
        rw [same] at apart
        exact (List.isChain_cons_cons.1 apart).1 ⟨rfl, rfl⟩
      -- and an open call marker as its first word at the end
      · rintro rest rfl blanks
        rw [whole.open_marker (List.dropWhile_eq_nil_iff.1 blanks)] at settled
        exact settled.complete rfl

end YapLang.Lexeme
