import Mathlib.Data.Bool.AllAny
import Mathlib.Data.Nat.Digits.Lemmas
import YapLang.Proofs.TextLetters
import YapLang.Text.JsonString
import YapLang.Token.Lexeme

/-!
# Written texts are read back

A text is written between quotes, and each of its letters as itself, as a backslash with a
character, or as a backslash with digits in base sixteen. How a letter stands in a literal is said
once, by what reads a literal: the search for the closing quote goes past it, and it is part of the
value. A writer all of whose characters stand for the letters of the text has written a literal of
that text; there are two such writers, one of scripts and one of messages. Halves are letters like
others: both writers name them by their number.
-/
namespace YapLang.Text

/-! ### Digits in base sixteen -/

/-- The characters that numbers in base sixteen are written with. -/
def hexChars : List Char :=
  "0123456789abcdef".toList

theorem digitChar_mem_hexChars {d : Nat} (below : d < 16) :
    d.digitChar ∈ hexChars ∧ baseDigit? 16 d.digitChar = some d := by
  have table : ∀ d ∈ List.range 16,
      d.digitChar ∈ hexChars ∧ baseDigit? 16 d.digitChar = some d := by decide
  exact table d (List.mem_range.2 below)

theorem mem_hexChars_of_toDigits (n : Nat) : ∀ c ∈ Nat.toDigits 16 n, c ∈ hexChars := by
  induction n using Nat.strongRecOn with
  | _ n ih =>
    intro c member
    rw [Nat.toDigits_eq_if (by decide)] at member
    split at member
    · rename_i digit
      rw [List.mem_singleton.1 member]
      exact (digitChar_mem_hexChars digit).1
    · rcases List.mem_append.1 member with front | last
      · exact ih (n / 16) (by omega) c front
      · rw [List.mem_singleton.1 last]
        exact (digitChar_mem_hexChars (Nat.mod_lt n (by decide))).1

/-- Reads all the digits of a list. -/
theorem takeHex?_append {digits : List Char} (inside : ∀ c ∈ digits, c ∈ hexChars)
    (count value : Nat) (rest : List Char) :
    takeHex? (digits.length + count) value (digits ++ rest) =
      takeHex? count (digits.foldl (fun v c => 16 * v + (baseDigit? 16 c).getD 0) value) rest := by
  induction digits generalizing value with
  | nil => simp
  | cons c digits ih =>
    have table : ∀ c ∈ hexChars, (baseDigit? 16 c).isSome = true := List.all_eq_true.1 (by decide)
    obtain ⟨digit, found⟩ := Option.isSome_iff_exists.1 (table c (inside c List.mem_cons_self))
    rw [List.length_cons, Nat.add_right_comm, List.cons_append, takeHex?, found, List.foldl_cons,
      found]
    exact ih (fun c member => inside c (List.mem_cons_of_mem _ member)) _

theorem foldl_toDigits (n : Nat) :
    (Nat.toDigits 16 n).foldl (fun v c => 16 * v + (baseDigit? 16 c).getD 0) 0 = n := by
  induction n using Nat.strongRecOn with
  | _ n ih =>
    rw [Nat.toDigits_eq_if (by decide)]
    split
    · rename_i digit
      simp [(digitChar_mem_hexChars digit).2]
    · rw [List.foldl_append, ih (n / 16) (by omega)]
      simp only [List.foldl_cons, List.foldl_nil,
        (digitChar_mem_hexChars (Nat.mod_lt n (by decide : 16 > 0))).2, Option.getD_some]
      omega

theorem length_hex {width n : Nat} (positive : 0 < width) (fits : n < 16 ^ width) :
    (hex width n).length = width := by
  have short := Nat.toDigits_length 16 n width positive fits
  simp only [hex, List.length_append, List.length_replicate]
  omega

theorem mem_hexChars_of_hex (width n : Nat) {c : Char} (member : c ∈ hex width n) :
    c ∈ hexChars := by
  rcases List.mem_append.1 member with zero | digit
  · rw [List.eq_of_mem_replicate zero]
    decide
  · exact mem_hexChars_of_toDigits n c digit

theorem foldl_zeros (count : Nat) :
    (List.replicate count '0').foldl (fun v c => 16 * v + (baseDigit? 16 c).getD 0) 0 = 0 := by
  have zero : baseDigit? 16 '0' = some 0 := by decide
  induction count with
  | zero => rfl
  | succ count ih => simp [List.replicate_succ, zero, ih]

theorem takeHex?_hex {width n : Nat} (positive : 0 < width) (fits : n < 16 ^ width)
    (rest : List Char) : takeHex? width 0 (hex width n ++ rest) = some (n, rest) := by
  -- the zeros in front count as digits
  have read := takeHex?_append (fun c => mem_hexChars_of_hex width n) 0 0 rest
  rw [length_hex positive fits, Nat.add_zero] at read
  rw [read, hex, List.foldl_append, foldl_zeros, foldl_toDigits]
  rfl

/-! ### The closing quote -/

/-- The marks that a literal stands between. -/
def IsQuote (quote : Char) : Prop :=
  quote = '"' ∨ quote = '\''

theorem stringEnd?_ordinary {quote c : Char} (ordinary : c ≠ '\\' ∧ c ≠ quote ∧ c ≠ '\n')
    (rest : List Char) :
    Lexeme.stringEnd? quote (c :: rest) =
      (Lexeme.stringEnd? quote rest).map (Lexeme.Cut.prepend [c]) := by
  rw [Lexeme.stringEnd?, if_neg ordinary.2.1, if_neg ordinary.2.2]
  · exact fun same _ => ordinary.1 same
  · exact fun _ _ same => absurd same ordinary.1

theorem ordinary_of_hexChars {quote c : Char} (isQuote : IsQuote quote) (digit : c ∈ hexChars) :
    c ≠ '\\' ∧ c ≠ quote ∧ c ≠ '\n' := by
  have table : ∀ c ∈ hexChars, c ≠ '\\' ∧ c ≠ '"' ∧ c ≠ '\'' ∧ c ≠ '\n' :=
    List.all_iff_forall_prop.1 (by decide)
  obtain ⟨backslash, double, single, newline⟩ := table c digit
  rcases isQuote with rfl | rfl
  · exact ⟨backslash, double, newline⟩
  · exact ⟨backslash, single, newline⟩

theorem stringEnd?_run {quote : Char} (isQuote : IsQuote quote) {run : List Char}
    (digits : ∀ c ∈ run, c ∈ hexChars) (rest : List Char) :
    Lexeme.stringEnd? quote (run ++ rest) =
      (Lexeme.stringEnd? quote rest).map (Lexeme.Cut.prepend run) := by
  induction run with
  | nil =>
    rw [List.nil_append]
    cases Lexeme.stringEnd? quote rest <;> rfl
  | cons c run ih =>
    rw [List.cons_append,
      stringEnd?_ordinary (ordinary_of_hexChars isQuote (digits c List.mem_cons_self)),
      ih fun c member => digits c (List.mem_cons_of_mem _ member), Option.map_map]
    rfl

/-- The search for the closing quote goes past the characters. -/
def GoesOn (quote : Char) (text : List Char) : Prop :=
  ∀ rest, Lexeme.stringEnd? quote (text ++ rest) =
    (Lexeme.stringEnd? quote rest).map (Lexeme.Cut.prepend text)

theorem GoesOn.append {quote : Char} {text more : List Char} (first : GoesOn quote text)
    (second : GoesOn quote more) : GoesOn quote (text ++ more) := by
  intro rest
  have together : Lexeme.Cut.prepend text ∘ Lexeme.Cut.prepend more =
      Lexeme.Cut.prepend (text ++ more) := by
    funext cut
    simp [Lexeme.Cut.prepend]
  rw [List.append_assoc, first, second, Option.map_map, together]

/-- A backslash, the character after it, and digits in base sixteen. -/
theorem goesOn_escaped {quote : Char} (isQuote : IsQuote quote) {letter : Char} {run : List Char}
    (inLine : letter ≠ '\n') (digits : ∀ d ∈ run, d ∈ hexChars) :
    GoesOn quote ('\\' :: letter :: run) := by
  intro rest
  simp only [List.cons_append, Lexeme.stringEnd?, inLine, if_false,
    stringEnd?_run isQuote digits rest, Option.map_map]
  rfl

/-- The two searches for the closing quote agree. -/
theorem closing?_of_stringEnd? {quote : Char} {cs piece rest : List Char}
    (found : Lexeme.stringEnd? quote cs = some (piece, rest)) :
    ∃ body, piece = body ++ [quote] ∧ closing? quote cs = some (body, rest) := by
  -- Both searches go over the same characters; the cases are those of the first one.
  fun_induction Lexeme.stringEnd? quote cs generalizing piece rest with
  | case1 => cases found
  | case2 => cases found
  | case3 => cases found
  | case4 c more _ ih =>
    obtain ⟨⟨piece, rest⟩, further, same⟩ := Option.map_eq_some_iff.1 found
    cases same
    obtain ⟨body, rfl, closes⟩ := ih further
    exact ⟨'\\' :: c :: body, rfl, by simp [closing?, closes]⟩
  | case5 more single pair =>
    cases found
    refine ⟨[], rfl, ?_⟩
    rw [closing?, if_pos rfl]
    exact pair
  | case6 => cases found
  | case7 c more single pair notQuote sameLine ih =>
    obtain ⟨⟨piece, rest⟩, further, same⟩ := Option.map_eq_some_iff.1 found
    cases same
    obtain ⟨body, rfl, closes⟩ := ih further
    refine ⟨c :: body, rfl, ?_⟩
    rw [closing?, if_neg notQuote, if_neg sameLine, closes]
    · rfl
    · exact pair

theorem unifyLineEnds_eq_self {cs : List Char} (none : '\r' ∉ cs) : unifyLineEnds cs = cs := by
  induction cs with
  | nil => rfl
  | cons c cs ih =>
    have further := ih fun member => none (List.mem_cons_of_mem _ member)
    have other : c ≠ '\r' := fun same => none (same ▸ List.mem_cons_self)
    rw [unifyLineEnds, further]
    · exact fun _ same => absurd same other
    · exact other

section

variable {quote : Char} {write : Letter → List Char} {ls : List Letter}

theorem stringEnd?_literal (goesOn : ∀ l ∈ ls, GoesOn quote (write l)) (isQuote : IsQuote quote)
    (rest : List Char) :
    Lexeme.stringEnd? quote (ls.flatMap write ++ quote :: rest) =
      some (ls.flatMap write ++ [quote], rest) := by
  induction ls with
  | nil => rcases isQuote with rfl | rfl <;> simp [Lexeme.stringEnd?]
  | cons l ls ih =>
    rw [List.flatMap_cons, List.append_assoc, goesOn l List.mem_cons_self,
      ih fun l member => goesOn l (List.mem_cons_of_mem _ member)]
    simp [Lexeme.Cut.prepend]

/-- A text that is written letter by letter is cut off as a whole wherever it stands. -/
theorem string?_literal (goesOn : ∀ l ∈ ls, GoesOn quote (write l)) (isQuote : IsQuote quote)
    (rest : List Char) :
    Lexeme.string? (quote :: (ls.flatMap write ++ [quote]) ++ rest) =
      some (quote :: (ls.flatMap write ++ [quote]), rest) := by
  have ends := stringEnd?_literal goesOn isQuote rest
  have isQuote : quote = '"' ∨ quote = '\'' := isQuote
  simp [Lexeme.string?, isQuote, ends, Lexeme.Cut.prepend]

end

/-! ### How a letter stands in a literal -/

section

variable [CharacterNames]

/-- Between the given quotes, the characters of the text stand for one letter: the literal does not
end among them, and its value has that letter for them. -/
structure StandsFor (quote : Char) (text : List Char) (letter : Letter) : Prop where
  goesOn : ∀ rest, Lexeme.stringEnd? quote (text ++ rest) =
    (Lexeme.stringEnd? quote rest).map (Lexeme.Cut.prepend text)
  means : ∀ fuel rest,
    unescape? (fuel + 1) (text ++ rest) = (unescape? fuel rest).map (letter :: ·)
  length_pos : 1 ≤ text.length
  clean : ∀ d ∈ text, d ≠ '\r' ∧ d ≠ '\x00'

namespace StandsFor

variable {quote c : Char} {letter : Letter}

theorem plain (ordinary : c ≠ '\\' ∧ c ≠ quote ∧ c ≠ '\n') (clean : c ≠ '\r' ∧ c ≠ '\x00') :
    StandsFor quote [c] (.char c) where
  goesOn := stringEnd?_ordinary ordinary
  means fuel rest := by simp [unescape?, ordinary.1]
  length_pos := Nat.le_refl 1
  clean := by simpa using clean

/-- A backslash, the character after it, and digits in base sixteen. -/
theorem escaped (isQuote : IsQuote quote) {run : List Char}
    (inLine : c ≠ '\n') (clean : c ≠ '\r' ∧ c ≠ '\x00')
    (digits : ∀ d ∈ run, d ∈ hexChars)
    (meant : ∀ rest, escape? (c :: (run ++ rest)) = some ([letter], rest)) :
    StandsFor quote ('\\' :: c :: run) letter where
  goesOn := goesOn_escaped isQuote inLine digits
  means fuel rest := by simp [unescape?, meant]
  length_pos := by simp
  clean := by
    have table : ∀ d ∈ hexChars, d ≠ '\r' ∧ d ≠ '\x00' := List.all_iff_forall_prop.1 (by decide)
    intro d member
    rcases List.mem_cons.1 member with rfl | member
    · decide
    rcases List.mem_cons.1 member with rfl | member
    · exact clean
    · exact table d (digits d member)

/-- A letter by its number. -/
theorem numbered (isQuote : IsQuote quote) {width : Nat} (positive : 0 < width)
    (fits : letter.code < 16 ^ width) (inLine : c ≠ '\n') (clean : c ≠ '\r' ∧ c ≠ '\x00')
    (read : ∀ rest, escape? (c :: rest) = hexEscape? width rest) :
    StandsFor quote ('\\' :: c :: hex width letter.code) letter := by
  apply escaped isQuote inLine clean fun d => mem_hexChars_of_hex width letter.code
  intro rest
  rw [read, hexEscape?, takeHex?_hex positive fits]
  simp only [Letter.ofCode?_code]
  rfl

end StandsFor

/-! ### Literals -/

variable {quote : Char} {write : Letter → List Char} {ls : List Letter}
  (stands : ∀ l ∈ ls, StandsFor quote (write l) l)
include stands

theorem unescape?_literal {fuel : Nat} (enough : ls.length ≤ fuel) :
    unescape? fuel (ls.flatMap write) = some ls := by
  induction ls generalizing fuel with
  | nil => cases fuel <;> rfl
  | cons l ls ih =>
    -- one step for each letter of the text, however many characters it is written with
    obtain ⟨fuel, rfl⟩ := Nat.exists_eq_add_of_le' (Nat.le_trans (Nat.le_add_left 1 _) enough)
    rw [List.flatMap_cons, (stands l List.mem_cons_self).means,
      ih (fun l member => stands l (List.mem_cons_of_mem _ member)) (Nat.le_of_succ_le_succ enough)]
    rfl

theorem length_le_literal : ls.length ≤ (ls.flatMap write).length := by
  induction ls with
  | nil => exact Nat.le_refl 0
  | cons l ls ih =>
    have one := (stands l List.mem_cons_self).length_pos
    have others := ih fun l member => stands l (List.mem_cons_of_mem _ member)
    simp only [List.flatMap_cons, List.length_append, List.length_cons]
    omega

/-- Such a text is a literal, and its value is the text. -/
theorem literalValue?_literal (isQuote : IsQuote quote) :
    literalValue? (String.ofList (quote :: (ls.flatMap write ++ [quote]))) =
      some (ofLetters ls) := by
  have quoteClean : quote ≠ '\r' ∧ quote ≠ '\x00' := by rcases isQuote with rfl | rfl <;> decide
  -- Nothing that is written is a line end or a null character, which a literal has no room for.
  have clean : ∀ d ∈ quote :: (ls.flatMap write ++ [quote]), d ≠ '\r' ∧ d ≠ '\x00' := by
    intro d member
    simp only [List.mem_cons, List.mem_append, List.mem_flatMap, List.not_mem_nil,
      or_false] at member
    rcases member with rfl | ⟨l, inside, member⟩ | rfl
    · exact quoteClean
    · exact (stands l inside).clean d member
    · exact quoteClean
  have noReturn : '\r' ∉ quote :: (ls.flatMap write ++ [quote]) := fun member =>
    (clean _ member).1 rfl
  have noNull : (ls.flatMap write ++ [quote]).contains '\x00' = false := by
    rw [List.contains_eq_mem, decide_eq_false_iff_not]
    exact fun member => (clean _ (List.mem_cons_of_mem _ member)).2 rfl
  obtain ⟨body, split, closes⟩ := closing?_of_stringEnd?
    (stringEnd?_literal (fun l inside => (stands l inside).goesOn) isQuote [])
  -- what stands in front of the closing quote is all that was written
  obtain rfl : ls.flatMap write = body := List.append_cancel_right split
  have value := unescape?_literal stands (length_le_literal stands)
  rw [literalValue?, String.toList_ofList, unifyLineEnds_eq_self noReturn]
  have isQuote : quote = '"' ∨ quote = '\'' := isQuote
  simp only [noNull, closes, bodyValue?, value, isQuote]
  simp

end

/-! ### Texts of scripts -/

namespace JsonString

/-- The characters for a letter in a string of ASCII characters. -/
def asciiEscape (letter : Letter) : List Char :=
  match shortEscape? letter, letter with
  | some c, _ => ['\\', c]
  | none, .char c => if isPlainAscii (.char c) then [c] else numbered c.toNat
  | none, .half unit => numbered unit.code

/-- A text as a JSON string of ASCII characters. -/
def asciiText (text : Text) : String :=
  String.ofList ('"' :: (text.letters.flatMap asciiEscape ++ ['"']))

theorem isPlainAscii_half (unit : Half) : isPlainAscii (.half unit) = false := by
  have beyond : ¬(Letter.half unit).code < 0x7f := by
    simp only [Letter.code, Half.code]
    omega
  simp [isPlainAscii, beyond]

theorem escape_isPlainAscii (letter : Letter) :
    escape isPlainAscii letter = (asciiEscape letter).map .char := by
  unfold escape asciiEscape
  cases shortEscape? letter with
  | some c => rfl
  | none =>
    cases letter with
    | char c =>
      dsimp only
      split <;> simp [Letter.code]
    | half unit => simp [isPlainAscii_half, Letter.code]

theorem encode_isPlainAscii (text : Text) : encode isPlainAscii text = asciiText text := by
  have inner : text.letters.flatMap (escape isPlainAscii) =
      (text.letters.flatMap asciiEscape).map .char := by
    rw [List.map_flatMap]
    congr 1
    funext letter
    exact escape_isPlainAscii letter
  simp [encode, asciiText, inner, ← String.toList_inj]

theorem standsFor_escape [CharacterNames] {letter : Letter} (plane : letter.code < 0x10000) :
    StandsFor '"' (asciiEscape letter) letter := by
  have isQuote : IsQuote '"' := .inl rfl
  -- up to the end of the first plane, one escape is enough
  have byNumber : StandsFor '"' (JsonString.numbered letter.code) letter := by
    rw [JsonString.numbered, if_pos plane]
    exact .numbered isQuote (by decide) plane (by decide) (by decide) fun _ => rfl
  cases found : shortEscape? letter with
  | some c =>
    obtain ⟨⟨c, meant⟩, entry, rfl⟩ := Option.map_eq_some_iff.1 found
    have same := List.find?_some entry
    obtain rfl : .char meant = letter := by simpa using same
    have listed := List.mem_of_find?_eq_some entry
    have table : ∀ entry ∈ shortEscapes,
        entry.1 ≠ '\n' ∧ entry.1 ≠ '\r' ∧ entry.1 ≠ '\x00' := by decide
    obtain ⟨inLine, clean⟩ := table _ listed
    simp only [asciiEscape, found]
    refine .escaped isQuote inLine clean (by simp) fun rest => ?_
    simp only [shortEscapes, List.mem_cons, Prod.mk.injEq, List.not_mem_nil, or_false] at listed
    rcases listed with ⟨rfl, rfl⟩ | ⟨rfl, rfl⟩ | ⟨rfl, rfl⟩ | ⟨rfl, rfl⟩ | ⟨rfl, rfl⟩ | ⟨rfl, rfl⟩ |
      ⟨rfl, rfl⟩ <;> rfl
  | none =>
    cases letter with
    | half unit =>
      simp only [asciiEscape, found]
      exact byNumber
    | char c =>
      -- both quote and backslash have a letter of their own, so neither stands for itself
      have others : ∀ entry ∈ shortEscapes, entry.2 ≠ c := by
        intro entry listed same
        rw [shortEscape?, Option.map_eq_none_iff, List.find?_eq_none] at found
        exact found entry listed (by simpa using same)
      have unlike (letter : Char) {meant : Char} (listed : (letter, meant) ∈ shortEscapes) :
          c ≠ meant := fun same => others _ listed same.symm
      simp only [asciiEscape, found]
      split
      · rename_i printable
        have null : c ≠ '\x00' := by
          rintro rfl
          exact absurd printable (by decide)
        exact .plain ⟨unlike '\\' (by decide), unlike '"' (by decide), unlike 'n' (by decide)⟩
          ⟨unlike 'r' (by decide), null⟩
      · exact byNumber

theorem literalValue?_asciiText [CharacterNames] {text : Text}
    (plane : ∀ l ∈ text.letters, l.code < 0x10000) :
    literalValue? (asciiText text) = some text := by
  have value := literalValue?_literal (fun l inside => standsFor_escape (plane l inside)) (.inl rfl)
  rwa [ofLetters_letters] at value

/-- The two escapes of a pair do not stand for one character, but no literal ends among them. -/
theorem goesOn_escape (letter : Letter) : GoesOn '"' (asciiEscape letter) := by
  by_cases plane : letter.code < 0x10000
  · -- where a literal ends does not depend on names
    let _ : CharacterNames := .none
    exact (standsFor_escape plane).goesOn
  -- beyond it, the character is written as a pair of halves
  have half (n : Nat) : GoesOn '"' (unit n) :=
    goesOn_escaped (.inl rfl) (by decide) fun d => mem_hexChars_of_hex 4 n
  have absent : shortEscape? letter = none := by
    rw [shortEscape?, Option.map_eq_none_iff, List.find?_eq_none]
    have table : ∀ entry ∈ shortEscapes, (Letter.char entry.2).code < 0x10000 := by decide
    intro entry listed same
    exact plane (beq_iff_eq.1 same ▸ table entry listed)
  cases letter with
  | char c =>
    have beyond : isPlainAscii (.char c) = false := by
      simp only [isPlainAscii, Bool.and_eq_false_iff, decide_eq_false_iff_not]
      omega
    have plane : ¬c.toNat < 0x10000 := plane
    simp only [asciiEscape, absent, beyond, numbered, plane, if_false, Bool.false_eq_true]
    exact (half _).append (half _)
  | half unit =>
    have bound := unit.index.isLt
    simp only [Letter.code, Half.code] at plane
    omega

theorem string?_asciiText (text : Text) (rest : List Char) :
    Lexeme.string? ((asciiText text).toList ++ rest) =
      some ((asciiText text).toList, rest) := by
  rw [asciiText, String.toList_ofList]
  exact string?_literal (fun l _ => goesOn_escape l) (.inl rfl) rest

end JsonString

/-! ### Texts of messages -/

theorem isQuote_quoteFor (ls : List Letter) : IsQuote (quoteFor ls) := by
  unfold quoteFor
  split
  · exact .inl rfl
  · exact .inr rfl

/-- The fewest digits that can name the letter. -/
theorem standsFor_numericEscape [CharacterNames] {quote : Char} (isQuote : IsQuote quote)
    (letter : Letter) :
    StandsFor quote (numericEscape letter.code) letter := by
  unfold numericEscape
  split
  · rename_i small
    exact .numbered isQuote (by decide) small (by decide) (by decide) fun _ => rfl
  split
  · rename_i plane
    exact .numbered isQuote (by decide) plane (by decide) (by decide) fun _ => rfl
  · have above : letter.code < 16 ^ 8 := by
      cases letter with
      | char c =>
        have valid : c.toNat.isValidChar := c.valid
        unfold Nat.isValidChar at valid
        simp only [Letter.code]
        omega
      | half unit =>
        have bound := unit.index.isLt
        simp only [Letter.code, Half.code]
        omega
    exact .numbered isQuote (by decide) above (by decide) (by decide) fun _ => rfl

theorem standsFor_escapeQuoted [CharacterNames] {quote : Char} (isQuote : IsQuote quote)
    (letter : Letter) :
    StandsFor quote (escapeQuoted quote letter) letter := by
  cases letter with
  | half unit => exact standsFor_numericEscape isQuote (.half unit)
  | char c =>
    unfold escapeQuoted
    dsimp only
    split
    · rename_i mark
      have marks : c = '"' ∨ c = '\'' ∨ c = '\\' := by
        rcases mark with rfl | rfl
        · exact isQuote.imp_right .inl
        · exact .inr (.inr rfl)
      rcases marks with rfl | rfl | rfl <;>
        exact .escaped isQuote (by decide) (by decide) (by simp) fun _ => rfl
    rename_i unmarked
    obtain ⟨quote_ne, backslash⟩ := not_or.1 unmarked
    split
    · rename_i newline
      subst newline
      exact .escaped isQuote (by decide) (by decide) (by simp) fun _ => rfl
    split
    · rename_i newline carriage
      subst carriage
      exact .escaped isQuote (by decide) (by decide) (by simp) fun _ => rfl
    split
    · rename_i tab
      subst tab
      exact .escaped isQuote (by decide) (by decide) (by simp) fun _ => rfl
    split
    · rename_i newline carriage _ printable
      have null : c ≠ '\x00' := by
        rintro rfl
        exact absurd printable (by decide)
      exact .plain ⟨backslash, quote_ne, newline⟩ ⟨carriage, null⟩
    · exact standsFor_numericEscape isQuote (.char c)

theorem literalValue?_quoted [CharacterNames] (text : Text) :
    literalValue? (quoted text) = some text := by
  have isQuote := isQuote_quoteFor text.letters
  have stands : ∀ l ∈ text.letters,
      StandsFor (quoteFor text.letters) (escapeQuoted (quoteFor text.letters) l) l :=
    fun l _ => standsFor_escapeQuoted isQuote l
  have value := literalValue?_literal stands isQuote
  rwa [ofLetters_letters] at value

theorem string?_quoted (text : Text) (rest : List Char) :
    Lexeme.string? ((quoted text).toList ++ rest) = some ((quoted text).toList, rest) := by
  have isQuote := isQuote_quoteFor text.letters
  let _ : CharacterNames := .none
  simp only [quoted, String.toList_ofList]
  exact string?_literal (fun l _ => (standsFor_escapeQuoted isQuote l).goesOn) isQuote rest

end YapLang.Text
