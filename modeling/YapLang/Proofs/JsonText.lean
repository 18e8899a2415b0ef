import YapLang.Document.Json
import YapLang.Proofs.NumberText
import YapLang.Proofs.StringText

/-!
# Written documents are read back

What is written of a document is read as that document, in front of any text that does not continue
a number, and with twice as many steps as it has characters. Strings may hold any characters, and of
the numbers those are treated that source text has: doubles that are not negative, infinity among
them. No line in the text ends with anything but a line feed.
-/
namespace YapLang

/-! ### Strings -/

namespace Text.JsonString

/-- A text behind a number that is too small for the first half of a pair. -/
theorem pair?_eq_none {high : Nat} (small : high < 0xd800) (cs : List Char) :
    pair? high cs = none := by
  unfold pair?
  split
  · split
    · rfl
    · rfl
    · rw [if_neg (by omega)]
  · rfl

/-- An escaped control character. -/
theorem letter?_hex {c : Char} (control : c.toNat < 0x20) {more : List Char}
    (nonempty : more ≠ []) : letter? (hex 4 c.toNat ++ more) = some (.char c, more) := by
  have digits := takeHex?_hex (by decide : 0 < 4) (by omega : c.toNat < 16 ^ 4) more
  have numbered : Letter.ofCode? c.toNat = some (.char c) := Letter.ofCode?_code (.char c)
  cases more with
  | nil => exact absurd rfl nonempty
  | cons first more =>
    rw [letter?, digits]
    simp [pair?_eq_none (by omega : c.toNat < 0xd800), numbered]

/-- The characters for a character of a string, where only what has to be escaped is escaped. -/
def rawEscape (c : Char) : List Char :=
  match shortEscape? (.char c) with
  | some letter => ['\\', letter]
  | none => if isNotControl (.char c) then [c] else numbered c.toNat

theorem lt_of_not_isNotControl {c : Char} (control : ¬isNotControl (.char c) = true) :
    c.toNat < 0x20 :=
  Nat.not_le.1 fun above => control (decide_eq_true above)

/-- A string as a JSON string. -/
def rawText (s : String) : String :=
  String.ofList ('"' :: (s.toList.flatMap rawEscape ++ ['"']))

theorem escape_isNotControl (c : Char) :
    escape isNotControl (.char c) = (rawEscape c).map .char := by
  unfold escape rawEscape
  cases shortEscape? (.char c) with
  | some letter => rfl
  | none =>
    dsimp only
    split <;> rfl

theorem encode_isNotControl (s : String) : encode isNotControl s = rawText s := by
  have inner : (s : Text).letters.flatMap (escape isNotControl) =
      (s.toList.flatMap rawEscape).map .char := by
    rw [letters_whole, List.flatMap_map, List.map_flatMap]
    congr 1
    funext c
    exact escape_isNotControl c
  rw [encode, inner, ofLetters_chars]
  simp [rawText, ← String.toList_inj]

/-- The three ways to write a character: a letter after a backslash, the character itself, or its
number. -/
theorem body_escape (c : Char) {more : List Char} (nonempty : more ≠ []) (fuel : Nat) :
    body (fuel + 1) (rawEscape c ++ more) =
      (body fuel more).map fun (letters, rest) => (.char c :: letters, rest) := by
  unfold rawEscape
  split
  next letter found =>
    obtain ⟨⟨letter, meant⟩, entry, rfl⟩ := Option.map_eq_some_iff.1 found
    have listed := List.mem_of_find?_eq_some entry
    obtain rfl : meant = c := by simpa using List.find?_some entry
    have table : ∀ entry ∈ shortEscapes, entry.1 ≠ 'u' ∧ escaped? entry.1 = some entry.2 := by
      decide
    -- the table of short escapes is read backwards
    obtain ⟨other, read⟩ := table _ listed
    simp [body, read]
  next missing =>
    have special : ∀ d, (shortEscape? (.char d)).isSome → c ≠ d := by
      rintro d isSome rfl
      rw [missing] at isSome
      cases isSome
    have quote := special '"' (by decide)
    have backslash := special '\\' (by decide)
    split
    next plain => simp [body, backslash, plain]
    next control =>
      have small := lt_of_not_isNotControl control
      -- what is neither is a control character, and small enough for a single escape
      have isUnit : numbered c.toNat = '\\' :: 'u' :: hex 4 c.toNat := by
        rw [numbered, if_pos (by omega), unit]
      rw [isUnit]
      simp [body, letter?_hex small nonempty]

/-- A string is read back, up to its closing quote. -/
theorem body_flatMap (cs : List Char) {rest : List Char} {fuel : Nat} (enough : cs.length < fuel) :
    body fuel (cs.flatMap rawEscape ++ '"' :: rest) = .ok (cs.map .char, rest) := by
  induction cs generalizing fuel with
  | nil =>
    obtain ⟨fuel, rfl⟩ := Nat.exists_eq_succ_of_ne_zero (by omega : fuel ≠ 0)
    rfl
  | cons c cs ih =>
    obtain ⟨fuel, rfl⟩ := Nat.exists_eq_succ_of_ne_zero (by omega : fuel ≠ 0)
    have further := ih (by simpa using enough : cs.length < fuel)
    rw [List.flatMap_cons, List.append_assoc, body_escape c (by simp), further]
    rfl

theorem rawEscape_ne_nil (c : Char) : rawEscape c ≠ [] := by
  unfold rawEscape
  split
  · exact List.cons_ne_nil _ _
  · split
    · exact List.cons_ne_nil _ _
    · unfold numbered
      split
      · exact List.cons_ne_nil _ _
      · exact List.append_ne_nil_of_left_ne_nil (List.cons_ne_nil _ _) _

theorem length_le_flatMap (cs : List Char) :
    cs.length ≤ (cs.flatMap rawEscape).length := by
  induction cs with
  | nil => exact Nat.le_refl 0
  | cons c cs ih =>
    have one := List.length_pos_iff.2 (rawEscape_ne_nil c)
    rw [List.flatMap_cons, List.length_append, List.length_cons]
    omega

/-- A line end is a control character, so it is escaped. -/
theorem return_not_mem_rawEscape (c : Char) : '\r' ∉ rawEscape c := by
  unfold rawEscape
  split
  next letter found =>
    obtain ⟨entry, isFirst, rfl⟩ := Option.map_eq_some_iff.1 found
    have table : ∀ entry ∈ shortEscapes, '\r' ∉ ['\\', entry.1] := by decide
    exact table entry (List.mem_of_find?_eq_some isFirst)
  · split
    next plain =>
      intro member
      rw [← List.mem_singleton.1 member] at plain
      exact absurd plain (by decide)
    next control =>
      have small := lt_of_not_isNotControl control
      intro member
      rw [numbered, if_pos (by omega), unit] at member
      have digit : '\r' ∈ hex 4 c.toNat := by simpa using member
      exact absurd (mem_hexChars_of_hex 4 c.toNat digit) (by decide)

end Text.JsonString

namespace Document

open Text (Stops stops_cons stops_nil)

/-! ### Numbers -/

theorem isAsciiDigit_eq (c : Char) : isAsciiDigit c = c.isDigit := by
  simp only [isAsciiDigit, Char.isDigit, Char.le_def]

theorem areAsciiDigits {cs : List Char} (digits : ∀ c ∈ cs, c.isDigit = true) :
    ∀ c ∈ cs, isAsciiDigit c = true := by
  intro c member
  rw [isAsciiDigit_eq, digits c member]

theorem stops_isAsciiDigit {rest : List Char} (ends : Stops Text.isDigit rest) :
    Stops isAsciiDigit rest := by
  intro c first
  rw [isAsciiDigit_eq, Bool.eq_false_iff]
  intro digit
  have other := ends c first
  rw [Text.isDigit_of_isDigit digit] at other
  cases other

theorem wholeDigits_append {whole rest : List Char} (nonempty : whole ≠ [])
    (digits : ∀ c ∈ whole, c.isDigit = true) (front : whole = ['0'] ∨ whole.head? ≠ some '0')
    (ends : Stops isAsciiDigit rest) : wholeDigits (whole ++ rest) = (whole, rest) := by
  have inside := areAsciiDigits digits
  rcases front with rfl | front
  · rfl
  · have taken := Text.takeWhile_append_of_stops inside ends
    have dropped := Text.dropWhile_append_of_stops inside ends
    cases whole with
    | nil => exact absurd rfl nonempty
    | cons first whole =>
      -- several digits do not start with a zero, so all of them are taken
      have other : first ≠ '0' := by simpa using front
      rw [wholeDigits, taken, dropped]
      intro more same
      exact other (List.cons.inj same).1

theorem exponentDigits_none {rest : List Char} (ends : Stops Numeral.continues rest) :
    exponentDigits rest = (none, rest) := by
  cases rest with
  | nil => rfl
  | cons c rest =>
    have no := stops_cons.1 ends
    simp only [Numeral.continues, Bool.or_eq_false_iff, beq_eq_false_iff_ne] at no
    simp [exponentDigits, no]

theorem exponentDigits_text {e : Numeral.Exponent} (plain : e.Plain) {rest : List Char}
    (ends : Stops Numeral.continues rest) : exponentDigits (e.text ++ rest) = (some e, rest) := by
  obtain ⟨mark, sign, digits⟩ := e
  obtain ⟨isMark, signed, nonempty, inside⟩ := plain
  dsimp only at isMark signed nonempty inside
  subst isMark
  have ascii := areAsciiDigits inside
  have stops := stops_isAsciiDigit (Numeral.stops_digits ends)
  have taken := Text.takeWhile_append_of_stops ascii stops
  have dropped := Text.dropWhile_append_of_stops ascii stops
  rcases signed with rfl | rfl <;>
    simp [exponentDigits, Numeral.Exponent.text, Numeral.splitSign, taken, dropped, nonempty]

theorem exponentDigits_exponentText {exponent : Option Numeral.Exponent}
    (plain : ∀ e ∈ exponent, e.Plain) {rest : List Char} (ends : Stops Numeral.continues rest) :
    exponentDigits (Numeral.exponentText exponent ++ rest) = (exponent, rest) := by
  cases exponent with
  | none => exact exponentDigits_none ends
  | some e => exact exponentDigits_text (plain e rfl) ends

/-- A numeral with a mark is read as a double, not as an integer. -/
theorem unsignedNumber_text {layout : Layout} (mark : layout.wholeMark = ".0") {n : Numeral}
    (printed : n.PrintedBy layout) {rest : List Char} (ends : Stops Numeral.continues rest)
    (start : List Char) :
    unsignedNumber start false (n.text ++ rest) = .ok (.double (n.toDouble false), rest) := by
  obtain ⟨whole, point, fraction, exponent⟩ := n
  obtain ⟨⟨nonempty, digits, more, pointless, exponentPlain⟩, front, pointed, marked⟩ := printed
  dsimp only at nonempty digits more pointless exponentPlain front pointed marked
  have read := exponentDigits_exponentText exponentPlain ends
  have after := Numeral.stops_exponentText (fun e isExponent => (exponentPlain e isExponent).formed)
    ends
  have stops : Stops isAsciiDigit (Numeral.exponentText exponent ++ rest) :=
    stops_isAsciiDigit fun c first => (Bool.or_eq_false_iff.1 (after c first)).1
  cases point with
  | true =>
    have moreAscii := areAsciiDigits more
    have taken := Text.takeWhile_append_of_stops moreAscii stops
    have dropped := Text.dropWhile_append_of_stops moreAscii stops
    have cut := wholeDigits_append nonempty digits front
      (stops_cons.2 (by decide) :
        Stops isAsciiDigit ('.' :: (fraction ++ (Numeral.exponentText exponent ++ rest))))
    simp [unsignedNumber, Numeral.text, cut, fractionDigits, taken, dropped, read, nonempty,
      pointed rfl]
  | false =>
    obtain rfl := pointless rfl
    -- without a point there is an exponent
    have isExponent : exponent.isSome = true := by simpa [mark] using marked
    have noPoint : fractionDigits (Numeral.exponentText exponent ++ rest) =
        (none, Numeral.exponentText exponent ++ rest) := by
      obtain ⟨e, rfl⟩ := Option.isSome_iff_exists.1 isExponent
      rw [Numeral.exponentText, Numeral.Exponent.text, (exponentPlain e rfl).mark]
      rfl
    have cut := wholeDigits_append nonempty digits front stops
    have known : exponent ≠ none := Option.isSome_iff_ne_none.1 isExponent
    simp [unsignedNumber, Numeral.text, cut, noPoint, read, nonempty, known]

/-! ### What reads as a document -/

/-- A document without halves, integers and negative numbers, whose objects have no field twice. -/
inductive Plain : Document → Prop where
  | null : Plain .null
  | bool {b} : Plain (.bool b)
  | double {bits} :
      bits ≤ Double.infinityBits → Plain (.double (Double.ofMagnitudeBits false bits))
  | text {s} : s.IsWhole → Plain (.text s)
  | list {items} : (∀ d ∈ items, Plain d) → Plain (.list items)
  | object {fields} :
      (fields.map Prod.fst).Nodup → (∀ field ∈ fields, field.1.IsWhole) →
      (∀ field ∈ fields, Plain field.2) → Plain (.object fields)

/-- A character that a value can start with: it is not blank, does not end a list and is no byte
order mark. -/
def Opens (c : Char) : Prop :=
  isJsonBlank c = false ∧ c ≠ ']' ∧ c ≠ '\ufeff'

instance (c : Char) : Decidable (Opens c) :=
  inferInstanceAs (Decidable (_ ∧ _))

/-- The text is read as the document, in front of whatever does not continue a number, and it holds
no line ends but line feeds. -/
structure Reads (text : List Char) (d : Document) : Prop where
  starts : ∃ first more, text = first :: more ∧ Opens first
  value : ∀ {rest fuel}, Stops Numeral.continues rest → 2 * text.length ≤ fuel →
    jsonValue fuel (text ++ rest) = .ok (d, rest)
  unbroken : '\r' ∉ text

theorem Reads.intro {first : Char} {more : List Char} {d : Document}
    (opens : Opens first)
    (value : ∀ rest fuel, Stops Numeral.continues rest → 2 * more.length + 1 ≤ fuel →
      jsonValue (fuel + 1) (first :: (more ++ rest)) = .ok (d, rest))
    (unbroken : '\r' ∉ first :: more) : Reads (first :: more) d := by
  constructor
  · exact ⟨first, more, rfl, opens⟩
  · intro rest fuel ends enough
    rw [List.length_cons] at enough
    obtain ⟨fuel, rfl⟩ := Nat.exists_eq_succ_of_ne_zero (by omega : fuel ≠ 0)
    exact value rest fuel ends (by omega)
  · exact unbroken

theorem reads_null : Reads "null".toList .null :=
  Reads.intro (by decide) (fun _ _ _ _ => rfl) (by decide)

theorem reads_bool (b : Bool) : Reads (if b then "true" else "false").toList (.bool b) := by
  cases b with
  | true => exact Reads.intro (by decide) (fun _ _ _ _ => rfl) (by decide)
  | false => exact Reads.intro (by decide) (fun _ _ _ _ => rfl) (by decide)

theorem reads_infinity : Reads "Infinity".toList (.double Double.infinity) := by
  simp only [String.reduceToList]
  refine Reads.intro (by decide) (fun rest fuel _ _ => ?_) (by decide)
  simp [jsonValue, scalar, jsonWords, List.find?, List.isPrefixOf]

/-! ### Numbers and strings -/

theorem opens_of_isDigit {c : Char} (digit : c.isDigit = true) : Opens c := by
  have table : "0123456789".toList.all (fun c => decide (Opens c)) = true := by decide
  exact of_decide_eq_true (List.all_eq_true.1 table c (Text.mem_digits digit))

/-- No word starts with a digit. -/
theorem jsonValue_of_digit {first : Char} (digit : first.isDigit = true) (fuel : Nat)
    (more : List Char) :
    jsonValue (fuel + 1) (first :: more) =
      unsignedNumber (first :: more) false (first :: more) := by
  have isListed : first ∈ "0123456789".toList := Text.mem_digits digit
  simp only [String.reduceToList, List.mem_cons, List.not_mem_nil, or_false] at isListed
  rcases isListed with rfl | rfl | rfl | rfl | rfl | rfl | rfl | rfl | rfl | rfl <;>
    simp [jsonValue, scalar, jsonWords, List.find?, List.isPrefixOf]

theorem reads_double {bits : Nat} (bound : bits ≤ Double.infinityBits) :
    Reads (jsonNumbers.double (Double.ofMagnitudeBits false bits)).toList
      (.double (Double.ofMagnitudeBits false bits)) := by
  -- infinity is a word, all other numbers are numerals
  rcases Nat.lt_or_eq_of_le bound with finite | rfl
  · have mark : jsonNumbers.wholeMark = ".0" := rfl
    obtain ⟨n, printed, text, value⟩ := Layout.exists_printed (.inr mark) finite
    obtain ⟨first, isFirst, digit⟩ := Numeral.exists_head printed.toPlain
    have chars : ∀ c ∈ n.text, c ∈ "0123456789.e+-".toList :=
      fun c => Numeral.chars_of_plain printed.toPlain
    rw [text]
    cases whole : n.text with
    | nil => simp [whole] at isFirst
    | cons c more =>
      obtain rfl : c = first := by simpa [whole] using isFirst
      refine Reads.intro (opens_of_isDigit digit) (fun rest fuel ends _ => ?_) ?_
      · rw [jsonValue_of_digit digit, ← List.cons_append, ← whole,
          unsignedNumber_text mark printed ends, value]
      · rw [← whole]
        exact fun member => absurd (chars _ member) (by decide)
  · have text := Layout.double_infinity jsonNumbers
    rw [Double.infinity] at text
    rw [text]
    exact reads_infinity

theorem jsonString_flatMap (s : String) (start : List Char) {rest : List Char} {fuel : Nat}
    (enough : s.toList.length < fuel) :
    jsonString fuel start (s.toList.flatMap Text.JsonString.rawEscape ++ '"' :: rest) =
      .ok ((s : Text), rest) := by
  rw [jsonString, Text.JsonString.body_flatMap s.toList enough]
  simp

theorem reads_text (s : String) :
    Reads (Text.JsonString.rawText s).toList (.text s) := by
  have long := Text.JsonString.length_le_flatMap s.toList
  rw [Text.JsonString.rawText, String.toList_ofList]
  refine Reads.intro (by decide) (fun rest fuel _ enough => ?_) ?_
  · rw [List.length_append, List.length_singleton] at enough
    rw [List.append_assoc, List.singleton_append, jsonValue,
      jsonString_flatMap s _ (by omega : s.toList.length < fuel)]
    rfl
  · simp [Text.JsonString.return_not_mem_rawEscape]

/-! ### Lists and objects -/

theorem skipBlanks_append {blanks : List Char} (areBlank : ∀ c ∈ blanks, isJsonBlank c = true)
    {cs : List Char} (shows : Stops isJsonBlank cs) : skipBlanks (blanks ++ cs) = cs :=
  Text.dropWhile_append_of_stops areBlank shows

theorem Reads.stops {text : List Char} {d : Document} (reads : Reads text d) (rest : List Char) :
    Stops isJsonBlank (text ++ rest) := by
  obtain ⟨first, more, rfl, opens⟩ := reads.starts
  exact stops_cons.2 opens.1

theorem jsonList_last {text tail rest : List Char} {d : Document} (reads : Reads text d)
    (ends : Stops Numeral.continues tail) (closes : skipBlanks tail = ']' :: rest) {fuel : Nat}
    (enough : 2 * text.length ≤ fuel) :
    jsonList (fuel + 1) (text ++ tail) = .ok ([d], rest) := by
  simp [jsonList, reads.value ends enough, closes, bind, Except.bind, pure, Except.pure]

theorem jsonList_more {text blanks others rest : List Char} {d : Document}
    {items : List Document} (reads : Reads text d)
    (areBlank : ∀ c ∈ blanks, isJsonBlank c = true) (shows : Stops isJsonBlank others) {fuel : Nat}
    (enough : 2 * text.length ≤ fuel) (further : jsonList fuel others = .ok (items, rest)) :
    jsonList (fuel + 1) (text ++ ',' :: (blanks ++ others)) = .ok (d :: items, rest) := by
  have read := reads.value (stops_cons.2 (by decide) :
    Stops Numeral.continues (',' :: (blanks ++ others))) enough
  have comma : skipBlanks (',' :: (blanks ++ others)) = ',' :: (blanks ++ others) := rfl
  simp [jsonList, read, comma, skipBlanks_append areBlank shows, further, bind, Except.bind, pure,
    Except.pure]

/-- A field: its name as a string, a colon, a blank and its value. -/
def fieldText (write : Document → List Char) (field : Text × Document) : List Char :=
  (Text.JsonString.rawText field.1.head).toList ++ ": ".toList ++ write field.2

theorem setField_of_not_mem {fields : List (Text × Document)} {key : Text}
    (isNew : key ∉ fields.map Prod.fst) (value : Document) :
    setField fields key value = fields ++ [(key, value)] := by
  induction fields with
  | nil => rfl
  | cons field fields ih =>
    obtain ⟨k, v⟩ := field
    simp only [List.map_cons, List.mem_cons, not_or] at isNew
    rw [setField, if_neg (Ne.symm isNew.1), ih isNew.2]
    rfl

theorem not_mem_of_distinct {before fields : List (Text × Document)} {field : Text × Document}
    (distinct : ((before ++ field :: fields).map Prod.fst).Nodup) :
    field.1 ∉ before.map Prod.fst := by
  rw [List.map_append, List.map_cons, List.nodup_append] at distinct
  intro member
  exact distinct.2.2 _ member _ (by simp) rfl

/-- The front of an object up to the value of its first field. -/
theorem jsonObject_field {write : Document → List Char} {field : Text × Document}
    (isWhole : field.1.IsWhole) (reads : Reads (write field.2) field.2)
    {before : List (Text × Document)} (isNew : field.1 ∉ before.map Prod.fst) {after : List Char}
    (ends : Stops Numeral.continues after) {fuel : Nat}
    (enough : 2 * (fieldText write field).length ≤ fuel) :
    jsonObject (fuel + 1) before (fieldText write field ++ after) =
      match skipBlanks after with
      | '\x7d' :: rest => .ok (before ++ [field], rest)
      | ',' :: rest => jsonObject fuel (before ++ [field]) (skipBlanks rest)
      | rest => .error (.noComma, rest) := by
  obtain ⟨key, d⟩ := field
  obtain ⟨key, rfl⟩ := isWhole.exists_string
  have long := Text.JsonString.length_le_flatMap key.toList
  simp only [fieldText, Text.JsonString.rawText, String.toList_ofList, List.length_append,
    List.length_cons, List.length_nil] at enough
  -- the quotes, the colon and the blank are in their places
  have shape : fieldText write (key, d) ++ after =
      '"' :: (key.toList.flatMap Text.JsonString.rawEscape ++
        '"' :: ':' :: ' ' :: (write d ++ after)) := by
    simp [fieldText, Text.JsonString.rawText]
  have colon (cs : List Char) : skipBlanks (':' :: cs) = ':' :: cs := rfl
  have oneBlank : ∀ c ∈ [' '], isJsonBlank c = true := by simp [isJsonBlank]
  have blank : skipBlanks (' ' :: (write d ++ after)) = write d ++ after :=
    skipBlanks_append oneBlank (reads.stops after)
  have read := reads.value ends (by omega : 2 * (write d).length ≤ fuel)
  rw [shape, jsonObject, jsonString_flatMap key _ (by omega : key.toList.length < fuel)]
  simp only [bind, Except.bind, colon, blank, read, setField_of_not_mem isNew]
  rfl

/-- What stands in front of other texts and a separator is what the whole starts with. -/
theorem exists_intercalate (separator text : List Char) (texts : List (List Char)) :
    ∃ more, separator.intercalate (text :: texts) = text ++ more := by
  cases texts with
  | nil => exact ⟨[], by simp⟩
  | cons next texts => exact ⟨_, by rw [List.intercalate_cons_cons, List.append_assoc]⟩

section

variable {blanks tail rest : List Char} (areBlank : ∀ c ∈ blanks, isJsonBlank c = true)
  (ends : Stops Numeral.continues tail) {write : Document → List Char}

include areBlank ends

/-- The items of a list, each but the last followed by a comma and blanks. -/
theorem jsonList_items (closes : skipBlanks tail = ']' :: rest) {d : Document}
    {items : List Document} (reads : ∀ item ∈ d :: items, Reads (write item) item) {fuel : Nat}
    (enough : 2 * ((',' :: blanks).intercalate ((d :: items).map write)).length ≤ fuel) :
    jsonList (fuel + 1) ((',' :: blanks).intercalate ((d :: items).map write) ++ tail) =
      .ok (d :: items, rest) := by
  induction items generalizing d fuel with
  | nil =>
    simp only [List.map_cons, List.map_nil, List.intercalate_singleton] at enough ⊢
    exact jsonList_last (reads d (by simp)) ends closes enough
  | cons next items ih =>
    -- the text of the next item starts with something that is not blank
    have second := reads next (by simp)
    obtain ⟨more, starts⟩ := exists_intercalate (',' :: blanks) (write next) (items.map write)
    simp only [List.map_cons, List.intercalate_cons_cons, List.length_append, List.length_cons,
      List.append_assoc, List.cons_append] at enough ih ⊢
    obtain ⟨fuel, rfl⟩ := Nat.exists_eq_succ_of_ne_zero (by omega : fuel ≠ 0)
    apply jsonList_more (reads d (by simp)) areBlank
    · rw [starts, List.append_assoc]
      exact second.stops _
    · omega
    · exact ih (fun item member => reads item (List.mem_cons_of_mem _ member)) (by omega)

/-- The fields of an object, likewise. They are added to those that came before. -/
theorem jsonObject_fields (closes : skipBlanks tail = '\x7d' :: rest)
    {field : Text × Document} {fields before : List (Text × Document)}
    (distinct : ((before ++ field :: fields).map Prod.fst).Nodup)
    (names : ∀ f ∈ field :: fields, f.1.IsWhole)
    (reads : ∀ f ∈ field :: fields, Reads (write f.2) f.2) {fuel : Nat}
    (enough : 2 * ((',' :: blanks).intercalate ((field :: fields).map (fieldText write))).length ≤
      fuel) :
    jsonObject (fuel + 1) before
        ((',' :: blanks).intercalate ((field :: fields).map (fieldText write)) ++ tail) =
      .ok (before ++ field :: fields, rest) := by
  have isNew := not_mem_of_distinct distinct
  induction fields generalizing field before fuel with
  | nil =>
    simp only [List.map_cons, List.map_nil, List.intercalate_singleton] at enough ⊢
    rw [jsonObject_field (names field (by simp)) (reads field (by simp)) isNew ends enough, closes]
    rfl
  | cons next fields ih =>
    obtain ⟨more, starts⟩ :=
      exists_intercalate (',' :: blanks) (fieldText write next) (fields.map (fieldText write))
    simp only [List.map_cons, List.intercalate_cons_cons, List.length_append, List.length_cons,
      List.append_assoc, List.cons_append] at enough ih ⊢
    obtain ⟨fuel, rfl⟩ := Nat.exists_eq_succ_of_ne_zero (by omega : fuel ≠ 0)
    rw [jsonObject_field (names field (by simp)) (reads field (by simp)) isNew
      (stops_cons.2 (by decide)) (by omega)]
    have shows : Stops isJsonBlank ((',' :: blanks).intercalate
        (fieldText write next :: fields.map (fieldText write)) ++ tail) := by
      rw [starts, fieldText, Text.JsonString.rawText, String.toList_ofList]
      exact stops_cons.2 (by decide)
    -- the comma leads to the next field, with this one among those before
    show jsonObject (fuel + 1) (before ++ [field]) (skipBlanks (blanks ++ _)) = _
    rw [skipBlanks_append areBlank shows]
    have further : ((before ++ [field] ++ next :: fields).map Prod.fst).Nodup := by
      simpa using distinct
    have read := ih further (fun f member => names f (List.mem_cons_of_mem _ member))
      (fun f member => reads f (List.mem_cons_of_mem _ member)) (by omega : 2 * _ ≤ fuel)
      (not_mem_of_distinct further)
    rw [read, List.append_assoc, List.singleton_append]

end

/-- What holds of the separator and of each list holds of the lists in a row. -/
theorem forall_mem_intercalate {α : Type} {P : α → Prop} {separator : List α}
    (between : ∀ a ∈ separator, P a) {lists : List (List α)} (each : ∀ as ∈ lists, ∀ a ∈ as, P a) :
    ∀ a ∈ separator.intercalate lists, P a := by
  induction lists with
  | nil => simp
  | cons first lists ih =>
    obtain ⟨here, others⟩ := List.forall_mem_cons.1 each
    cases lists with
    | nil => simpa using here
    | cons next lists =>
      rw [List.intercalate_cons_cons]
      simp only [List.forall_mem_append]
      exact ⟨⟨here, between⟩, ih others⟩

/-! ### Layout -/

theorem isJsonBlank_newline (indent : Nat) :
    ∀ c ∈ (newline indent).toList, isJsonBlank c = true := by
  intro c member
  rw [newline, String.toList_ofList] at member
  rcases List.mem_cons.1 member with rfl | member
  · decide
  · rw [List.eq_of_mem_replicate member]
    decide

theorem return_not_mem_newline (indent : Nat) : '\r' ∉ (newline indent).toList := by
  rw [newline, String.toList_ofList]
  intro member
  rcases List.mem_cons.1 member with same | member
  · exact absurd same (by decide)
  · exact absurd (List.eq_of_mem_replicate member) (by decide)

theorem stops_newline (indent : Nat) (rest : List Char) :
    Stops Numeral.continues ((newline indent).toList ++ rest) := by
  rw [newline, String.toList_ofList]
  exact stops_cons.2 (by decide)

/-- The characters of parts that are whole. -/
def chars (parts : List Text) : List Char :=
  parts.flatMap fun part => part.head.toList

@[simp] theorem chars_cons (part : Text) (parts : List Text) :
    chars (part :: parts) = part.head.toList ++ chars parts :=
  List.flatMap_cons

@[simp] theorem chars_append (parts more : List Text) :
    chars (parts ++ more) = chars parts ++ chars more :=
  List.flatMap_append

theorem chars_intercalate (separator : List Text) (inner : List (List Text)) :
    chars (separator.intercalate inner) = (chars separator).intercalate (inner.map chars) := by
  induction inner with
  | nil => rfl
  | cons parts inner ih =>
    cases inner with
    | nil => simp
    | cons next inner =>
      rw [List.intercalate_cons_cons, List.map_cons, List.map_cons, List.intercalate_cons_cons,
        ← List.map_cons, ← ih]
      simp

theorem chars_bracketed (opening closing : String) (indent : Nat) {inner : List (List Text)}
    (nonempty : inner ≠ []) :
    chars (bracketed opening closing indent inner) =
      opening.toList ++ ((newline (indent + 2)).toList ++
        ((',' :: (newline (indent + 2)).toList).intercalate (inner.map chars) ++
          ((newline indent).toList ++ closing.toList))) := by
  have between : chars [("," ++ newline (indent + 2) : Text)] =
      ',' :: (newline (indent + 2)).toList := by simp [chars]
  cases inner with
  | nil => exact absurd rfl nonempty
  | cons parts inner =>
    rw [bracketed, chars_cons, chars_append, chars_intercalate, between]
    · simp [chars]
    · simp

theorem itemParts_eq_map (indent : Nat) (items : List Document) :
    itemParts indent items = items.map (jsonParts indent) := by
  induction items with
  | nil => rw [itemParts, List.map_nil]
  | cons d items ih => rw [itemParts, ih, List.map_cons]

theorem chars_fieldParts (indent : Nat) {fields : List (Text × Document)}
    (names : ∀ field ∈ fields, field.1.IsWhole) :
    (fieldParts indent fields).map chars =
      fields.map (fieldText fun d => chars (jsonParts indent d)) := by
  induction fields with
  | nil => rw [fieldParts, List.map_nil, List.map_nil]
  | cons field fields ih =>
    obtain ⟨isWhole, others⟩ := List.forall_mem_cons.1 names
    obtain ⟨key, d⟩ := field
    obtain ⟨key, rfl⟩ := isWhole.exists_string
    rw [fieldParts, List.map_cons, ih others, List.map_cons,
      Text.JsonString.encode_isNotControl]
    simp [fieldText, chars]

theorem jsonValue_list {cs more : List Char} {first : Char}
    (skipped : skipBlanks cs = first :: more) (other : first ≠ ']') (fuel : Nat) :
    jsonValue (fuel + 1) ('[' :: cs) =
      (jsonList fuel (first :: more)).map fun (items, rest) => (.list items, rest) := by
  rw [jsonValue, skipped]
  split
  next same => exact absurd (List.cons.inj same).1 other
  · rfl

theorem jsonValue_object {cs more : List Char} {first : Char}
    (skipped : skipBlanks cs = first :: more) (other : first ≠ '\x7d') (fuel : Nat) :
    jsonValue (fuel + 1) ('\x7b' :: cs) =
      (jsonObject fuel [] (first :: more)).map fun (fields, rest) => (.object fields, rest) := by
  rw [jsonValue, skipped]
  split
  next same => exact absurd (List.cons.inj same).1 other
  · rfl

section

variable {write : Document → List Char} (indent : Nat)

theorem skipBlanks_newline {c : Char} (shows : isJsonBlank c = false) (rest : List Char) :
    skipBlanks ((newline indent).toList ++ c :: rest) = c :: rest :=
  skipBlanks_append (isJsonBlank_newline indent) (stops_cons.2 shows)

theorem return_not_mem_lines {texts : List (List Char)} (each : ∀ text ∈ texts, '\r' ∉ text)
    {closing : Char} (other : '\r' ≠ closing) :
    '\r' ∉ (newline (indent + 2)).toList ++
      ((',' :: (newline (indent + 2)).toList).intercalate texts ++
        ((newline indent).toList ++ [closing])) := by
  have between : '\r' ∉ ',' :: (newline (indent + 2)).toList := by
    simp [return_not_mem_newline]
  have inside : '\r' ∉ (',' :: (newline (indent + 2)).toList).intercalate texts := by
    refine fun member => forall_mem_intercalate (P := (· ≠ '\r')) ?_ ?_ _ member rfl
    · exact fun c member same => between (same ▸ member)
    · exact fun text isText c member same => each text isText (same ▸ member)
  simp only [List.mem_append, List.mem_singleton, not_or]
  exact ⟨return_not_mem_newline _, inside, return_not_mem_newline _, other⟩

/-- Items that are read back make a list that is read back. -/
theorem reads_list {d : Document} {items : List Document}
    (reads : ∀ item ∈ d :: items, Reads (write item) item) :
    Reads
      ('[' :: ((newline (indent + 2)).toList ++
        ((',' :: (newline (indent + 2)).toList).intercalate ((d :: items).map write) ++
          ((newline indent).toList ++ [']'])))) (.list (d :: items)) := by
  refine Reads.intro (by decide) (fun rest fuel _ enough => ?_) ?_
  · obtain ⟨first, more, starts, opens⟩ := (reads d (by simp)).starts
    obtain ⟨further, joined⟩ :=
      exists_intercalate (',' :: (newline (indent + 2)).toList) (write d) (items.map write)
    have front : (',' :: (newline (indent + 2)).toList).intercalate ((d :: items).map write) ++
        ((newline indent).toList ++ ']' :: rest) =
          first :: (more ++ (further ++ ((newline indent).toList ++ ']' :: rest))) := by
      rw [List.map_cons, joined, starts, List.append_assoc, List.cons_append]
    simp only [List.append_assoc, List.singleton_append, List.length_append] at enough ⊢
    obtain ⟨fuel, rfl⟩ := Nat.exists_eq_succ_of_ne_zero (by omega : fuel ≠ 0)
    have skipped := skipBlanks_newline (indent + 2) opens.1
      (more ++ (further ++ ((newline indent).toList ++ ']' :: rest)))
    rw [← front] at skipped
    rw [jsonValue_list (skipped.trans front) opens.2.1, ← front,
      jsonList_items (isJsonBlank_newline (indent + 2)) (stops_newline indent _)
        (skipBlanks_newline indent (by decide) rest) reads (by omega)]
    rfl
  · have each : ∀ text ∈ (d :: items).map write, '\r' ∉ text := by
      intro text member
      obtain ⟨item, isItem, rfl⟩ := List.mem_map.1 member
      exact (reads item isItem).unbroken
    exact List.not_mem_cons_of_ne_of_not_mem (by decide)
      (return_not_mem_lines indent each (by decide))

/-- Fields whose values are read back make an object that is read back. -/
theorem reads_object {field : Text × Document} {fields : List (Text × Document)}
    (distinct : ((field :: fields).map Prod.fst).Nodup)
    (names : ∀ f ∈ field :: fields, f.1.IsWhole)
    (reads : ∀ f ∈ field :: fields, Reads (write f.2) f.2) :
    Reads
      ('\x7b' :: ((newline (indent + 2)).toList ++
        ((',' :: (newline (indent + 2)).toList).intercalate
          ((field :: fields).map (fieldText write)) ++
            ((newline indent).toList ++ ['\x7d'])))) (.object (field :: fields)) := by
  refine Reads.intro (by decide) (fun rest fuel _ enough => ?_) ?_
  · obtain ⟨further, joined⟩ := exists_intercalate (',' :: (newline (indent + 2)).toList)
      (fieldText write field) (fields.map (fieldText write))
    have front : ∃ more, (',' :: (newline (indent + 2)).toList).intercalate
        ((field :: fields).map (fieldText write)) ++
          ((newline indent).toList ++ '\x7d' :: rest) = '"' :: more := by
      rw [List.map_cons, joined, fieldText, Text.JsonString.rawText, String.toList_ofList]
      exact ⟨_, rfl⟩
    obtain ⟨more, front⟩ := front
    simp only [List.append_assoc, List.singleton_append, List.length_append] at enough ⊢
    obtain ⟨fuel, rfl⟩ := Nat.exists_eq_succ_of_ne_zero (by omega : fuel ≠ 0)
    have skipped := skipBlanks_newline (indent + 2) (by decide : isJsonBlank '"' = false) more
    rw [← front] at skipped
    rw [jsonValue_object (skipped.trans front) (by decide), ← front,
      jsonObject_fields (isJsonBlank_newline (indent + 2)) (stops_newline indent _)
        (skipBlanks_newline indent (by decide) rest) (by simpa using distinct) names reads
        (by omega)]
    rfl
  · have each : ∀ text ∈ (field :: fields).map (fieldText write), '\r' ∉ text := by
      intro text member
      obtain ⟨f, isField, rfl⟩ := List.mem_map.1 member
      have value := (reads f isField).unbroken
      have name := (reads_text f.1.head).unbroken
      simp [fieldText, value, name]
    exact List.not_mem_cons_of_ne_of_not_mem (by decide)
      (return_not_mem_lines indent each (by decide))

end

theorem reads_empty_list : Reads "[]".toList (.list []) :=
  Reads.intro (by decide) (fun _ _ _ _ => rfl) (by decide)

theorem reads_empty_object : Reads "\x7b\x7d".toList (.object []) :=
  Reads.intro (by decide) (fun _ _ _ _ => rfl) (by decide)

/-- By induction on the document; the parts stand further in. -/
theorem reads_jsonParts {d : Document} (plain : d.Plain) (indent : Nat) :
    Reads (chars (jsonParts indent d)) d := by
  induction plain generalizing indent with
  | null =>
    rw [jsonParts]
    exact reads_null
  | @bool b =>
    cases b with
    | true =>
      rw [jsonParts]
      exact reads_bool true
    | false =>
      rw [jsonParts]
      exact reads_bool false
  | double bound =>
    rw [jsonParts]
    simpa [chars] using reads_double bound
  | text isWhole =>
    obtain ⟨s, rfl⟩ := isWhole.exists_string
    rw [jsonParts, Text.JsonString.encode_isNotControl]
    simpa [chars] using reads_text s
  | @list items _ ih =>
    rw [jsonParts, itemParts_eq_map]
    cases items with
    | nil => exact reads_empty_list
    | cons d items =>
      rw [chars_bracketed _ _ _ (by simp), List.map_map]
      exact reads_list indent fun item member => ih item member (indent + 2)
  | @object fields distinct names _ ih =>
    have parts := chars_fieldParts (indent + 2) names
    rw [jsonParts]
    cases fields with
    | nil =>
      rw [fieldParts]
      exact reads_empty_object
    | cons field fields =>
      rw [chars_bracketed _ _ _ (by intro none; simp [none] at parts), parts]
      exact reads_object indent distinct names fun f member => ih f member (indent + 2)

/-! ### Whole documents -/

theorem isWhole_bracketed (opening closing : String) (indent : Nat) {inner : List (List Text)}
    (each : ∀ parts ∈ inner, ∀ part ∈ parts, part.IsWhole) :
    ∀ part ∈ bracketed opening closing indent inner, part.IsWhole := by
  cases inner with
  | nil => simp [bracketed, Text.isWhole_string]
  | cons parts inner =>
    have between : ∀ part ∈ [("," ++ newline (indent + 2) : Text)], part.IsWhole := by
      simp [Text.isWhole_string]
    have joined := forall_mem_intercalate between each
    simp only [bracketed, List.mem_cons, List.mem_append, List.not_mem_nil, or_false]
    rintro part (rfl | member | rfl)
    · rfl
    · exact joined part member
    · rfl

theorem isWhole_fieldParts {indent : Nat} {fields : List (Text × Document)}
    (names : ∀ field ∈ fields, field.1.IsWhole)
    (each : ∀ field ∈ fields, ∀ part ∈ jsonParts indent field.2, part.IsWhole) :
    ∀ parts ∈ fieldParts indent fields, ∀ part ∈ parts, part.IsWhole := by
  induction fields with
  | nil => simp [fieldParts]
  | cons field fields ih =>
    obtain ⟨key, d⟩ := field
    obtain ⟨isWhole, otherNames⟩ := List.forall_mem_cons.1 names
    obtain ⟨first, others⟩ := List.forall_mem_cons.1 each
    obtain ⟨key, rfl⟩ := isWhole.exists_string
    rw [fieldParts, List.forall_mem_cons, Text.JsonString.encode_isNotControl]
    refine ⟨?_, ih otherNames others⟩
    simp only [List.forall_mem_cons]
    exact ⟨rfl, rfl, first⟩

/-- The parts of a plain document have no halves. -/
theorem isWhole_jsonParts {d : Document} (plain : d.Plain) (indent : Nat) :
    ∀ part ∈ jsonParts indent d, part.IsWhole := by
  induction plain generalizing indent with
  | null => simp [jsonParts, Text.isWhole_string]
  | @bool b => cases b <;> simp [jsonParts, Text.isWhole_string]
  | double => simp [jsonParts, Text.isWhole_string]
  | text isWhole =>
    obtain ⟨s, rfl⟩ := isWhole.exists_string
    simp [jsonParts, Text.JsonString.encode_isNotControl, Text.isWhole_string]
  | @list items _ ih =>
    rw [jsonParts, itemParts_eq_map]
    apply isWhole_bracketed
    intro parts member
    obtain ⟨item, isItem, rfl⟩ := List.mem_map.1 member
    exact ih item isItem (indent + 2)
  | @object fields _ names _ ih =>
    rw [jsonParts]
    apply isWhole_bracketed
    exact isWhole_fieldParts names fun field member => ih field member (indent + 2)

theorem join_of_isWhole {parts : List Text} (each : ∀ part ∈ parts, part.IsWhole) :
    Text.join parts = String.ofList (chars parts) := by
  induction parts with
  | nil => rfl
  | cons part parts ih =>
    obtain ⟨first, others⟩ := List.forall_mem_cons.1 each
    rw [Text.join, ih others, first.head]
    simp [chars]

theorem writtenParts_of_isWhole {parts : List Text} (each : ∀ part ∈ parts, part.IsWhole) :
    Text.writtenParts parts = (String.ofList (chars parts), none) := by
  induction parts with
  | nil => rfl
  | cons part parts ih =>
    obtain ⟨first, others⟩ := List.forall_mem_cons.1 each
    rw [Text.writtenParts, first.head, Text.Encoding.unencodable?_utf8, ih others]
    simp [chars]

/-- The text of a plain document. -/
def plainJson (d : Document) : String :=
  String.ofList (chars (d.jsonParts 0))

/-- A plain document is written as a whole. -/
theorem writtenParts_jsonParts {d : Document} (plain : d.Plain) :
    Text.writtenParts (d.jsonParts 0) = (d.plainJson, none) :=
  writtenParts_of_isWhole (isWhole_jsonParts plain 0)

theorem toJson_eq {d : Document} (plain : d.Plain) : d.toJson = d.plainJson :=
  join_of_isWhole (isWhole_jsonParts plain 0)

/-- What is written of a document is read as that document. -/
theorem ofJson_plainJson {d : Document} (plain : d.Plain) : ofJson d.plainJson = .ok d := by
  have reads := reads_jsonParts plain 0
  rw [ofJson, plainJson, String.toList_ofList]
  generalize chars (d.jsonParts 0) = text at reads ⊢
  obtain ⟨first, more, starts, notBlank, -, noMark⟩ := reads.starts
  have value : jsonValue (2 * text.length + 2) text = .ok (d, []) := by
    have read := reads.value (stops_nil _) (by omega : 2 * text.length ≤ 2 * text.length + 2)
    rwa [List.append_nil] at read
  have skipped : skipBlanks text = text := by
    simp [starts, skipBlanks, notBlank]
  have marked : text.head? ≠ some '\ufeff' := by
    simpa [starts] using noMark
  have whole : wholeValue text = .ok d := by
    rw [wholeValue, if_neg marked, skipped]
    simp only [bind, Except.bind, pure, Except.pure, value]
    rfl
  rw [whole]

theorem return_not_mem_plainJson {d : Document} (plain : d.Plain) : '\r' ∉ d.plainJson.toList := by
  rw [plainJson, String.toList_ofList]
  exact (reads_jsonParts plain 0).unbroken

end Document

end YapLang
