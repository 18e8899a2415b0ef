import Mathlib.Data.List.TakeWhile
import YapLang.Text.Encoding

/-!
# Texts and their letters

A text is determined by its letters, and every list of letters is that of a text. So texts in a row
are a matter of lists in a row. What is put together from texts without halves has none.
-/
namespace YapLang

/-- The number of a letter is that of no other one. -/
theorem Letter.ofCode?_code (letter : Letter) : Letter.ofCode? letter.code = some letter := by
  cases letter with
  | char c =>
    have valid : c.toNat.isValidChar := c.valid
    rw [Letter.code, Letter.ofCode?, if_pos valid, Char.ofNat_toNat]
  | half unit =>
    have bound := unit.index.isLt
    have invalid : ¬unit.code.isValidChar := by
      simp only [Half.code, Nat.isValidChar]
      omega
    rw [Letter.code, Letter.ofCode?, if_neg invalid, Half.ofCode?, dif_pos (by grind [Half.code])]
    simp [Half.code]

namespace Text

/-! ### Letters -/

@[simp] theorem letters_whole (s : String) : (whole s).letters = s.toList.map .char := by
  simp [letters, charLetters]

theorem letters_cons (s s' : String) (half : Half) (tail : List (Half × String)) :
    letters ⟨s, (half, s') :: tail⟩ =
      s.toList.map .char ++ .half half :: letters ⟨s', tail⟩ := by
  simp [letters, charLetters]

theorem cutAtHalves_append (cs : List Char) (rest : List Letter) :
    cutAtHalves (cs.map .char ++ rest) = (cs ++ (cutAtHalves rest).1, (cutAtHalves rest).2) := by
  induction cs with
  | nil => rfl
  | cons c cs ih => simp [cutAtHalves, ih]

theorem ofLetters_append (cs : List Char) (rest : List Letter) :
    ofLetters (cs.map .char ++ rest) =
      ⟨String.ofList cs ++ (ofLetters rest).head, (ofLetters rest).tail⟩ := by
  simp [ofLetters, cutAtHalves_append, String.ofList_append]

@[simp] theorem ofLetters_chars (cs : List Char) :
    ofLetters (cs.map .char) = whole (String.ofList cs) := by
  -- without halves, all letters go to the head
  have same := ofLetters_append cs []
  simpa [ofLetters, cutAtHalves] using same

@[simp] theorem ofLetters_letters (text : Text) : ofLetters text.letters = text := by
  obtain ⟨s, tail⟩ := text
  induction tail generalizing s with
  | nil => simp
  | cons first tail ih =>
    obtain ⟨half, s'⟩ := first
    -- the string in front of the first half is cut off as it was
    rw [letters_cons, ofLetters_append, String.ofList_toList]
    have rest := ih s'
    simp only [ofLetters, cutAtHalves, Text.mk.injEq] at rest ⊢
    simp [rest]

@[simp] theorem letters_ofLetters (ls : List Letter) : (ofLetters ls).letters = ls := by
  induction ls with
  | nil => rfl
  | cons letter ls ih =>
    cases letter with
    | char c =>
      have same := ofLetters_append [c] ls
      simp only [List.map_cons, List.map_nil, List.cons_append, List.nil_append] at same
      rw [same]
      simp only [letters, charLetters] at ih ⊢
      simp [ih]
    | half half =>
      -- a half starts a new string, which is the head of the rest
      have same : ofLetters (.half half :: ls) =
          ⟨"", (half, (ofLetters ls).head) :: (ofLetters ls).tail⟩ := rfl
      rw [same, letters_cons, ih]
      simp

theorem letters_inj {s t : Text} : s.letters = t.letters ↔ s = t := by
  constructor
  · intro same
    rw [← ofLetters_letters s, same, ofLetters_letters]
  · rintro rfl
    rfl

/-! ### Texts in a row -/

@[simp] theorem append_whole (s t : String) : (whole s ++ whole t : Text) = whole (s ++ t) := rfl

theorem head_append_whole (s : String) (t : Text) : (whole s ++ t).head = s ++ t.head := rfl

@[simp] theorem letters_append (s t : Text) : (s ++ t).letters = s.letters ++ t.letters := by
  obtain ⟨s, tail⟩ := s
  show (appendTo s tail t).letters = _
  induction tail generalizing s with
  | nil => simp [appendTo, letters, charLetters]
  | cons first tail ih =>
    obtain ⟨half, s'⟩ := first
    rw [appendTo, letters_cons, letters_cons, ih]
    simp

theorem append_assoc (s t u : Text) : s ++ t ++ u = s ++ (t ++ u) := by
  simp [← letters_inj]

@[simp] theorem append_empty (s : Text) : s ++ ("" : Text) = s := by
  simp [← letters_inj]

@[simp] theorem empty_append (s : Text) : ("" : Text) ++ s = s := by
  simp [← letters_inj]

theorem intercalate_cons_of_ne_nil {separator text : Text} {texts : List Text}
    (some : texts ≠ []) :
    intercalate separator (text :: texts) = text ++ separator ++ intercalate separator texts := by
  cases texts with
  | nil => exact absurd rfl some
  | cons next rest => rfl

/-! ### Whole texts -/

/-- The text has no halves. -/
def IsWhole (text : Text) : Prop :=
  text.tail = []

theorem isWhole_string (s : String) : IsWhole s := rfl

theorem IsWhole.exists_string {text : Text} (isWhole : text.IsWhole) : ∃ s : String, text = s := by
  obtain ⟨head, tail⟩ := text
  cases isWhole
  exact ⟨head, rfl⟩

theorem IsWhole.append {s t : Text} (first : s.IsWhole) (second : t.IsWhole) :
    (s ++ t).IsWhole := by
  obtain ⟨s, rfl⟩ := first.exists_string
  obtain ⟨t, rfl⟩ := second.exists_string
  rfl

theorem IsWhole.head {text : Text} (isWhole : text.IsWhole) : text = text.head :=
  congrArg (Text.mk text.head) isWhole

/-- A string has a code in every letter. -/
theorem Encoding.unencodable?_utf8 (s : String) : Encoding.utf8.unencodable? s = none := by
  have taken : ∀ letter ∈ (s : Text).letters, Encoding.utf8.takes letter = true := by
    simp [Encoding.utf8, Letter.isChar]
  simp only [Encoding.unencodable?, List.dropWhile_eq_nil_iff.2 taken]
  rfl

end Text

end YapLang
