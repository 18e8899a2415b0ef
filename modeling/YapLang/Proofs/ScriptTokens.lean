import YapLang.Proofs.Cutting
import YapLang.Proofs.Grammar
import YapLang.Script

/-!
# Tokens of a script

A script writes an update in front of its name, where the grammar has it behind. Its tokens are
brought into the order of the grammar by swapping each such pair. A text *reads as* phrases of a
kind if it is cut into tokens that, in that order, are such a phrase; texts that are put together
read as phrases that are put together.
-/
namespace YapLang

open Lexeme (Cuts CutsInto Ends WordEnds)
open Grammar

/-! ### The order of the grammar -/

/-- Puts each update operator that stands in front of a name behind it. -/
def swapUpdates : List Token → List Token
  | t :: u :: rest =>
    if t.isOperator ["++", "--"] && u.kind == .identifier then u :: t :: swapUpdates rest
    else t :: swapUpdates (u :: rest)
  | tokens => tokens

theorem length_swapUpdates (tokens : List Token) : (swapUpdates tokens).length = tokens.length := by
  fun_induction swapUpdates tokens with
  | case1 t u rest _ ih => simp [ih]
  | case2 t u rest _ ih => simpa using ih
  | case3 => rfl

/-- Wherever the first tokens stand, swapping makes the second ones of them. -/
def Reorders (ts us : List Token) : Prop :=
  ∀ rest, swapUpdates (ts ++ rest) = us ++ swapUpdates rest

theorem reorders_nil : Reorders [] [] :=
  fun _ => rfl

theorem Reorders.append {ts us ts' us' : List Token} (first : Reorders ts us)
    (second : Reorders ts' us') : Reorders (ts ++ ts') (us ++ us') := by
  intro rest
  rw [List.append_assoc, first, second, List.append_assoc]

theorem reorders_single {t : Token} (other : t.isOperator ["++", "--"] = false) :
    Reorders [t] [t] := by
  intro rest
  cases rest with
  | nil => rfl
  | cons u rest => simp [swapUpdates, other]

theorem reorders_update {t u : Token} {op : String} {name : Text} (mark : Mark op t)
    (isUpdate : op ∈ ["++", "--"]) (spells : Name name u) : Reorders [t, u] [u, t] := by
  intro rest
  have operator : t.isOperator ["++", "--"] = true := by
    simpa [Token.isOperator, mark.1, mark.2] using isUpdate
  simp [swapUpdates, operator, spells.1]

/-! ### Texts that read as phrases -/

/-- The text has no halves, and in front of whatever meets the condition, it is cut into tokens
that, in the order of the grammar, have the property. -/
def Reads (text : Text) (follow : List Char → Prop) (D : List Token → Prop) : Prop :=
  text.IsWhole ∧ CutsInto text.head follow fun ts => ∃ us, Reorders ts us ∧ D us

theorem Reads.append {a b : Text} {follow follow' : List Char → Prop} {D E F : List Token → Prop}
    (first : Reads a follow D) (second : Reads b follow' E)
    (fits : ∀ rest, follow' rest → follow (b.head.toList ++ rest))
    (join : ∀ ts us, D ts → E us → F (ts ++ us)) : Reads (a ++ b) follow' F := by
  obtain ⟨a, _⟩ := a
  obtain ⟨b, _⟩ := b
  obtain ⟨rfl, first⟩ := first
  obtain ⟨rfl, second⟩ := second
  -- the tokens are those of the two texts, and swapping does not reach across the seam
  refine ⟨rfl, CutsInto.append first second fits ?_⟩
  rintro ts ts' ⟨us, reorders, holds⟩ ⟨us', reorders', holds'⟩
  exact ⟨us ++ us', reorders.append reorders', join us us' holds holds'⟩

theorem Reads.mono {text : Text} {follow follow' : List Char → Prop} {D E : List Token → Prop}
    (reads : Reads text follow D) (fits : ∀ rest, follow' rest → follow rest)
    (weaker : ∀ ts, D ts → E ts) : Reads text follow' E := by
  refine ⟨reads.1, CutsInto.mono reads.2 fits ?_⟩
  rintro ts ⟨us, reorders, holds⟩
  exact ⟨us, reorders, weaker us holds⟩

theorem Reads.map {text : Text} {follow : List Char → Prop} {D E : List Token → Prop}
    (reads : Reads text follow D) (weaker : ∀ ts, D ts → E ts) : Reads text follow E :=
  reads.mono (fun _ follows => follows) weaker

/-- The condition that anything meets. -/
def Anything (_ : List Char) : Prop :=
  True

theorem reads_nil {follow : List Char → Prop} {D : List Token → Prop} (empty : D []) :
    Reads "" follow D := by
  refine ⟨rfl, [], fun _ _ _ splits => splits, fun ts none => ?_⟩
  obtain rfl := List.map_eq_nil_iff.1 none
  exact ⟨[], reorders_nil, empty⟩

/-- A text that reads as something on its own is cut into tokens that are that, in order. -/
theorem Reads.tokens {text : Text} {D : List Token → Prop} (reads : Reads text Anything D) :
    ∃ (s : String) (tokens : List Token), text = s ∧ Token.scan s = .ok tokens ∧
      D (swapUpdates tokens) := by
  obtain ⟨s, _⟩ := text
  obtain ⟨rfl, cuts⟩ := reads
  obtain ⟨tokens, scanned, us, reorders, holds⟩ := CutsInto.tokens cuts trivial
  refine ⟨s, tokens, rfl, scanned, ?_⟩
  have order := reorders []
  rw [List.append_nil] at order
  simpa [order, swapUpdates] using holds

/-! ### Single tokens -/

/-- A token that is not an update operator stays where it is. -/
theorem reorders_of_shape {t : Token} {kind : Token.Kind} {word : String}
    (shape : t.shape = (kind, word)) (other : kind ≠ .punctuation ∨ word ∉ ["++", "--"]) :
    Reorders [t] [t] := by
  obtain ⟨sameKind, sameText⟩ := Prod.mk.inj shape
  apply reorders_single
  rw [Token.isOperator, sameKind, sameText, Bool.and_eq_false_iff]
  rcases other with other | other
  · exact .inl (beq_eq_false_iff_ne.2 other)
  · exact .inr (by simpa using other)

theorem Reads.of_cuts {text : String} {follow : List Char → Prop} {kind : Token.Kind}
    {word : String} (cuts : Cuts text follow [(kind, word)])
    (other : kind ≠ .punctuation ∨ word ∉ ["++", "--"]) :
    Reads text follow fun us => ∃ t, us = [t] ∧ t.kind = kind ∧ t.text = word := by
  refine ⟨rfl, _, cuts, fun ts same => ?_⟩
  obtain ⟨t, rfl, shape⟩ := List.map_eq_singleton_iff.1 same
  obtain ⟨sameKind, sameText⟩ := Prod.mk.inj shape
  exact ⟨[t], reorders_of_shape shape other, t, rfl, sameKind, sameText⟩

theorem reads_name {name : String} (isName : Lexeme.IsName name) :
    Reads name WordEnds fun us => ∃ t, us = [t] ∧ Name name t := by
  refine (Reads.of_cuts (Lexeme.cuts_name isName) (.inl (by simp))).map ?_
  rintro _ ⟨t, rfl, kind, text⟩
  exact ⟨t, rfl, kind, congrArg Text.whole text⟩

/-- A fixed text that is one punctuation mark. -/
theorem reads_mark {text mark : String} (n : Nat) (gap : String)
    (peeled : ∀ rest, Lexeme.peel n (text.toList ++ rest) =
      some ([(.punctuation, mark)], gap.toList ++ rest))
    (inside : gap.toList.all Lexeme.isGapChar = true) (other : mark ∉ ["++", "--"]) :
    Reads text Anything fun us => ∃ t, us = [t] ∧ Mark mark t :=
  .of_cuts (Lexeme.cuts_literal n gap peeled inside) (.inr other)

/-- A fixed text that is one keyword. -/
theorem reads_keyword {text keyword : String} (n : Nat) (gap : String)
    (peeled : ∀ rest, Lexeme.peel n (text.toList ++ rest) =
      some ([(.keyword, keyword)], gap.toList ++ rest))
    (inside : gap.toList.all Lexeme.isGapChar = true) :
    Reads text Anything fun us => ∃ t, us = [t] ∧ Keyword keyword t :=
  .of_cuts (Lexeme.cuts_literal n gap peeled inside) (.inl (by simp))

/-- A fixed text that is one keyword and the end of a statement. -/
theorem reads_jump {text keyword : String}
    (peeled : ∀ rest, Lexeme.peel 2 (text.toList ++ rest) =
      some ([(.keyword, keyword), (.punctuation, ";")], rest)) :
    Reads text Anything fun us => ∃ t u, us = [t, u] ∧ Keyword keyword t ∧ Mark ";" u := by
  refine ⟨rfl, _, Lexeme.cuts_literal 2 "" peeled (by decide), fun ts same => ?_⟩
  obtain ⟨t, ts, rfl, first, same⟩ := List.map_eq_cons_iff.1 same
  obtain ⟨u, rfl, second⟩ := List.map_eq_singleton_iff.1 same
  refine ⟨[t, u], ?_, t, u, rfl, Prod.mk.inj first, Prod.mk.inj second⟩
  exact (reorders_of_shape first (.inl (by simp))).append
    (reorders_of_shape second (.inr (by decide)))

theorem reads_gap {gap : String} (inside : gap.toList.all Lexeme.isGapChar = true) :
    Reads gap Anything fun us => us = [] := by
  refine ⟨rfl, [], Lexeme.cuts_gap inside, fun ts none => ?_⟩
  obtain rfl := List.map_eq_nil_iff.1 none
  exact ⟨[], reorders_nil, rfl⟩

end YapLang
