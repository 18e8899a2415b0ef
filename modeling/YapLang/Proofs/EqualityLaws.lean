import Mathlib
import YapLang.Proofs.FaultSafety

/-!
# Laws of the two equalities

Equality without conversion is an equivalence, except that what is not a number differs from itself.
Equality with conversion is not transitive, but it is symmetric. Its rules are written out one
conversion at a time: a truth value becomes a number, an array becomes its text, and a text that
meets a number is counted. Each conversion leaves less to convert, so every comparison ends, with
one outcome, and the rules come in pairs, one for each side, so the outcome does not depend on the
side. A text may denote an integer beyond the doubles; the comparison then fails from both sides.
-/
namespace YapLang.Value

/-! ### Equality without conversion -/

theorem typeName_of_strictEquals {a b : Value} (equal : strictEquals a b = true) :
    a.typeName = b.typeName := by
  unfold strictEquals at equal
  split at equal
  case h_10 => cases equal
  all_goals rfl

theorem strictEquals_comm (a b : Value) : strictEquals a b = strictEquals b a := by
  -- that equality of doubles is symmetric is in the library, and so is that it is transitive
  cases a <;> cases b <;> simp only [strictEquals] <;> exact BEq.comm

theorem strictEquals_trans {a b c : Value} (first : strictEquals a b = true)
    (second : strictEquals b c = true) : strictEquals a c = true := by
  -- the value in the middle has the form of the two others
  cases b <;> cases a <;> simp only [strictEquals, Bool.false_eq_true] at first <;>
    cases c <;> simp only [strictEquals, Bool.false_eq_true] at second ⊢ <;>
    exact PartialEquivBEq.trans first second

/-- Only what is not a number differs from itself. -/
theorem strictEquals_self_iff (a : Value) :
    strictEquals a a = true ↔ ∀ x, a = number x → x.isNaN = false := by
  cases a with
  | number x => simp [strictEquals]
  | _ => simp [strictEquals]

/-! ### The rules of equality with conversion -/

/-- Whether a value is a number or a text. Against these, an array is compared as its text. -/
def isPlain : Value → Bool
  | number _ | text _ => true
  | _ => false

/-- Whether a value can be equal to values of other types, truth values apart. -/
def isConvertible : Value → Bool
  | array _ => true
  | value => value.isPlain

/-- What the comparison of two values with conversion comes to, one conversion at a time. -/
inductive Compares (heap : Heap) : Value → Value → Except Fault Bool → Prop where
  | alike {a b} : a.typeName = b.typeName → Compares heap a b (.ok (strictEquals a b))
  | boolLeft {p b outcome} : (bool p).typeName ≠ b.typeName →
      Compares heap (bool p).unbool b outcome → Compares heap (bool p) b outcome
  | boolRight {a q outcome} : a.typeName ≠ (bool q).typeName →
      Compares heap a (bool q).unbool outcome → Compares heap a (bool q) outcome
  | numberText {x s} : Compares heap (number x) (text s) ((textNumber s).map (x == ·))
  | textNumber {s y} : Compares heap (text s) (number y) ((textNumber s).map (· == y))
  | arrayLeft {ref b outcome} : b.isPlain = true →
      Compares heap (text ((array ref).toText heap)) b outcome →
      Compares heap (array ref) b outcome
  | arrayRight {a ref outcome} : a.isPlain = true →
      Compares heap a (text ((array ref).toText heap)) outcome →
      Compares heap a (array ref) outcome
  | unlike {a b} : a.typeName ≠ b.typeName → (∀ p, a ≠ bool p) → (∀ q, b ≠ bool q) →
      (a.isConvertible && b.isConvertible) = false → Compares heap a b (.ok false)

section

variable {heap : Heap} {a b : Value}

/-- Each rule has a partner for the other side. -/
theorem Compares.symm {outcome : Except Fault Bool} (compares : Compares heap a b outcome) :
    Compares heap b a outcome := by
  induction compares with
  | alike same =>
    rw [strictEquals_comm]
    exact .alike same.symm
  | boolLeft differ _ ih => exact .boolRight differ.symm ih
  | boolRight differ _ ih => exact .boolLeft differ.symm ih
  | @numberText x s =>
    have swapped : (x == ·) = (· == x) := funext fun _ => BEq.comm
    rw [swapped]
    exact .textNumber
  | @textNumber s y =>
    have swapped : (· == y) = (y == ·) := funext fun _ => BEq.comm
    rw [swapped]
    exact .numberText
  | arrayLeft plain _ ih => exact .arrayRight plain ih
  | arrayRight plain _ ih => exact .arrayLeft plain ih
  | unlike differ left right apart =>
    rw [Bool.and_comm] at apart
    exact .unlike differ.symm right left apart

/-! ### What is computed follows the rules -/

theorem looseEquals_of_typeName (same : a.typeName = b.typeName) :
    looseEquals heap a b = .ok (strictEquals a b) :=
  if_pos same

theorem looseEquals_boolLeft {p : Bool} (differ : (bool p).typeName ≠ b.typeName) :
    looseEquals heap (bool p) b = looseEquals heap (bool p).unbool b := by
  cases b with
  | bool q => exact absurd rfl differ
  | _ => simp [looseEquals, typeName, unbool, strictEquals]

theorem looseEquals_boolRight {q : Bool} (differ : a.typeName ≠ (bool q).typeName) :
    looseEquals heap a (bool q) = looseEquals heap a (bool q).unbool := by
  cases a with
  | bool p => exact absurd rfl differ
  | _ => simp [looseEquals, typeName, unbool, strictEquals]

theorem looseEquals_arrayLeft {ref : ArrayRef} (plain : b.isPlain = true) :
    looseEquals heap (array ref) b = looseEquals heap (text ((array ref).toText heap)) b := by
  cases b with
  | number | text => simp [looseEquals, typeName, unbool, strictEquals]
  | _ => cases plain

theorem looseEquals_arrayRight {ref : ArrayRef} (plain : a.isPlain = true) :
    looseEquals heap a (array ref) = looseEquals heap a (text ((array ref).toText heap)) := by
  cases a with
  | number | text => simp [looseEquals, typeName, unbool, strictEquals]
  | _ => cases plain

theorem looseEquals_unlike (differ : a.typeName ≠ b.typeName) (left : ∀ p, a ≠ bool p)
    (right : ∀ q, b ≠ bool q) (apart : (a.isConvertible && b.isConvertible) = false) :
    looseEquals heap a b = .ok false := by
  have unchanged : a.unbool = a ∧ b.unbool = b := by
    constructor <;> unfold unbool <;> split <;> simp_all
  rw [looseEquals, if_neg differ, unchanged.1, unchanged.2]
  split
  case h_8 => rfl
  -- in the other cases both values are convertible
  all_goals simp [isConvertible, isPlain] at apart

/-- What the rules come to is what is computed. -/
theorem Compares.eq {outcome : Except Fault Bool} (compares : Compares heap a b outcome) :
    looseEquals heap a b = outcome := by
  induction compares with
  | alike same => exact looseEquals_of_typeName same
  | boolLeft differ _ ih => rw [looseEquals_boolLeft differ, ih]
  | boolRight differ _ ih => rw [looseEquals_boolRight differ, ih]
  | numberText => rfl
  | textNumber => rfl
  | arrayLeft plain _ ih => rw [looseEquals_arrayLeft plain, ih]
  | arrayRight plain _ ih => rw [looseEquals_arrayRight plain, ih]
  | unlike differ left right apart => exact looseEquals_unlike differ left right apart

/-! ### Every comparison ends -/

theorem exists_compares_plain (left : a.isPlain = true) (right : b.isPlain = true) :
    ∃ outcome, Compares heap a b outcome := by
  cases a with
  | number x =>
    cases b with
    | number y => exact ⟨_, .alike rfl⟩
    | text t => exact ⟨_, .numberText⟩
    | _ => cases right
  | text s =>
    cases b with
    | number y => exact ⟨_, .textNumber⟩
    | text t => exact ⟨_, .alike rfl⟩
    | _ => cases right
  | _ => cases left

theorem isConvertible_iff (a : Value) :
    a.isConvertible = true ↔ a.isPlain = true ∨ ∃ ref, a = array ref := by
  cases a <;> simp [isConvertible, isPlain]

/-- An array is turned into its text, and then there is nothing left to turn. -/
theorem exists_compares_convertible (left : a.isConvertible = true)
    (right : b.isConvertible = true) : ∃ outcome, Compares heap a b outcome := by
  rcases (isConvertible_iff a).1 left with plain | ⟨ref, rfl⟩
  · rcases (isConvertible_iff b).1 right with plain' | ⟨ref, rfl⟩
    · exact exists_compares_plain plain plain'
    · obtain ⟨outcome, compares⟩ := exists_compares_plain plain
        (show (text ((array ref).toText heap)).isPlain = true from rfl)
      exact ⟨outcome, .arrayRight plain compares⟩
  · rcases (isConvertible_iff b).1 right with plain | ⟨ref', rfl⟩
    · obtain ⟨outcome, compares⟩ := exists_compares_plain
        (show (text ((array ref).toText heap)).isPlain = true from rfl) plain
      exact ⟨outcome, .arrayLeft plain compares⟩
    · exact ⟨_, .alike rfl⟩

theorem exists_compares_unbooled (left : ∀ p, a ≠ bool p) (right : ∀ q, b ≠ bool q) :
    ∃ outcome, Compares heap a b outcome := by
  by_cases same : a.typeName = b.typeName
  · exact ⟨_, .alike same⟩
  cases both : a.isConvertible && b.isConvertible with
  | false => exact ⟨_, .unlike same left right both⟩
  | true =>
    rw [Bool.and_eq_true] at both
    exact exists_compares_convertible both.1 both.2

/-- Truth values are converted first, and at most one of two different values is one. -/
theorem exists_compares (heap : Heap) (a b : Value) : ∃ outcome, Compares heap a b outcome := by
  by_cases same : a.typeName = b.typeName
  · exact ⟨_, .alike same⟩
  by_cases left : ∃ p, a = bool p
  · obtain ⟨p, rfl⟩ := left
    have right : ∀ q, b ≠ bool q := by
      rintro q rfl
      exact same rfl
    have number : ∀ q, (bool p).unbool ≠ bool q := by simp [unbool]
    obtain ⟨outcome, compares⟩ := @exists_compares_unbooled heap _ b number right
    exact ⟨outcome, .boolLeft same compares⟩
  have left : ∀ p, a ≠ bool p := by simpa using left
  by_cases right : ∃ q, b = bool q
  · obtain ⟨q, rfl⟩ := right
    have number : ∀ p, (bool q).unbool ≠ bool p := by simp [unbool]
    obtain ⟨outcome, compares⟩ := @exists_compares_unbooled heap a _ left number
    exact ⟨outcome, .boolRight same compares⟩
  · exact exists_compares_unbooled left (by simpa using right)

theorem compares_iff {outcome : Except Fault Bool} :
    Compares heap a b outcome ↔ looseEquals heap a b = outcome := by
  constructor
  · exact Compares.eq
  · rintro rfl
    obtain ⟨outcome, compares⟩ := exists_compares heap a b
    rwa [compares.eq]

theorem looseEquals_comm (heap : Heap) (a b : Value) :
    looseEquals heap a b = looseEquals heap b a := by
  have compares : Compares heap b a (looseEquals heap b a) := compares_iff.2 rfl
  exact compares.symm.eq

end

/-- A comparison with conversion has the one outcome that the rules come to, the same from both
sides, and fails for an integer beyond the doubles only. Equality without conversion is symmetric
and transitive, and reflexive except on what is not a number. It implies the other equality, and
between values of one type the two are the same. -/
theorem equality_laws (heap : Heap) (a b c : Value) :
    (∀ outcome, Compares heap a b outcome ↔ looseEquals heap a b = outcome) ∧
    looseEquals heap a b = looseEquals heap b a ∧
    (∀ fault, looseEquals heap a b = .error fault → fault = .integerTooLarge) ∧
    strictEquals a b = strictEquals b a ∧
    (strictEquals a b = true → strictEquals b c = true → strictEquals a c = true) ∧
    (strictEquals a a = true ↔ ∀ x, a = number x → x.isNaN = false) ∧
    (strictEquals a b = true → looseEquals heap a b = .ok true) ∧
    (a.typeName = b.typeName → looseEquals heap a b = .ok (strictEquals a b)) := by
  refine ⟨fun _ => compares_iff, looseEquals_comm heap a b, onlyRange_looseEquals,
    strictEquals_comm a b, strictEquals_trans, strictEquals_self_iff a, ?_, looseEquals_of_typeName⟩
  intro equal
  rw [looseEquals_of_typeName (typeName_of_strictEquals equal), equal]

/-- The two zeros are equal in both ways. An array of nothing but itself has an empty text, which
counts as zero like `false`, from either side. -/
theorem equality_laws_zeros :
    let heap : Heap := ⟨#[#[.array ⟨0⟩]], #[]⟩
    strictEquals (number 0.0) (number (-0.0)) = true ∧
      strictEquals (number (-0.0)) (number 0.0) = true ∧
      strictEquals (number 0.0) (number 0.0) = true ∧
      looseEquals heap (number 0.0) (number (-0.0)) = .ok true ∧
      looseEquals heap (array ⟨0⟩) (bool false) = .ok true ∧
      looseEquals heap (bool false) (array ⟨0⟩) = .ok true := by
  intro heap
  have zeros : strictEquals (number 0.0) (number (-0.0)) = true := by decide +kernel
  have circular : looseEquals heap (bool false) (array ⟨0⟩) = .ok true := by decide +kernel
  obtain ⟨-, -, -, symmetric, transitive, -, implies, -⟩ :=
    equality_laws heap (number 0.0) (number (-0.0)) (number 0.0)
  have swapped : strictEquals (number (-0.0)) (number 0.0) = true := by rwa [← symmetric]
  obtain ⟨-, sides, -⟩ := equality_laws heap (array ⟨0⟩) (bool false) undefined
  exact ⟨zeros, swapped, transitive zeros swapped, implies zeros, by rwa [sides], circular⟩

end YapLang.Value
