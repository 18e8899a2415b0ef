import YapLang.Command.Invoke

/-!
# The text of a path

A path from text is shown as a text that is read as the same path, also after something was added to
its last part. The path of a document is not that of its program, and not that of the debug file.
-/
namespace YapLang.Command

/-! ### Parts between slashes -/

theorem slashParts_append {cs : List Char} (unslashed : '/' ∉ cs) (rest : List Char) :
    slashParts (cs ++ '/' :: rest) = cs :: slashParts rest := by
  induction cs with
  | nil => rfl
  | cons c cs ih =>
    rw [List.mem_cons, not_or] at unslashed
    rw [List.cons_append, slashParts.eq_3 _ _ (Ne.symm unslashed.1), ih unslashed.2]

theorem slashParts_of_unslashed {cs : List Char} (unslashed : '/' ∉ cs) : slashParts cs = [cs] := by
  induction cs with
  | nil => rfl
  | cons c cs ih =>
    rw [List.mem_cons, not_or] at unslashed
    rw [slashParts.eq_3 _ _ (Ne.symm unslashed.1), ih unslashed.2]

theorem unslashed_of_mem_slashParts {cs part : List Char} (member : part ∈ slashParts cs) :
    '/' ∉ part := by
  induction cs generalizing part with
  | nil =>
    obtain rfl : part = [] := by simpa [slashParts] using member
    exact List.not_mem_nil
  | cons c cs ih =>
    by_cases slash : c = '/'
    · subst slash
      rw [slashParts, List.mem_cons] at member
      rcases member with rfl | later
      · exact List.not_mem_nil
      · exact ih later
    · rw [slashParts.eq_3 _ _ slash] at member
      cases split : slashParts cs with
      | nil =>
        obtain rfl : part = [c] := by simpa [split] using member
        simpa using Ne.symm slash
      | cons first others =>
        rw [split] at ih member
        simp only [List.mem_cons] at ih member
        rcases member with rfl | later
        · simp [Ne.symm slash, ih (.inl rfl)]
        · exact ih (.inr later)

theorem slashParts_intercalate {parts : List String} (nonempty : parts ≠ [])
    (unslashed : ∀ part ∈ parts, '/' ∉ part.toList) :
    slashParts ("/".intercalate parts).toList = parts.map String.toList := by
  induction parts with
  | nil => contradiction
  | cons part parts ih =>
    rw [List.forall_mem_cons] at unslashed
    by_cases last : parts = []
    · subst last
      simpa using slashParts_of_unslashed unslashed.1
    · have slash : "/".toList = ['/'] := by decide
      rw [String.intercalate_cons_of_ne_nil last, String.toList_append, String.toList_append, slash,
        List.append_assoc, List.singleton_append, slashParts_append unslashed.1,
        ih last unslashed.2, List.map_cons]

theorem intercalate_append_last (separator a b : String) (parts : List String) :
    separator.intercalate (parts ++ [a ++ b]) = separator.intercalate (parts ++ [a]) ++ b := by
  by_cases none : parts = []
  · simp [none]
  · rw [String.intercalate_append_of_ne_nil none (by simp),
      String.intercalate_append_of_ne_nil none (by simp)]
    simp [String.append_assoc]

namespace Path

/-! ### Paths as they are shown -/

/-- The form of a path from text. -/
structure Normal (path : Path) : Prop where
  root : path.root = "" ∨ path.root = "/" ∨ path.root = "//"
  parts : ∀ part ∈ path.parts, part ≠ "" ∧ part ≠ "." ∧ '/' ∉ part.toList

theorem normal_ofText (text : String) : (ofText text).Normal := by
  constructor
  · simp only [ofText, rootOf]
    split <;> simp
  · intro part member
    simp only [ofText, List.mem_filter, decide_eq_true_eq] at member
    obtain ⟨isPart, named, notDot⟩ := member
    obtain ⟨cs, isSplit, rfl⟩ := List.mem_map.1 isPart
    rw [String.toList_ofList]
    exact ⟨named, notDot, unslashed_of_mem_slashParts isSplit⟩

theorem Normal.extend {path : Path} (normal : path.Normal) {suffix : String}
    (unslashed : '/' ∉ suffix.toList) (long : 1 < suffix.length) :
    (path.extend suffix).Normal := by
  have extended (last : String) (lastUnslashed : '/' ∉ last.toList) :
      last ++ suffix ≠ "" ∧ last ++ suffix ≠ "." ∧ '/' ∉ (last ++ suffix).toList := by
    have longer := String.length_append (s := last) (t := suffix)
    refine ⟨?_, ?_, by simp [lastUnslashed, unslashed]⟩
    all_goals
      intro same
      rw [same] at longer
      have short : "".length = 0 ∧ ".".length = 1 := by decide
      omega
  obtain ⟨root, parts⟩ := path
  rcases List.eq_nil_or_concat parts with rfl | ⟨front, last, rfl⟩
  · constructor
    · exact normal.root
    · intro part member
      obtain rfl : part = suffix := by simpa [Path.extend] using member
      simpa using extended "" (by decide)
  · constructor
    · simpa [Path.extend] using normal.root
    · intro part member
      have each := normal.parts
      simp only [Path.extend, List.getLast?_append, List.getLast?_singleton, Option.some_or,
        List.dropLast_concat, List.concat_eq_append, List.mem_append, List.mem_singleton]
        at member each
      rcases member with before | rfl
      · exact each part (.inl before)
      · exact extended last (each last (.inr rfl)).2.2

theorem Normal.exists_front {path : Path} (normal : path.Normal) (nonempty : path.parts ≠ []) :
    ∃ c cs, ("/".intercalate path.parts).toList = c :: cs ∧ c ≠ '/' := by
  obtain ⟨first, others, isSplit⟩ := List.exists_cons_of_ne_nil nonempty
  obtain ⟨named, -, unslashed⟩ := normal.parts first (by simp [isSplit])
  obtain ⟨c, cs, isFirst⟩ := List.exists_cons_of_ne_nil (mt String.toList_eq_nil_iff.1 named)
  have other : c ≠ '/' := by
    rintro rfl
    exact unslashed (by simp [isFirst])
  by_cases alone : others = []
  · exact ⟨c, cs, by simp [isSplit, alone, isFirst], other⟩
  · rw [isSplit, String.intercalate_cons_of_ne_nil alone, String.toList_append,
      String.toList_append, isFirst]
    exact ⟨c, _, rfl, other⟩

/-- The slashes in front of the first part are those of the root. -/
theorem Normal.rootOf_toString {path : Path} (normal : path.Normal) (nonempty : path.parts ≠ []) :
    rootOf (path.root.toList ++ ("/".intercalate path.parts).toList) = path.root := by
  obtain ⟨c, cs, isFront, other⟩ := normal.exists_front nonempty
  have slashes : ∀ a ∈ path.root.toList, decide (a = '/') = true := by
    rcases normal.root with isRoot | isRoot | isRoot <;> rw [isRoot] <;> simp
  rw [isFront, rootOf, List.takeWhile_append_of_pos slashes,
    List.takeWhile_cons_of_neg (by simpa using other), List.append_nil]
  rcases normal.root with isRoot | isRoot | isRoot <;> rw [isRoot] <;> rfl

theorem Normal.filter_slashParts {path : Path} (normal : path.Normal) (nonempty : path.parts ≠ []) :
    ((slashParts (path.root.toList ++ ("/".intercalate path.parts).toList)).map
      String.ofList).filter (fun part => part ≠ "" ∧ part ≠ ".") = path.parts := by
  have split := slashParts_intercalate nonempty fun part member => (normal.parts part member).2.2
  have kept : path.parts.filter (fun part => part ≠ "" ∧ part ≠ ".") = path.parts := by
    rw [List.filter_eq_self]
    intro part member
    obtain ⟨named, notDot, -⟩ := normal.parts part member
    simp [named, notDot]
  -- each slash of the root splits off an empty part
  rcases normal.root with isRoot | isRoot | isRoot
  all_goals
    rw [isRoot]
    simp only [String.reduceToList, List.nil_append, List.cons_append, slashParts, split,
      List.map_cons, List.map_map]
    simpa [Function.comp_def] using kept

/-- A path is shown as the text it is read from. -/
theorem Normal.ofText_toString {path : Path} (normal : path.Normal) :
    ofText path.toString = path := by
  obtain ⟨root, parts⟩ := path
  by_cases empty : parts = []
  · subst empty
    rcases normal.root with rfl | rfl | rfl <;> decide
  · have shown : (Path.mk root parts).toString = root ++ "/".intercalate parts := by
      simp [Path.toString, empty]
    rw [ofText, shown, String.toList_append, normal.rootOf_toString empty,
      normal.filter_slashParts empty]

/-! ### The path of a document -/

/-- What is added to a path comes last. -/
theorem toString_extend (path : Path) (suffix : String) :
    (path.extend suffix).toString = path.toString ++ suffix ∨
      path.toString = "." ∧ (path.extend suffix).toString = suffix := by
  obtain ⟨root, parts⟩ := path
  rcases List.eq_nil_or_concat parts with rfl | ⟨front, last, rfl⟩
  · by_cases noRoot : root = ""
    · subst noRoot
      exact .inr ⟨rfl, by simp [extend, Path.toString]⟩
    · exact .inl (by simp [extend, Path.toString, noRoot])
  · left
    simp [extend, Path.toString, intercalate_append_last, String.append_assoc]

theorem ofText_toString_extend (name : String) :
    ofText ((ofText name).extend treeSuffix).toString = (ofText name).extend treeSuffix := by
  apply Normal.ofText_toString
  exact (normal_ofText name).extend (by decide) (by decide)

theorem toString_extend_ne_empty (path : Path) : (path.extend treeSuffix).toString ≠ "" := by
  intro empty
  rcases path.toString_extend treeSuffix with added | ⟨-, alone⟩
  · have last := (String.append_eq_empty_iff.1 (added.symm.trans empty)).2
    exact absurd last (by decide)
  · exact absurd (alone.symm.trans empty) (by decide)

theorem extend_ne_self (path : Path) : (path.extend treeSuffix).toString ≠ path.toString := by
  intro same
  rcases path.toString_extend treeSuffix with added | ⟨dot, alone⟩
  · have longer := congrArg String.length (added.symm.trans same)
    rw [String.length_append] at longer
    have positive : 0 < treeSuffix.length := by decide
    omega
  · rw [alone, dot] at same
    exact absurd same (by decide)

theorem extend_ne_debugFile (path : Path) :
    (path.extend treeSuffix).toString ≠ debugFile := by
  intro same
  rcases path.toString_extend treeSuffix with added | ⟨-, alone⟩
  · have last := congrArg (fun text : String => text.toList.getLast?) (added.symm.trans same)
    have suffixLast : treeSuffix.toList.getLast? = some 'n' := by decide
    rw [String.toList_append, List.getLast?_append, suffixLast, Option.some_or] at last
    exact absurd last (by decide)
  · rw [alone] at same
    exact absurd same (by decide)

end Path

end YapLang.Command
