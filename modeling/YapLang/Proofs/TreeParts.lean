import YapLang.Tree

/-!
# The parts of a tree

A tree has the trees directly inside it as parts, and what occurs in it is reached by going from
part to part. Parts are smaller than the whole, so what holds of a tree if it holds of its parts
holds of every tree.
-/
namespace YapLang.Tree

variable {τ : Type}

/-- The trees directly inside a tree. -/
def parts : Tree τ → List (Tree τ)
  | program body | block body | function _ _ body => body
  | declaration _ init => init.toList
  | conditional test consequent alternate => test :: (consequent ++ alternate.toList)
  | forLoop init test step body => init.toList ++ test.toList ++ step.toList ++ body
  | whileLoop test body => test :: body
  | returning argument => argument.toList
  | statement expr => [expr]
  | binary _ left right | logical _ left right => [left, right]
  | unary _ operand => [operand]
  | assignment _ value => [value]
  | call callee args => callee :: args
  | property object _ => [object]
  | index object key => [object, key]
  | array elements => elements
  | breakJump | continueJump | number _ | text _ | identifier _ | update _ _ => []

/-- The tree occurs in the whole one: it is the whole tree, or directly inside one that occurs. -/
inductive Occurs (whole : Tree τ) : Tree τ → Prop where
  | whole : Occurs whole whole
  | part {outer inner} : Occurs whole outer → inner ∈ outer.parts → Occurs whole inner

theorem Occurs.trans {outer middle inner : Tree τ} (first : outer.Occurs middle)
    (second : middle.Occurs inner) : outer.Occurs inner := by
  induction second with
  | whole => exact first
  | part _ member ih => exact ih.part member

theorem sizeOf_lt_of_mem_parts {part whole : Tree τ} (member : part ∈ whole.parts) :
    sizeOf part < sizeOf whole := by
  have inList (trees : List (Tree τ)) (member : part ∈ trees) : sizeOf part < sizeOf trees :=
    List.sizeOf_lt_of_mem member
  have inOption (tree : Option (Tree τ)) (member : tree = some part) :
      sizeOf part < sizeOf tree := by
    subst member
    simp
  -- a part stands in the tree itself, in a list of trees or in an option
  cases whole <;> simp only [parts, List.mem_cons, List.mem_append, Option.mem_toList,
    List.not_mem_nil, or_false] at member <;> simp <;> grind

/-- What holds of a tree if it holds of its parts holds of every tree. -/
theorem parts_induction {motive : Tree τ → Prop}
    (step : ∀ tree, (∀ part ∈ tree.parts, motive part) → motive tree) (tree : Tree τ) :
    motive tree :=
  step tree fun part _ => parts_induction step part
termination_by sizeOf tree
decreasing_by exact sizeOf_lt_of_mem_parts ‹_›

end YapLang.Tree
