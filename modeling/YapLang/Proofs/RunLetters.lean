import YapLang.Proofs.RunSteps
import YapLang.Proofs.TextLetters
import YapLang.Proofs.TreeParts

/-!
# The letters of a run

A run puts texts together and takes them apart by letters, and what it adds of its own is made of
characters. So an alphabet that has all characters, and the letters of all literals and names of
functions in a program, has the letters of all texts in the variables, arrays and functions of a run
at all times, and of whatever it prints. Two alphabets matter. That of all letters says no more than
that a stream refuses nothing but what is printed; that of the characters, that a stream which takes
them refuses nothing unless there is a half of one in the program.
-/
namespace YapLang

/-! ### Alphabets -/

/-- Some letters, with all characters among them. -/
structure Alphabet where
  has : Letter → Prop
  char : ∀ c, has (.char c)

namespace Alphabet

def everything : Alphabet where
  has _ := True
  char _ := trivial

def characters : Alphabet where
  has letter := letter.isChar
  char _ := rfl

end Alphabet

variable {A : Alphabet}

namespace Text

/-- All letters of the text are in the alphabet. -/
def Over (A : Alphabet) (text : Text) : Prop :=
  ∀ letter ∈ text.letters, A.has letter

theorem over_string (s : String) : Over A s := by
  intro letter member
  rw [letters_whole] at member
  obtain ⟨c, -, rfl⟩ := List.mem_map.1 member
  exact A.char c

theorem over_everything (text : Text) : text.Over .everything :=
  fun _ _ => trivial

theorem Over.append {s t : Text} (first : s.Over A) (second : t.Over A) : (s ++ t).Over A := by
  intro letter member
  rw [letters_append, List.mem_append] at member
  exact member.elim (first letter) (second letter)

theorem over_intercalate {separator : Text} (between : separator.Over A) {texts : List Text}
    (each : ∀ text ∈ texts, text.Over A) : (intercalate separator texts).Over A := by
  induction texts with
  | nil => exact over_string ""
  | cons text rest ih =>
    obtain ⟨first, others⟩ := List.forall_mem_cons.1 each
    cases rest with
    | nil => exact first
    | cons next rest => exact (first.append between).append (ih others)

theorem Over.ofLetter {text : Text} (isOver : text.Over A) {letter : Letter}
    (member : letter ∈ text.letters) : (ofLetters [letter]).Over A := by
  intro other isLetter
  rw [letters_ofLetters, List.mem_singleton] at isLetter
  rw [isLetter]
  exact isOver letter member

/-- A text without halves is a string. -/
theorem isWhole_iff_over {text : Text} : text.IsWhole ↔ text.Over .characters := by
  constructor
  · intro isWhole
    obtain ⟨s, rfl⟩ := isWhole.exists_string
    exact over_string s
  · intro isOver
    obtain ⟨head, tail⟩ := text
    cases tail with
    | nil => rfl
    | cons first rest =>
      -- a half is a letter of the text, but no character
      have isChar := isOver (.half first.1) (by simp [letters])
      cases isChar

end Text

/-- Whatever is made of characters can be written. -/
def Stream.TakesStrings (stream : Stream) : Prop :=
  ∀ s : String, stream.refusal? s = none

theorem Stream.takesStrings_utf8 : (Stream.encoded .utf8).TakesStrings :=
  Text.Encoding.unencodable?_utf8

namespace Node

/-- A text or the name of a function that the node has itself is over the alphabet. -/
def SpellsOver (A : Alphabet) : Node → Prop
  | .text s => s.Over A
  | .function name _ _ => name.Over A
  | _ => True

/-- All texts and names of functions in the tree are over the alphabet. -/
def Over (A : Alphabet) (tree : Node) : Prop :=
  ∀ node : Node, tree.Occurs node → node.SpellsOver A

end Node

theorem Node.Over.part {tree part : Node} (isOver : tree.Over A) (member : part ∈ tree.parts) :
    part.Over A :=
  fun node occurs => isOver node ((Tree.Occurs.whole.part member).trans occurs)

theorem Node.over_everything (tree : Node) : tree.Over .everything := by
  intro node _
  cases node with
  | text s => exact s.over_everything
  | function name => exact name.over_everything
  | _ => trivial

/-! ### Values and their texts -/

namespace Value

def Over (A : Alphabet) : Value → Prop
  | text s => s.Over A
  | _ => True

end Value

/-- The items of all arrays and the names of all functions are over the alphabet. -/
structure Heap.Over (A : Alphabet) (heap : Heap) : Prop where
  items : ∀ ref, ∀ item ∈ heap.items ref, item.Over A
  names : ∀ closure ∈ heap.closures, closure.name.Over A

namespace Value

variable {heap : Heap} (heapOver : heap.Over A)
include heapOver

theorem over_scalarText {value : Value} (isOver : value.Over A) :
    (value.scalarText heap).Over A := by
  cases value with
  | text s => exact isOver
  | bool b => cases b <;> exact Text.over_string _
  | closure ref =>
    -- all else that stands around the name is a string
    have name : (heap.closureName ref).Over A := by
      unfold Heap.closureName
      cases found : heap.closures[ref.index]? with
      | none => exact Text.over_string _
      | some closure => exact heapOver.names closure (Array.mem_of_getElem? found)
    exact ((Text.over_string _).append name).append (Text.over_string _)
  | number | undefined | array | builtin | method | mathNamespace => exact Text.over_string _

theorem over_textWithin (fuel : Nat) (active : List ArrayRef) {value : Value}
    (isOver : value.Over A) : (value.textWithin heap fuel active).Over A := by
  induction fuel generalizing active value with
  | zero =>
    cases value with
    | array ref => exact Text.over_string _
    | _ => exact over_scalarText heapOver isOver
  | succ fuel ih =>
    cases value with
    | array ref =>
      rw [textWithin]
      split
      · exact Text.over_string _
      · refine Text.over_intercalate (Text.over_string _) ?_
        refine List.forall_mem_map.2 fun item member => ?_
        split
        · exact Text.over_string _
        · exact ih _ (heapOver.items ref item (by simpa using member))
    | _ => exact over_scalarText heapOver isOver

theorem over_inspectWithin (fuel : Nat) (nested : Bool) (active : List ArrayRef) {value : Value}
    (isOver : value.Over A) : (value.inspectWithin heap fuel nested active).Over A := by
  induction fuel generalizing nested active value with
  | zero =>
    cases value with
    | array ref => exact Text.over_string _
    -- quoted, a text is made of characters even if it was not
    | text s => cases nested with
      | true => exact Text.over_string _
      | false => exact isOver
    | _ => exact over_scalarText heapOver isOver
  | succ fuel ih =>
    cases value with
    | array ref =>
      rw [inspectWithin]
      split
      · exact Text.over_string _
      · split
        · exact Text.over_string _
        · refine .append (.append (Text.over_string _) ?_) (Text.over_string _)
          refine Text.over_intercalate (Text.over_string _) ?_
          refine List.forall_mem_map.2 fun item member => ih _ _ ?_
          exact heapOver.items ref item (by simpa using member)
    | text s => cases nested with
      | true => exact Text.over_string _
      | false => exact isOver
    | _ => exact over_scalarText heapOver isOver

theorem over_toText {value : Value} (isOver : value.Over A) : (value.toText heap).Over A :=
  over_textWithin heapOver _ _ isOver

theorem over_joinText {separator : Text} (between : separator.Over A) (ref : ArrayRef) :
    (joinText heap separator ref).Over A := by
  refine Text.over_intercalate between (List.forall_mem_map.2 fun item member => ?_)
  split
  · exact Text.over_string _
  · exact over_textWithin heapOver _ _ (heapOver.items ref item (by simpa using member))

omit heapOver

/-! ### Operators -/

/-- The computation gives a value over the alphabet, or fails for a reason that has nothing to do
with letters. -/
def GivesOver (A : Alphabet) : Except Fault Value → Prop
  | .ok value => value.Over A
  | .error fault => fault.kind ≠ .encoding

theorem GivesOver.tooLarge : GivesOver A (.error .integerTooLarge) := by
  simp [GivesOver, Fault.kind]

theorem GivesOver.bind {α : Type} {x : Except Fault α} {f : α → Except Fault Value}
    (range : OnlyRange x) (next : ∀ a, GivesOver A (f a)) : GivesOver A (x >>= f) := by
  cases x with
  | ok a => exact next a
  | error fault =>
    rw [range fault rfl]
    exact .tooLarge

theorem GivesOver.map {α : Type} {x : Except Fault α} {f : α → Value} (range : OnlyRange x)
    (values : ∀ a, (f a).Over A) : GivesOver A (x.map f) := by
  cases x with
  | ok a => exact values a
  | error fault =>
    rw [range fault rfl]
    exact .tooLarge

theorem givesOver_arithmetic (f : Float → Float → Float) (a b : Value) :
    GivesOver A (arithmetic heap f a b) :=
  .bind onlyRange_toNumber fun _ => .bind onlyRange_toNumber fun _ => trivial

theorem givesOver_ordering (texts : Text → Text → Bool) (numbers : Float → Float → Bool)
    (a b : Value) : GivesOver A (ordering heap texts numbers a b) := by
  unfold ordering
  split
  · trivial
  · exact .bind onlyRange_toNumber fun _ => .bind onlyRange_toNumber fun _ => trivial

/-- The one operator that makes texts puts two of them together. -/
theorem givesOver_binary (heapOver : heap.Over A) (op : Text) {a b : Value} (first : a.Over A)
    (second : b.Over A) : GivesOver A (binary heap op a b) := by
  unfold binary
  split
  · split
    -- two texts, or the texts of two values
    · exact (over_toText heapOver first).append (over_toText heapOver second)
    · exact givesOver_arithmetic _ _ _
  case h_6 | h_7 => exact .map onlyRange_looseEquals fun _ => trivial
  case h_8 | h_9 => trivial
  case h_10 | h_11 | h_12 | h_13 => exact givesOver_ordering _ _ _ _
  case h_14 => simp [GivesOver, Fault.kind]
  all_goals exact givesOver_arithmetic _ _ _

theorem givesOver_unary (op : Text) (a : Value) : GivesOver A (unary heap op a) := by
  unfold unary
  split
  · trivial
  · exact .map onlyRange_toNumber fun _ => trivial
  · exact .map onlyRange_toNumber fun _ => trivial
  · simp [GivesOver, Fault.kind]

end Value

/-! ### The operations of the machine -/

/-- All texts that a run has to do with are over the alphabet: those in variables and arrays, those
in the bodies of functions, and what was printed. -/
structure Machine.Over (A : Alphabet) (m : Machine) : Prop where
  bindings : ∀ ref name value, m.scopes.own? name ref = some value → value.Over A
  heap : m.heap.Over A
  bodies : ∀ closure ∈ m.heap.closures, ∀ node ∈ closure.body, Node.Over A node
  output : m.output.Over A

namespace Run

open Machine (Over)

variable {stream : Stream}

/-- If the run halted because of what it printed, the stream refused a text over the alphabet. -/
def RefusedOver (A : Alphabet) (stream : Stream) : Halt → Prop
  | .fault (.unencodable cause) => ∃ text : Text, text.Over A ∧ stream.refusal? text = some cause
  | _ => True

theorem refusedOver_of_kind {fault : Fault} (other : fault.kind ≠ .encoding) :
    RefusedOver A stream (.fault fault) := by
  cases fault with
  | unencodable => exact absurd rfl other
  | _ => trivial

/-- From a state over the alphabet, the run keeps to the alphabet. -/
def KeepsTo {α : Type} (A : Alphabet) (stream : Stream) (x : Run α) (Q : α → Prop) : Prop :=
  Ensures (Over A) x Q (RefusedOver A stream)

theorem readName_over (scope : ScopeRef) (name : Text) :
    KeepsTo A stream (readName scope name) (Value.Over A) := by
  refine Ensures.get.bind fun m isOver => ?_
  cases found : m.scopes.get? name scope with
  | none => exact .fail trivial
  | some value =>
    obtain ⟨owner, -, bound⟩ := Option.bind_eq_some_iff.1 found
    exact .pure (isOver.bindings owner name value bound)

theorem over_declare {m : Machine} (isOver : m.Over A) (name : Text) {value : Value}
    (valueOver : value.Over A) (scope : ScopeRef) :
    ({ m with scopes := m.scopes.declare name value scope } : Machine).Over A := by
  refine { isOver with bindings := fun ref x bound found => ?_ }
  by_cases created : scope.index < m.scopes.all.size
  · rw [Scopes.own?_declare _ _ _ _ _ _ created] at found
    split at found
    · cases found
      exact valueOver
    · exact isOver.bindings ref x bound found
  -- nothing is bound in a scope that was never created
  · rw [Scopes.declare_of_not_created created] at found
    exact isOver.bindings ref x bound found

theorem declareName_over (scope : ScopeRef) (name : Text) {value : Value}
    (valueOver : value.Over A) :
    KeepsTo A stream (declareName scope name value) (fun _ => True) :=
  .changing trivial fun _ isOver => over_declare isOver name valueOver scope

theorem assignName_over (scope : ScopeRef) (name : Text) {value : Value}
    (valueOver : value.Over A) :
    KeepsTo A stream (assignName scope name value) (Value.Over A) := by
  refine Ensures.get.bind fun m _ => ?_
  cases m.scopes.resolve? name scope with
  | none => exact .fail trivial
  | some owner =>
    exact (declareName_over owner name valueOver).bind fun _ _ => .pure valueOver

/-- A new scope binds nothing yet. -/
theorem openScope_over (parent : ScopeRef) :
    KeepsTo A stream (openScope parent) (fun _ => True) := by
  refine .modifyGet fun m isOver => ⟨trivial, { isOver with bindings := ?_ }⟩
  intro ref name value bound
  by_cases isNew : ref = m.scopes.next
  · subst isNew
    simp at bound
  · rw [Scopes.own?_child_of_ne isNew] at bound
    exact isOver.bindings ref name value bound

theorem newArray_over {items : Array Value} (areOver : ∀ item ∈ items, item.Over A) :
    KeepsTo A stream (newArray items) (Value.Over A) := by
  refine .modifyGet fun m isOver => ⟨trivial, { isOver with heap := ?_ }⟩
  refine { isOver.heap with items := fun ref item member => ?_ }
  rw [Heap.items_push] at member
  split at member
  · exact areOver item member
  · exact isOver.heap.items ref item member

theorem changeItems_over (ref : ArrayRef) {f : Array Value → Array Value}
    (keeps : ∀ items, (∀ item ∈ items, item.Over A) → ∀ item ∈ f items, item.Over A) :
    KeepsTo A stream (changeItems ref f) (fun _ => True) := by
  refine .changing trivial fun m isOver => { isOver with heap := ?_ }
  refine { isOver.heap with items := fun other item member => ?_ }
  rw [Heap.items_modify] at member
  split at member
  · exact keeps _ (isOver.heap.items other) item member
  · exact isOver.heap.items other item member

theorem newClosure_over {closure : Closure} (name : closure.name.Over A)
    (body : ∀ node ∈ closure.body, Node.Over A node) :
    KeepsTo A stream (newClosure closure) (Value.Over A) := by
  refine .modifyGet fun m isOver => ⟨trivial, { isOver with heap := ?_, bodies := ?_ }⟩
  · refine { isOver.heap with names := fun other member => ?_ }
    rcases Array.mem_push.1 member with member | rfl
    · exact isOver.heap.names other member
    · exact name
  · intro other member
    rcases Array.mem_push.1 member with member | rfl
    · exact isOver.bodies other member
    · exact body

theorem newMethod_over (name : ArrayMethod) (ref : ArrayRef) :
    KeepsTo A stream (newMethod name ref) (Value.Over A) :=
  .modifyGet fun _ isOver => ⟨trivial, { isOver with }⟩

theorem note_over (settings : Settings) (level : Nat) (message : Heap → Text) :
    KeepsTo A stream (note settings level message) (fun _ => True) := by
  refine .ite (fun _ => ?_) fun _ => .pure trivial
  exact .changing trivial fun _ isOver => { isOver with }

/-- The one operation that halts because of a text. -/
theorem write_over (settings : Settings) {text : Text} (textOver : text.Over A) :
    KeepsTo A settings.stream (write settings text) (fun _ => True) := by
  unfold write
  split
  next cause refused => exact .fail ⟨text, textOver, refused⟩
  · exact .changing trivial fun _ isOver => { isOver with output := isOver.output.append textOver }

theorem drawNumber_over : KeepsTo A stream drawNumber (fun _ => True) :=
  .modifyGet fun _ isOver => ⟨trivial, { isOver with }⟩

theorem compute_over {f : Heap → Except Fault Value}
    (gives : ∀ heap : Heap, heap.Over A → Value.GivesOver A (f heap)) :
    KeepsTo A stream (compute f) (Value.Over A) := by
  refine .compute (fun m isOver value outcome => ?_) fun m isOver fault outcome => ?_
  · have given := gives m.heap isOver.heap
    rw [outcome] at given
    exact given
  · have given := gives m.heap isOver.heap
    rw [outcome] at given
    exact refusedOver_of_kind given

theorem computeNumber_over {f : Heap → Except Fault Float}
    (faults : ∀ heap fault, f heap = .error fault → fault.kind ≠ .encoding) :
    KeepsTo A stream (compute f) (fun _ => True) :=
  .compute (fun _ _ _ _ => trivial) fun m _ fault failed =>
    refusedOver_of_kind (faults m.heap fault failed)

theorem number_over (value : Value) :
    KeepsTo A stream (number value) (fun _ => True) := by
  refine computeNumber_over fun heap fault failed => ?_
  rw [Value.onlyRange_toNumber fault failed]
  simp [Fault.kind]

/-! ### Members and built-in functions -/

theorem readMember_over {target : Value} (targetOver : target.Over A) (key : Value) :
    KeepsTo A stream (readMember target key) (Value.Over A) := by
  refine Ensures.get.bind fun m isOver => ?_
  dsimp only
  split
  · exact .fail trivial
  next ref index =>
    apply Ensures.pure
    cases found : itemAt ((m.heap.items ref)[·]?) index with
    | none => trivial
    | some item =>
      obtain ⟨i, found⟩ := itemAt_eq_some found
      exact isOver.heap.items ref item (Array.mem_of_getElem? found)
  next s index =>
    apply Ensures.pure
    cases found : itemAt (s.letters[·]?) index with
    | none => trivial
    | some letter =>
      obtain ⟨i, found⟩ := itemAt_eq_some found
      exact Text.Over.ofLetter targetOver (List.mem_of_getElem? found)
  · refine .ite (fun _ => .pure trivial) fun _ => ?_
    split
    · exact newMethod_over _ _
    · exact .pure trivial
  · apply Ensures.pure
    split <;> trivial
  · apply Ensures.pure
    cases found : MathFunction.member? (key.toText m.heap) with
    | none => trivial
    | some value =>
      -- the namespace holds no texts
      rcases number_or_builtin_of_member? found with ⟨x, rfl⟩ | ⟨function, rfl⟩
      · trivial
      · trivial
  · exact .pure trivial

theorem callBuiltin_over (settings : Settings) (function : Builtin) {args : List Value}
    (areOver : ∀ arg ∈ args, arg.Over A) :
    KeepsTo A settings.stream (callBuiltin settings function args) (Value.Over A) := by
  unfold callBuiltin
  split
  · refine Ensures.get.bind fun m isOver => ?_
    have printed : ∀ text ∈ args.map (·.inspect m.heap), text.Over A :=
      List.forall_mem_map.2 fun arg member =>
        Value.over_inspectWithin isOver.heap _ _ _ (areOver arg member)
    -- what is printed is the texts of the arguments, and blanks and a line feed
    have line := (Text.over_intercalate (Text.over_string " ") printed).append
      (Text.over_string "\n")
    exact (write_over settings line).bind fun _ _ => .pure trivial
  · exact drawNumber_over.bind fun _ _ => .pure trivial
  · exact (Ensures.mapM fun arg _ => number_over arg).bind fun _ _ => .pure trivial

theorem over_separatorText {heap : Heap} (heapOver : heap.Over A) {separator : Option Value}
    (isOver : ∀ value ∈ separator, value.Over A) : (separatorText heap separator).Over A := by
  unfold separatorText
  split
  · exact Text.over_string _
  · exact Text.over_string _
  next value _ => exact Value.over_toText heapOver (isOver value rfl)

theorem callMethod_over (method : ArrayMethod) (ref : ArrayRef) {args : List Value}
    (areOver : ∀ arg ∈ args, arg.Over A) :
    KeepsTo A stream (callMethod method ref args) (Value.Over A) := by
  unfold callMethod
  split
  · refine (changeItems_over ref fun items itemsOver => ?_).bind fun _ _ => ?_
    · intro item member
      rcases @ItemChange.mem_apply (.push args) items item member with member | member
      · exact itemsOver item member
      · exact areOver item member
    · exact Ensures.get.bind fun _ _ => .pure trivial
  · refine Ensures.get.bind fun m isOver => ?_
    cases found : (m.heap.items ref).back? with
    | none => exact .pure trivial
    | some last =>
      refine (changeItems_over ref fun items itemsOver => ?_).bind fun _ _ => ?_
      · intro item member
        rcases @ItemChange.mem_apply .pop items item member with member | member
        · exact itemsOver item member
        · cases member
      · exact .pure (isOver.heap.items ref last (Array.mem_of_back? found))
  · refine Ensures.get.bind fun m isOver => .pure ?_
    -- the separator is the text of an argument, or a comma
    have between := over_separatorText isOver.heap
      fun value first => areOver value (List.mem_of_mem_head? first)
    exact Value.over_joinText isOver.heap between ref
  · refine Ensures.get.bind fun m _ => .pure ?_
    unfold indexOfItem
    split <;> trivial

theorem callNative_over (settings : Settings) (name : String) (arity? : Option Nat)
    (args : List Value) {body : Run Value} (bodies : KeepsTo A stream body (Value.Over A)) :
    KeepsTo A stream (callNative settings name arity? args body) (Value.Over A) := by
  have noted := (note_over settings 3 fun _ => "call native " ++ name).bind fun _ _ => bodies
  unfold callNative
  split
  · refine .ite (fun _ => ?_) fun _ => noted
    refine Ensures.bind (Q := fun _ => True) ?_ fun _ _ => noted
    exact .fail trivial
  · exact noted

/-! ### Evaluation -/

def SignalOver (A : Alphabet) : Signal → Prop
  | .returning value => value.Over A
  | _ => True

/-- As far as evaluation goes, trees and values over the alphabet give such values. -/
structure StaysOver (A : Alphabet) (settings : Settings) (depth : Nat) : Prop where
  evaluate : ∀ scope expr, Node.Over A expr →
    KeepsTo A settings.stream (evaluate settings depth scope expr) (Value.Over A)
  execute : ∀ scope s, Node.Over A s →
    KeepsTo A settings.stream (execute settings depth scope s) (SignalOver A)
  call : ∀ function args description, (∀ arg ∈ args, arg.Over A) →
    KeepsTo A settings.stream (call settings depth function args description) (Value.Over A)

section

variable {settings : Settings} {depth : Nat} (inner : StaysOver A settings depth)
include inner

theorem evaluate_over (scope : ScopeRef) {expr : Node} (isOver : Node.Over A expr) :
    KeepsTo A settings.stream (evaluate settings (depth + 1) scope expr) (Value.Over A) := by
  have eval {part : Node} (member : part ∈ expr.parts) :=
    inner.evaluate scope part (isOver.part member)
  cases expr <;> simp only [Run.evaluate]
  case number value =>
    -- the only literal that fails is an integer that is too large
    refine (computeNumber_over fun _ fault failed => ?_).bind fun _ _ => .pure trivial
    cases value with
    | double x => cases failed
    | int n =>
      rw [literal] at failed
      split at failed
      · cases failed
      · cases failed
        simp [Fault.kind]
  case text s => exact .pure (isOver _ .whole)
  case identifier name => exact readName_over scope name
  case binary op left right =>
    refine (eval (by simp [Tree.parts])).bind fun a first => ?_
    refine (eval (by simp [Tree.parts])).bind fun b second => ?_
    exact compute_over fun heap heapOver => Value.givesOver_binary heapOver op first second
  case logical op left right =>
    have second : KeepsTo A settings.stream (evaluate settings depth scope right) (Value.Over A) :=
      eval (by simp [Tree.parts])
    refine (eval (by simp [Tree.parts])).bind fun a first => ?_
    split
    · exact .ite (fun _ => second) fun _ => .pure first
    · exact .ite (fun _ => .pure first) fun _ => second
    · exact .fail trivial
  case unary op operand =>
    refine (eval (by simp [Tree.parts])).bind fun a _ => ?_
    exact compute_over fun heap _ => Value.givesOver_unary op a
  case assignment target value =>
    exact (eval (by simp [Tree.parts])).bind fun a valueOver =>
      assignName_over scope target valueOver
  case update op target =>
    refine (readName_over scope target).bind fun old _ => (number_over old).bind fun x _ => ?_
    refine Ensures.bind (Q := fun _ => True) ?_ fun y _ => assignName_over scope target trivial
    refine computeNumber_over fun _ fault failed => ?_
    unfold updated at failed
    split at failed
    · cases failed
    · cases failed
    · cases failed
      simp [Fault.kind]
  case call callee args =>
    refine (eval (by simp [Tree.parts])).bind fun function _ => ?_
    refine (Ensures.mapM fun arg member => eval (by simp [Tree.parts, member])).bind
      fun values areOver => ?_
    exact inner.call function values _ areOver
  case property object name =>
    exact (eval (by simp [Tree.parts])).bind fun target targetOver =>
      readMember_over targetOver _
  case index object key =>
    refine (eval (by simp [Tree.parts])).bind fun target targetOver => ?_
    exact (eval (by simp [Tree.parts])).bind fun key _ => readMember_over targetOver key
  case array elements =>
    refine (Ensures.mapM fun item member => eval (by simpa [Tree.parts] using member)).bind
      fun items areOver => ?_
    exact newArray_over (by simpa using areOver)
  all_goals exact .fail trivial

theorem inBlock_over (scope : ScopeRef) {body : List Node} (areOver : ∀ s ∈ body, Node.Over A s) :
    KeepsTo A settings.stream (inBlock (execute settings depth) scope body) (SignalOver A) :=
  .inBlock trivial (openScope_over scope) fun inside _ s member =>
    inner.execute inside s (areOver s member)

/-- An expression that may be left out, followed by something that always gives a value. -/
theorem optional_over (scope : ScopeRef) {α : Type} {expr : Option Node}
    (isOver : ∀ e ∈ expr, Node.Over A e) (f : Value → α) (a : α) :
    KeepsTo A settings.stream (match expr with
        | some expr => return f (← evaluate settings depth scope expr)
        | none => return a) (fun _ => True) := by
  split
  next e => exact (inner.evaluate scope e (isOver e rfl)).bind fun _ _ => .pure trivial
  · exact .pure trivial

omit inner in
theorem loop_over (settings : Settings) {test : Run Bool} {body : Run Signal} {update : Run Unit}
    (tests : KeepsTo A settings.stream test (fun _ => True))
    (bodies : KeepsTo A settings.stream body (SignalOver A))
    (updates : KeepsTo A settings.stream update (fun _ => True)) :
    KeepsTo A settings.stream (loop settings test body update) (SignalOver A) := by
  -- what one round keeps to, all of them do
  refine .rounds settings.patience trivial ?_
  refine tests.bind fun holds _ => .ite (fun _ => ?_) fun _ => .pure (by simp [SignalOver])
  refine bodies.bind fun signal signalOver => ?_
  cases signal with
  | breaking => exact .pure (by simp [SignalOver])
  | returning value => exact .pure (by simpa using signalOver)
  | normal | continuing => exact updates.bind fun _ _ => .pure (by simp)

theorem execute_over (scope : ScopeRef) {s : Node} (isOver : Node.Over A s) :
    KeepsTo A settings.stream (execute settings (depth + 1) scope s) (SignalOver A) := by
  have part {part : Node} (member : part ∈ s.parts) : Node.Over A part := isOver.part member
  cases s <;> simp only [Run.execute]
  case statement expr =>
    have value := inner.evaluate scope expr (part (by simp [Tree.parts]))
    exact value.bind fun _ _ => .pure trivial
  case declaration name init =>
    have declared {value : Value} (valueOver : value.Over A) : KeepsTo A settings.stream (do
        declareName scope name value
        note settings 2 fun heap => "declare " ++ name ++ " = " ++ value.toText heap
        return Signal.normal) (SignalOver A) := by
      refine (declareName_over scope name valueOver).bind fun _ _ => ?_
      exact (note_over settings _ _).bind fun _ _ => .pure trivial
    split
    next e =>
      have value := inner.evaluate scope e (part (by simp [Tree.parts]))
      exact value.bind fun _ valueOver => declared valueOver
    · exact @declared .undefined trivial
  case function name params body =>
    -- the body is stored with the function, and runs only when it is called
    have statements : ∀ node ∈ body, Node.Over A node := fun node member => part member
    have named : name.Over A := isOver _ .whole
    have made := @newClosure_over A settings.stream ⟨name, params, body, scope⟩ named statements
    refine made.bind fun value valueOver => ?_
    refine (declareName_over scope name valueOver).bind fun _ _ => ?_
    exact (note_over settings _ _).bind fun _ _ => .pure trivial
  case block body => exact inBlock_over inner scope fun s member => part member
  case conditional test consequent alternate =>
    refine (inner.evaluate scope test (part (by simp [Tree.parts]))).bind fun value _ => ?_
    refine (note_over settings _ _).bind fun _ _ => .ite (fun _ => ?_) fun _ => ?_
    · exact inBlock_over inner scope fun s member => part (by simp [Tree.parts, member])
    · cases alternate with
      | some node => exact inner.execute scope node (part (by simp [Tree.parts]))
      | none => exact .pure trivial
  case whileLoop test body =>
    refine loop_over settings ?_ (inBlock_over inner scope fun s member => ?_) (.pure trivial)
    · have value := inner.evaluate scope test (part (by simp [Tree.parts]))
      exact value.bind fun _ _ => .pure trivial
    · exact part (by simp [Tree.parts, member])
  case forLoop init test update body =>
    refine (openScope_over scope).bind fun inside _ => ?_
    have tests : ∀ e ∈ test, Node.Over A e := fun e member =>
      part (by simp [Tree.parts, Option.mem_def.1 member])
    have updates : ∀ e ∈ update, Node.Over A e := fun e member =>
      part (by simp [Tree.parts, Option.mem_def.1 member])
    have statements : ∀ s ∈ body, Node.Over A s := fun s member =>
      part (by simp [Tree.parts, member])
    -- the rounds are the same, whatever the loop begins with
    have rounds : KeepsTo A settings.stream _ (SignalOver A) :=
      loop_over settings (optional_over inner inside tests Value.isTruthy true)
        (inBlock_over inner inside statements)
        (optional_over inner inside updates (fun _ => ()) ())
    split
    · exact rounds
    · refine Ensures.bind (Q := SignalOver A) ?_ fun _ _ => rounds
      exact inner.execute inside _ (part (by simp [Tree.parts]))
    · refine Ensures.bind (Q := Value.Over A) ?_ fun _ _ => rounds
      exact inner.evaluate inside _ (part (by simp [Tree.parts]))
  case returning argument =>
    split
    next e =>
      have value := inner.evaluate scope e (part (by simp [Tree.parts]))
      exact value.bind fun _ valueOver => .pure valueOver
    · exact .pure trivial
  case breakJump | continueJump => exact .pure trivial
  all_goals exact .fail trivial

theorem call_over (function : Value) {args : List Value} (description : Text)
    (areOver : ∀ arg ∈ args, arg.Over A) :
    KeepsTo A settings.stream (call settings (depth + 1) function args description)
      (Value.Over A) := by
  cases function <;> simp only [Run.call]
  case builtin function =>
    exact callNative_over settings _ _ args (callBuiltin_over settings function areOver)
  case method stamp method receiver =>
    exact callNative_over settings _ _ args (callMethod_over method receiver areOver)
  case closure ref =>
    refine Ensures.get.bind fun m isOver => ?_
    split
    · exact .fail trivial
    next closure found =>
      -- nothing is known of the body but what the machine has stored
      have statements := isOver.bodies closure (Array.mem_of_getElem? found)
      refine .ite (fun _ => .fail trivial) fun _ => ?_
      refine (note_over settings _ _).bind fun _ _ => ?_
      refine (openScope_over closure.scope).bind fun inside _ => ?_
      refine (Ensures.forM fun binding member => ?_).bind fun _ _ => ?_
      · exact declareName_over inside _ (areOver _ (List.of_mem_zip member).2)
      refine Ensures.bind (Q := SignalOver A) ?_ fun signal signalOver => ?_
      · exact .inOrder trivial fun s member => inner.execute inside s (statements s member)
      · cases signal with
        | normal => exact .pure trivial
        | returning value => exact .pure signalOver
        | breaking | continuing => exact .fail trivial
  all_goals exact .fail trivial

end

theorem staysOver (A : Alphabet) (settings : Settings) (depth : Nat) :
    StaysOver A settings depth := by
  induction depth with
  | zero =>
    refine ⟨fun scope expr _ => ?_, fun scope s _ => ?_, fun function args description _ => ?_⟩
    · rw [evaluate]
      exact .fail trivial
    · rw [execute]
      exact .fail trivial
    · rw [call]
      exact .fail trivial
  | succ depth ih =>
    exact ⟨fun scope _ => evaluate_over ih scope, fun scope _ => execute_over ih scope,
      fun function _ description => call_over ih function description⟩

/-- A program over an alphabet prints texts over it only. -/
theorem program_over (settings : Settings) (limit : Nat) (scope : ScopeRef) {body : List Node}
    (areOver : ∀ s ∈ body, Node.Over A s) :
    KeepsTo A settings.stream (program settings limit scope body) (Value.Over A) := by
  refine (note_over settings _ _).bind fun _ _ => ?_
  refine Ensures.bind (Q := SignalOver A) ?_ fun signal signalOver => ?_
  · exact .inOrder trivial fun s member =>
      (staysOver A settings limit).execute scope s (areOver s member)
  · cases signal with
    | normal => exact (note_over settings _ _).bind fun _ _ => .pure trivial
    | returning value => exact (note_over settings _ _).bind fun _ _ => .pure signalOver
    | breaking | continuing => exact .fail trivial

theorem over_start (draws : Nat → Float) : (Machine.start Machine.builtins draws).Over A where
  bindings ref name value bound := by
    have builtins : ∀ binding ∈ Machine.builtins, binding.2.Over A := by
      simp [Machine.builtins, Value.Over]
    exact builtins _ (Scopes.mem_of_own?_single bound)
  heap := ⟨by simp [Machine.start, Heap.empty, Heap.items], by simp [Machine.start, Heap.empty]⟩
  bodies := by simp [Machine.start, Heap.empty]
  output := Text.over_string ""

/-- A new run that halts because of what it printed had a text refused. If the stream takes all
characters, there is a half of one in the program. -/
theorem refused_of_unencodable {settings : Settings} {limit : Nat} {draws : Nat → Float}
    {body : List Node} {cause : Text.Unencodable} {m : Machine}
    (halted : program settings limit Machine.globalScope body
      (Machine.start Machine.builtins draws) = .error (.fault (.unencodable cause)) m) :
    (∃ text, settings.stream.refusal? text = some cause) ∧
      (settings.stream.TakesStrings → ¬ Node.Over .characters (.program body)) := by
  -- for every alphabet; below, for that of all letters and for that of the characters
  have refused {A : Alphabet} (areOver : ∀ s ∈ body, Node.Over A s) :
      ∃ text : Text, text.Over A ∧ settings.stream.refusal? text = some cause := by
    have ended := program_over settings limit Machine.globalScope areOver _ (over_start draws)
    rw [halted] at ended
    exact ended.1
  constructor
  · obtain ⟨text, -, isRefused⟩ := refused fun s _ => Node.over_everything s
    exact ⟨text, isRefused⟩
  · intro takes isOver
    obtain ⟨text, textOver, isRefused⟩ := refused fun s member => Node.Over.part isOver member
    obtain ⟨s, rfl⟩ := (Text.isWhole_iff_over.2 textOver).exists_string
    rw [takes s] at isRefused
    cases isRefused

end Run

end YapLang
