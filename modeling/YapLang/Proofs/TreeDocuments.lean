import YapLang.Proofs.TreeParts
import YapLang.Tree.Document

/-!
# Trees and their documents

The document of a tree is read back as that tree, whatever the tree is: it need not be one that
source text can have. The fields of a form are read and written one by one, each by its kind, so
what is to be shown is shown for each kind of field and carried over to forms along the table of
their fields.
-/
namespace YapLang

open YapLang.Tree (document optionalDocument blockDocument formDocument identifierDocument Form)

/-! ### Kinds of fields -/

namespace Kind

/-- What is written in a field of a kind. -/
def write : (kind : Kind) → kind.Part → Document
  | text => .text
  | number => Tree.numberDocument
  | truth => .bool
  | texts => fun texts => .list (texts.map .text)
  | nodes => fun trees => .list (Tree.documents .text trees)
  | block => blockDocument .text
  | identifier => identifierDocument
  | node => document .text
  | optional => optionalDocument .text

/-- The fields in which parts are written. -/
def writeParts : (declared : List (String × Kind)) → Parts declared → List (Text × Document)
  | [], _ => []
  | (name, kind) :: rest, (part, others) => (name, kind.write part) :: writeParts rest others

/-- What a part of a kind is read from. -/
def value : (kind : Kind) → kind.Part → Loaded
  | text, s => .text s
  | number, .int n => .int n
  | number, .double x => .double x
  | truth, b => .bool b
  | texts, names => .list (names.map .text)
  | nodes, trees => .list (trees.map .node)
  | block, body => .node (.block body)
  | identifier, name => .node (.identifier name)
  | node, tree => .node tree
  | optional, none => .null
  | optional, some tree => .node tree

theorem mapM_eq_some_iff {α : Type} {kind? : Loaded → Option α} {value : α → Loaded}
    (only : ∀ {item a}, kind? item = some a ↔ item = value a) {items : List Loaded} {as : List α} :
    items.mapM kind? = some as ↔ items = as.map value := by
  induction items generalizing as with
  | nil => cases as <;> simp
  | cons item items ih =>
    rw [List.mapM_cons]
    cases as with
    | nil => simp [Option.bind_eq_some_iff]
    | cons a as =>
      rw [List.map_cons, List.cons.injEq, ← only, ← ih]
      simp [Option.bind_eq_some_iff]

/-- Each part is read from one value, and from no other one. -/
theorem part?_eq_some_iff {kind : Kind} {loaded : Loaded} {part : kind.Part} :
    kind.part? loaded = some part ↔ loaded = kind.value part := by
  have isText {item : Loaded} {s : Text} : item.text? = some s ↔ item = .text s := by
    cases item <;> simp [Loaded.text?]
  have isNode {item : Loaded} {tree : Node} : item.node? = some tree ↔ item = .node tree := by
    cases item <;> simp [Loaded.node?]
  cases kind with
  | text => exact isText
  | node => exact isNode
  | truth => cases loaded <;> simp [part?, Loaded.bool?, value]
  | number => cases loaded <;> cases part <;> simp [part?, Loaded.number?, value]
  | optional => cases loaded <;> cases part <;> simp [part?, Loaded.optional?, value]
  | texts =>
    cases loaded with
    | list items => simp [part?, Loaded.texts?, value, mapM_eq_some_iff isText]
    | _ => simp [part?, Loaded.texts?, value]
  | nodes =>
    cases loaded with
    | list items => simp [part?, Loaded.nodes?, value, mapM_eq_some_iff isNode]
    | _ => simp [part?, Loaded.nodes?, value]
  | block =>
    cases loaded with
    | node tree => cases tree <;> simp [part?, Loaded.block?, value]
    | _ => simp [part?, Loaded.block?, value]
  | identifier =>
    cases loaded with
    | node tree => cases tree <;> simp [part?, Loaded.identifier?, value]
    | _ => simp [part?, Loaded.identifier?, value]

end Kind

/-! ### Forms -/

/-- The parts of a tree, as its form declares them. -/
def Node.declaredParts : (tree : Node) → Kind.Parts tree.form.declared
  | .program body | .block body => (body, ())
  | .function name params body => (name, params, body, ())
  | .declaration name init => (name, init, ())
  | .conditional test consequent alternate => (test, consequent, alternate, ())
  | .forLoop init test update body => (init, test, update, body, ())
  | .whileLoop test body => (test, body, ())
  | .breakJump | .continueJump => ()
  | .returning argument => (argument, ())
  | .statement expr => (expr, ())
  | .number value => (value, ())
  | .text value => (value, ())
  | .identifier name => (name, ())
  | .binary op left right | .logical op left right => (op, left, right, ())
  | .unary op operand => (op, operand, ())
  | .assignment target value => (target, value, ())
  | .update op target => (op, target, ())
  | .call callee args => (callee, args, ())
  | .property object name => (object, .identifier name, false, ())
  | .index object key => (object, key, true, ())
  | .array elements => (elements, ())

namespace Tree.Form

theorem ofName?_name (form : Form) : ofName? form.name = some form := by
  cases form <;> rfl

theorem name_eq_of_ofName? {name : String} {form : Form} (named : ofName? name = some form) :
    form.name = name := by
  simpa using List.find?_some named

theorem build_declaredParts (tree : Node) : tree.form.build tree.declaredParts = .ok tree := by
  cases tree <;> rfl

/-- A tree is built of its own parts only: nothing tells them from those that it was built of. -/
theorem eq_of_build {α : Type} (f : (form : Form) → Kind.Parts form.declared → α) {form : Form}
    {parts : Kind.Parts form.declared} {tree : Node} (built : form.build parts = .ok tree) :
    f tree.form tree.declaredParts = f form parts := by
  cases form
  case member =>
    obtain ⟨object, key, computed, ⟨⟩⟩ := parts
    cases computed with
    | true =>
      cases built
      rfl
    | false =>
      -- only a name stands after a dot
      cases key <;> cases built
      rfl
  all_goals
    cases built
    rfl

/-- A tree is written as an object of its form with just its parts. -/
theorem document_eq (tree : Node) :
    document .text tree =
      formDocument tree.form (Kind.writeParts tree.form.declared tree.declaredParts) := by
  cases tree
  case property object name =>
    -- the name after the dot is a part too, and is written as the identifier that it is
    have named : document .text (.identifier name) = identifierDocument name := by rw [document]
    rw [document, ← named]
    rfl
  all_goals
    rw [document]
    rfl

end Tree.Form

namespace Loaded

/-! ### Lists of documents -/

theorem documents_eq_map (trees : List Node) :
    Tree.documents .text trees = trees.map (document .text) := by
  induction trees with
  | nil => rw [Tree.documents, List.map_nil]
  | cons tree trees ih => rw [Tree.documents, ih, List.map_cons]

/-- An item that is read as a value makes a list that is read as the list of the values. -/
theorem ofItems_map {α : Type} {write : α → Document} {value : α → Loaded} {as : List α}
    (each : ∀ a ∈ as, ofDocument (write a) = .ok (value a)) :
    ofItems (as.map write) = .ok (as.map value) := by
  induction as with
  | nil => rw [List.map_nil, ofItems, List.map_nil]
  | cons a as ih =>
    obtain ⟨first, others⟩ := List.forall_mem_cons.1 each
    rw [List.map_cons, ofItems, first, ih others]
    rfl

end Loaded

namespace Kind

open Loaded (ofDocument ofItems)

/-! ### Fields that are read back -/

/-- What is written for the part is read as that part. -/
def ReadsBack (kind : Kind) (part : kind.Part) : Prop :=
  ofDocument (kind.write part) = .ok (kind.value part)

theorem readsBack_text (s : Text) : text.ReadsBack s := by
  rw [ReadsBack, write, ofDocument, value]

theorem readsBack_truth (b : Bool) : truth.ReadsBack b := by
  rw [ReadsBack, write, ofDocument, value]

theorem readsBack_number (number : LiteralValue) : Kind.number.ReadsBack number := by
  cases number <;> rw [ReadsBack, write, Tree.numberDocument, ofDocument, value]

theorem readsBack_texts (texts : List Text) : Kind.texts.ReadsBack texts := by
  rw [ReadsBack, write, ofDocument, Loaded.ofItems_map fun s _ => by rw [ofDocument]]
  rfl

theorem readsBack_identifier (name : Text) : identifier.ReadsBack name := rfl

theorem readsBack_optional {tree : Option Node}
    (read : ∀ part ∈ tree.toList, ofDocument (document .text part) = .ok (.node part)) :
    optional.ReadsBack tree := by
  cases tree with
  | none => rw [ReadsBack, write, optionalDocument, ofDocument, value]
  | some tree =>
    rw [ReadsBack, write, optionalDocument]
    exact read tree (by simp)

theorem readsBack_nodes {trees : List Node}
    (read : ∀ part ∈ trees, ofDocument (document .text part) = .ok (.node part)) :
    nodes.ReadsBack trees := by
  simp only [ReadsBack, write]
  rw [Loaded.documents_eq_map, ofDocument, Loaded.ofItems_map read]
  rfl

/-- All parts are read back. -/
def PartsReadBack : (declared : List (String × Kind)) → Parts declared → Prop
  | [], _ => True
  | (_, kind) :: rest, (part, others) => kind.ReadsBack part ∧ PartsReadBack rest others

end Kind

namespace Loaded

open Kind

theorem require_ofFields_cons {form name : String} {kind : Kind} {part : kind.Part}
    (reads : kind.ReadsBack part) {before after : List (Text × Document)}
    (isNew : (name : Text) ∉ before.map Prod.fst) :
    require form (ofFields (before ++ (↑name, kind.write part) :: after)) name kind.part? =
      .ok part := by
  induction before with
  | nil =>
    have read : ofDocument (kind.write part) = .ok (kind.value part) := reads
    have fits : kind.part? (kind.value part) = some part := part?_eq_some_iff.2 rfl
    rw [List.nil_append, ofFields]
    simp [require, read, fits]
  | cons field before ih =>
    obtain ⟨key, d⟩ := field
    simp only [List.map_cons, List.mem_cons, not_or] at isNew
    -- fields of other names are passed over
    have differs : ((name : Text) == key) = false := beq_eq_false_iff_ne.2 isNew.1
    rw [List.cons_append, ofFields, require, List.lookup_cons, differs]
    exact ih isNew.2

/-- Fields with names of their own are read one after the other as what is written in them. -/
theorem parts_writeParts {form : String} {declared : List (String × Kind)}
    {ps : Kind.Parts declared} (reads : PartsReadBack declared ps)
    {before : List (Text × Document)}
    (distinct : (before.map Prod.fst ++ declared.map fun entry => (entry.1 : Text)).Nodup) :
    parts form (ofFields (before ++ writeParts declared ps)) declared = .ok ps := by
  induction declared generalizing before with
  | nil => rfl
  | cons entry rest ih =>
    obtain ⟨name, kind⟩ := entry
    obtain ⟨part, others⟩ := ps
    obtain ⟨first, reads⟩ := reads
    have isNew : (name : Text) ∉ before.map Prod.fst := by
      intro member
      rw [List.nodup_append] at distinct
      exact distinct.2.2 _ member _ (by simp) rfl
    -- the field that has been read stands before all others
    have further := @ih others reads (before ++ [((name : Text), kind.write part)])
      (by simpa using distinct)
    rw [List.append_assoc, List.singleton_append] at further
    rw [writeParts, parts, require_ofFields_cons first isNew, further]
    rfl

/-- An object is read as the tree that is built of what its fields hold. -/
theorem ofDocument_formDocument {form : Form} {ps : Kind.Parts form.declared} {tree : Node}
    (built : form.build ps = .ok tree) (reads : PartsReadBack form.declared ps) :
    ofDocument (formDocument form (writeParts form.declared ps)) = .ok (.node tree) := by
  -- no field is hidden by another one, or by the name of the form
  have distinct : (("type" : Text) :: form.declared.map fun entry => (entry.1 : Text)).Nodup := by
    cases form <;> decide
  have read : parts form.name
      (ofFields (("type", .text form.name) :: writeParts form.declared ps)) form.declared =
        .ok ps :=
    @parts_writeParts form.name _ ps reads [("type", .text form.name)] distinct
  have type : Document.field (("type", .text form.name) :: writeParts form.declared ps) "type" =
      .text form.name := rfl
  rw [formDocument, ofDocument, type]
  simp only [ofObject, form.ofName?_name, assemble, read]
  exact congrArg (Except.map Loaded.node) built

theorem ofDocument_identifier (name : Text) :
    ofDocument (document .text (.identifier name)) = .ok (.node (.identifier name)) := by
  rw [document]
  exact readsBack_identifier name

theorem readsBack_block {body : List Node}
    (read : ∀ part ∈ body, ofDocument (document .text part) = .ok (.node part)) :
    block.ReadsBack body := by
  rw [ReadsBack, write, blockDocument]
  exact @ofDocument_formDocument .block (body, ()) _ rfl ⟨readsBack_nodes read, trivial⟩

/-- The parts of a tree are read back if the trees among them are. -/
theorem partsReadBack_declaredParts {tree : Node}
    (ih : ∀ part ∈ tree.parts, ofDocument (document .text part) = .ok (.node part)) :
    PartsReadBack tree.form.declared tree.declaredParts := by
  cases tree
  all_goals simp only [Tree.parts, List.forall_mem_cons, List.forall_mem_append] at ih
  case program | block | array => exact ⟨readsBack_nodes ih, trivial⟩
  case function =>
    exact ⟨readsBack_text _, readsBack_texts _, readsBack_block ih, trivial⟩
  case declaration => exact ⟨readsBack_text _, readsBack_optional ih, trivial⟩
  case conditional =>
    exact ⟨ih.1, readsBack_block ih.2.1, readsBack_optional ih.2.2, trivial⟩
  case forLoop =>
    exact ⟨readsBack_optional ih.1.1.1, readsBack_optional ih.1.1.2, readsBack_optional ih.1.2,
      readsBack_block ih.2, trivial⟩
  case whileLoop => exact ⟨ih.1, readsBack_block ih.2, trivial⟩
  case breakJump | continueJump => trivial
  case returning => exact ⟨readsBack_optional ih, trivial⟩
  case statement => exact ⟨ih.1, trivial⟩
  case number => exact ⟨readsBack_number _, trivial⟩
  case text | identifier => exact ⟨readsBack_text _, trivial⟩
  case binary | logical => exact ⟨readsBack_text _, ih.1, ih.2.1, trivial⟩
  case unary => exact ⟨readsBack_text _, ih.1, trivial⟩
  case assignment => exact ⟨readsBack_identifier _, ih.1, trivial⟩
  case update => exact ⟨readsBack_text _, readsBack_identifier _, trivial⟩
  case call => exact ⟨ih.1, readsBack_nodes ih.2, trivial⟩
  case property => exact ⟨ih.1, ofDocument_identifier _, readsBack_truth _, trivial⟩
  case index => exact ⟨ih.1, ih.2.1, readsBack_truth _, trivial⟩

/-- Every tree is read from its document. -/
theorem ofDocument_document (tree : Node) :
    ofDocument (document .text tree) = .ok (.node tree) := by
  induction tree using Tree.parts_induction with
  | step tree ih =>
    rw [Form.document_eq]
    exact ofDocument_formDocument (Form.build_declaredParts tree) (partsReadBack_declaredParts ih)

end Loaded

end YapLang
