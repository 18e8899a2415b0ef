import Mathlib.Data.List.Forall2
import YapLang.Proofs.TrimmedDocuments

/-!
# The schema of documents

Which documents can be read is said here without reading them: a table names the forms, their fields
and what each field has to hold, and a document conforms if every object in it that is looked at
does. Reading goes through the same table. Each form is assembled from its fields in the order of
the table, so whether it can be assembled, and which fault is met first, depends on the fields one
by one; the one rule beyond the table is that the property after a dot is a name.
-/
namespace YapLang

open YapLang.Tree (Form)

namespace Document

/-- The form that an object names. -/
def form? : Document → Option Form
  | .object fields =>
    match field fields "type" with
    | .text (.whole name) => Form.ofName? name
    | _ => none
  | _ => none

def isObject : Document → Bool
  | .object _ => true
  | _ => false

def isText : Document → Bool
  | .text _ => true
  | _ => false

/-- Neither a list nor an object. -/
def isScalar : Document → Bool
  | .list _ | .object _ => false
  | _ => true

end Document

/-- Whether a document that can be read holds what a field is asked to hold. -/
def Kind.fits : Kind → Document → Bool
  | text, d => d.isText
  | number, .int _ | number, .double _ => true
  | truth, .bool _ => true
  | texts, .list items => items.all Document.isText
  | nodes, .list items => items.all Document.isObject
  | block, d => d.form? == some .block
  | identifier, d => d.form? == some .identifier
  | node, d => d.isObject
  | optional, .null => true
  | optional, d => d.isObject
  | _, _ => false

namespace Document

/-- The property after a dot is a name. -/
def DottedName (form : Form) (fields : List (Text × Document)) : Prop :=
  form = .member → field fields "computed" = .bool false →
    Kind.identifier.fits (field fields "property")

/-- The schema. What an object holds beyond the fields of its form may be anything. -/
inductive Conforms : Document → Prop where
  | scalar {d} : d.isScalar → Conforms d
  | list {items} : (∀ item ∈ items, Conforms item) → Conforms (.list items)
  | object {fields} {form : Form} :
      field fields "type" = .text form.name →
      (∀ entry ∈ form.declared, Conforms (field fields entry.1)) →
      (∀ entry ∈ form.declared, entry.2.fits (field fields entry.1)) →
      DottedName form fields → Conforms (.object fields)

/-- Two objects of one form that hold the same in the fields of the form. -/
inductive SameDeclared : Document → Document → Prop where
  | object {fields other} {form : Form} :
      field fields "type" = .text form.name → field other "type" = .text form.name →
      (∀ entry ∈ form.declared, field other entry.1 = field fields entry.1) →
      SameDeclared (.object fields) (.object other)

/-! ### Induction on documents -/

theorem sizeOf_field_lt (fields : List (Text × Document)) (key : Text) :
    sizeOf (field fields key) < sizeOf (Document.object fields) := by
  induction fields with
  | nil => simp [field]
  | cons entry rest ih =>
    obtain ⟨name, d⟩ := entry
    rw [field, List.lookup_cons]
    split
    · simp
      omega
    · rw [field] at ih
      simp at ih ⊢
      omega

/-- What holds of scalars, of a list if it holds of its items, and of an object if it holds of its
fields, holds of every document. An absent field is null. -/
theorem parts_induction {motive : Document → Prop} (scalar : ∀ d, d.isScalar → motive d)
    (list : ∀ items, (∀ item ∈ items, motive item) → motive (.list items))
    (object : ∀ fields, (∀ key, motive (field fields key)) → motive (.object fields))
    (d : Document) : motive d := by
  cases d with
  | list items =>
    apply list
    intro item member
    have smaller := List.sizeOf_lt_of_mem member
    exact parts_induction scalar list object item
  | object fields =>
    apply object
    intro key
    have smaller := sizeOf_field_lt fields key
    exact parts_induction scalar list object (field fields key)
  | null | bool | int | double | text => exact scalar _ rfl
termination_by sizeOf d
decreasing_by all_goals simp_all <;> omega

end Document

namespace Loaded

open Document (field Conforms DottedName)

/-! ### What is read, and what it is read from -/

theorem lookup_ofFields (fields : List (Text × Document)) (name : Text) :
    (ofFields fields).lookup name = (fields.lookup name).map fun d => (d, ofDocument d) := by
  induction fields with
  | nil => rw [ofFields, List.lookup_nil, List.lookup_nil, Option.map_none]
  | cons entry rest ih =>
    obtain ⟨key, d⟩ := entry
    rw [ofFields, List.lookup_cons, List.lookup_cons]
    split
    · rfl
    · exact ih

/-- A field is required by what it holds, or by null if it is absent. -/
theorem require_ofFields {α : Type} (form : String) (fields : List (Text × Document))
    (name : String) (kind? : Loaded → Option α) :
    require form (ofFields fields) name kind? =
      match ofDocument (field fields name) with
      | .error e => .error e
      | .ok value =>
        match kind? value with
        | some a => .ok a
        | none => .error (.badField name form (field fields name)) := by
  rw [require, lookup_ofFields, field]
  cases fields.lookup (name : Text) with
  | none =>
    -- nothing is there, and null is what is asked about
    cases fits : kind? .null <;> simp only [Option.map_none, Option.getD_none, ofDocument, fits]
  | some d => rfl

theorem form?_eq_some_iff {fields : List (Text × Document)} {form : Form} :
    (Document.object fields).form? = some form ↔ field fields "type" = .text form.name := by
  constructor
  · intro named
    rw [Document.form?] at named
    split at named
    next name type => rw [type, Form.name_eq_of_ofName? named]
    · cases named
  · intro type
    simp only [Document.form?, type, form.ofName?_name]

theorem form_unique {fields : List (Text × Document)} {form other : Form}
    (first : field fields "type" = .text form.name)
    (second : field fields "type" = .text other.name) :
    form = other := by
  rw [← form?_eq_some_iff] at first second
  simpa [first] using second

theorem form?_formDocument (form : Form) (fields : List (Text × Document)) :
    (Tree.formDocument form fields).form? = some form :=
  form?_eq_some_iff.2 rfl

theorem form?_document (tree : Node) : (tree.document .text).form? = some tree.form := by
  rw [Form.document_eq]
  exact form?_formDocument _ _

/-- An object is read as the tree that is assembled from its fields. -/
theorem ofDocument_object_eq_ok_iff {fields : List (Text × Document)} {loaded : Loaded} :
    ofDocument (.object fields) = .ok loaded ↔
      ∃ (form : Form) (tree : Node), field fields "type" = .text form.name ∧
        assemble form (ofFields fields) = .ok tree ∧ loaded = .node tree := by
  rw [ofDocument, map_eq_ok]
  simp only [ofObject_eq_ok]
  constructor
  · rintro ⟨tree, ⟨form, type, assembled⟩, rfl⟩
    exact ⟨form, tree, type, assembled, rfl⟩
  · rintro ⟨form, tree, type, assembled, rfl⟩
    exact ⟨tree, ⟨form, type, assembled⟩, rfl⟩

/-- An object is read as a tree of the form that it names. -/
theorem form?_of_ofDocument {d : Document} {tree : Node} (read : ofDocument d = .ok (.node tree)) :
    d.form? = some tree.form := by
  have written := toDocument_of_ofDocument d read
  rw [toDocument, Node.toDocument] at written
  have form := form?_document tree
  rw [written] at form
  -- trimming keeps what an object names, and makes no list or scalar an object
  cases d with
  | object fields =>
    obtain ⟨named, _, type, _⟩ := ofDocument_object_eq_ok_iff.1 read
    rw [Document.trimmed, type] at form
    simp only [Document.trimmedObject, named.ofName?_name] at form
    rw [form?_formDocument] at form
    rw [form?_eq_some_iff.2 type]
    exact form
  | _ => cases form

/-! ### Kinds of what is read -/

section

variable {α β : Type}

/-- What is read from a document is of the kind exactly if the document is. -/
def Decides (kind? : Loaded → Option α) (kind : Kind) : Prop :=
  ∀ ⦃d value⦄, ofDocument d = .ok value → (kind? value).isSome = kind.fits d

/-- One case for each kind of document. An object is read as a tree of its form. -/
theorem Decides.of_cases {kind? : Loaded → Option α} {kind : Kind}
    (null : (kind? .null).isSome = kind.fits .null)
    (bool : ∀ b, (kind? (.bool b)).isSome = kind.fits (.bool b))
    (int : ∀ n, (kind? (.int n)).isSome = kind.fits (.int n))
    (double : ∀ x, (kind? (.double x)).isSome = kind.fits (.double x))
    (text : ∀ s, (kind? (.text s)).isSome = kind.fits (.text s))
    (list : ∀ {items values}, ofItems items = .ok values →
      (kind? (.list values)).isSome = kind.fits (.list items))
    (object : ∀ {fields} {tree : Node}, (Document.object fields).form? = some tree.form →
      (kind? (.node tree)).isSome = kind.fits (.object fields)) : Decides kind? kind := by
  intro d value read
  cases d with
  | list items =>
    rw [ofDocument] at read
    obtain ⟨values, itemsRead, rfl⟩ := map_eq_ok.1 read
    exact list itemsRead
  | object fields =>
    obtain ⟨_, tree, -, -, rfl⟩ := ofDocument_object_eq_ok_iff.1 read
    exact object (form?_of_ofDocument read)
  | null | bool | int | double | text =>
    rw [ofDocument] at read
    cases read
    first | exact null | exact bool _ | exact int _ | exact double _ | exact text _

theorem text_decides : Decides text? .text :=
  .of_cases rfl (fun _ => rfl) (fun _ => rfl) (fun _ => rfl) (fun _ => rfl) (fun _ => rfl)
    (fun _ => rfl)

theorem node_decides : Decides node? .node :=
  .of_cases rfl (fun _ => rfl) (fun _ => rfl) (fun _ => rfl) (fun _ => rfl) (fun _ => rfl)
    (fun _ => rfl)

/-- Items are read one by one. -/
theorem forall₂_of_ofItems {items : List Document} {values : List Loaded}
    (read : ofItems items = .ok values) :
    List.Forall₂ (fun d value => ofDocument d = .ok value) items values := by
  induction items generalizing values with
  | nil =>
    rw [ofItems] at read
    cases read
    exact .nil
  | cons d rest ih =>
    rw [ofItems] at read
    obtain ⟨first, firstRead, read⟩ := bind_eq_ok.1 read
    obtain ⟨others, othersRead, same⟩ := bind_eq_ok.1 read
    cases same
    exact .cons firstRead (ih othersRead)

/-- All items are of a kind exactly if all of what they are read as is. -/
theorem Decides.mapM {kind? : Loaded → Option α} {kind : Kind} (decides : Decides kind? kind)
    {items : List Document} {values : List Loaded} (read : ofItems items = .ok values) :
    (values.mapM kind?).isSome = items.all kind.fits := by
  have each := forall₂_of_ofItems read
  clear read
  induction each with
  | nil => rfl
  | @cons d first rest others firstRead _ ih =>
    rw [List.mapM_cons, List.all_cons, ← decides firstRead, ← ih]
    cases kind? first with
    | none => rfl
    | some a => cases others.mapM kind? <;> rfl

theorem part?_decides (kind : Kind) : Decides kind.part? kind := by
  cases kind with
  | text => exact text_decides
  | node => exact node_decides
  | number | truth | optional =>
    exact .of_cases rfl (fun _ => rfl) (fun _ => rfl) (fun _ => rfl) (fun _ => rfl) (fun _ => rfl)
      (fun _ => rfl)
  | texts =>
    exact .of_cases rfl (fun _ => rfl) (fun _ => rfl) (fun _ => rfl) (fun _ => rfl)
      (fun read => text_decides.mapM read) (fun _ => rfl)
  | nodes =>
    exact .of_cases rfl (fun _ => rfl) (fun _ => rfl) (fun _ => rfl) (fun _ => rfl)
      (fun read => node_decides.mapM read) (fun _ => rfl)
  | block | identifier =>
    -- of the objects, those that are read as a tree of the form
    apply Decides.of_cases rfl (fun _ => rfl) (fun _ => rfl) (fun _ => rfl) (fun _ => rfl)
      (fun _ => rfl)
    intro fields tree form
    rw [Kind.fits, form]
    cases tree <;> rfl

/-! ### Assembling, field by field -/

/-- Whether a field can be read and holds what it is asked to hold; if not, why. -/
def checkField (form : String) (fields : List (Text × Document)) (name : String) (kind : Kind) :
    Except LoadError Unit :=
  match ofDocument (field fields name) with
  | .error e => .error e
  | .ok _ =>
    if kind.fits (field fields name) then .ok ()
    else .error (.badField name form (field fields name))

/-- Whether the property after a dot is a name. -/
def checkDot (form : Form) (fields : List (Text × Document)) : Except LoadError Unit :=
  match form, field fields "computed" with
  | .member, .bool false =>
    if Kind.identifier.fits (field fields "property") then .ok () else .error .unnamedProperty
  | _, _ => .ok ()

/-- Checks one after the other, and at last something else. The first fault decides. -/
def checkAll (check : α → Except LoadError Unit) (last : Except LoadError Unit) :
    List α → Except LoadError Unit
  | [] => last
  | a :: rest => do
    check a
    checkAll check last rest

/-- Checks the fields of a form in order, and then the property after a dot. -/
def checkFields (form : Form) (fields : List (Text × Document)) : Except LoadError Unit :=
  checkAll (fun entry => checkField form.name fields entry.1 entry.2) (checkDot form fields)
    form.declared

/-- Success or failure, without what was read. -/
def verdict (x : Except LoadError α) : Except LoadError Unit :=
  x.map fun _ => ()

variable {form name : String} {fields : List (Text × Document)}

/-- To go on after a success. -/
theorem verdict_bind {x : Except LoadError α} {next : α → Except LoadError β}
    {rest : Except LoadError Unit} (follows : ∀ a, x = .ok a → verdict (next a) = rest) :
    verdict (x >>= next) = (do verdict x; rest) := by
  cases x with
  | error e => rfl
  | ok a => exact follows a rfl

/-- To require a field is to check it. -/
theorem verdict_require {kind? : Loaded → Option α} {kind : Kind} (decides : Decides kind? kind) :
    verdict (require form (ofFields fields) name kind?) = checkField form fields name kind := by
  rw [require_ofFields, checkField]
  cases read : ofDocument (field fields name) with
  | error e => rfl
  | ok value =>
    simp only [← decides read]
    cases kind? value <;> rfl

/-- To read fields is to check them. -/
theorem verdict_parts (declared : List (String × Kind)) :
    verdict (parts form (ofFields fields) declared) =
      checkAll (fun entry => checkField form fields entry.1 entry.2) (.ok ()) declared := by
  induction declared with
  | nil => rfl
  | cons entry rest ih =>
    obtain ⟨name, kind⟩ := entry
    have others (part : kind.Part) :
        verdict (do let others ← parts form (ofFields fields) rest; return (part, others)) =
          verdict (parts form (ofFields fields) rest) := by
      cases parts form (ofFields fields) rest <;> rfl
    calc verdict (parts form (ofFields fields) ((name, kind) :: rest))
        = (do verdict (require form (ofFields fields) name kind.part?)
              verdict (parts form (ofFields fields) rest)) :=
          verdict_bind fun part _ => others part
      _ = _ := by rw [verdict_require (part?_decides kind), ih, checkAll]

/-- A field that was required and found was read, and is of its kind. -/
theorem require_eq_ok_iff {kind? : Loaded → Option α} {a : α} :
    require form (ofFields fields) name kind? = .ok a ↔
      ∃ value, ofDocument (field fields name) = .ok value ∧ kind? value = some a := by
  rw [require_ofFields]
  constructor
  · intro required
    split at required
    · cases required
    · rename_i value read
      refine ⟨value, read, ?_⟩
      split at required
      · rename_i fits
        cases required
        exact fits
      · cases required
  · rintro ⟨value, read, fits⟩
    simp only [read, fits]

/-- What is neither a list nor a node was read from the document that it is written as. -/
theorem eq_toDocument_of_isScalar {d : Document} {loaded : Loaded}
    (read : ofDocument d = .ok loaded) (isScalar : loaded.toDocument.isScalar) :
    d = loaded.toDocument := by
  cases d with
  | list items =>
    rw [ofDocument] at read
    obtain ⟨values, -, rfl⟩ := map_eq_ok.1 read
    rw [toDocument] at isScalar
    cases isScalar
  | object fields =>
    obtain ⟨_, tree, -, -, rfl⟩ := ofDocument_object_eq_ok_iff.1 read
    have form := form?_document tree
    rw [toDocument, Node.toDocument] at isScalar
    -- only an object names a form
    cases written : tree.document .text <;> rw [written] at form isScalar
    case list | object => cases isScalar
    all_goals cases form
  | null | bool | int | double | text =>
    rw [ofDocument] at read
    cases read
    rw [toDocument]

theorem eq_bool_of_ofDocument {d : Document} {b : Bool} (read : ofDocument d = .ok (.bool b)) :
    d = .bool b := by
  have same := eq_toDocument_of_isScalar read (by rw [toDocument]; rfl)
  rwa [toDocument] at same

/-- What is left to check of a member is the property after a dot, and of other forms nothing. -/
theorem verdict_build {form : Form} {ps : Kind.Parts form.declared}
    (read : parts form.name (ofFields fields) form.declared = .ok ps) :
    verdict (form.build ps) = checkDot form fields := by
  cases form
  case member =>
    obtain ⟨object, key, computed, ⟨⟩⟩ := ps
    -- the last two of its three fields decide
    obtain ⟨-, read⟩ := parts_cons_eq_ok.1 read
    obtain ⟨keyRead, read⟩ := parts_cons_eq_ok.1 read
    obtain ⟨computedRead, -⟩ := parts_cons_eq_ok.1 read
    obtain ⟨keyValue, keyRead, isNode⟩ := require_eq_ok_iff.1 keyRead
    obtain ⟨value, computedRead, isBool⟩ := require_eq_ok_iff.1 computedRead
    rw [Kind.part?_eq_some_iff.1 isNode, Kind.value] at keyRead
    rw [Kind.part?_eq_some_iff.1 isBool, Kind.value] at computedRead
    unfold checkDot
    rw [eq_bool_of_ofDocument computedRead]
    cases computed with
    | true => rfl
    | false =>
      have form := form?_of_ofDocument keyRead
      simp only [Kind.fits, form]
      cases key <;> rfl
  all_goals rfl

theorem checkAll_append_last (check : α → Except LoadError Unit) (last : Except LoadError Unit)
    (steps : List α) :
    checkAll check last steps = (do checkAll check (.ok ()) steps; last) := by
  induction steps with
  | nil => rfl
  | cons a rest ih =>
    rw [checkAll, checkAll, ih]
    cases check a <;> rfl

/-- A form is assembled exactly by checking its declared fields in order. -/
theorem verdict_assemble (form : Form) (fields : List (Text × Document)) :
    verdict (assemble form (ofFields fields)) = checkFields form fields := by
  rw [assemble, verdict_bind fun _ read => verdict_build read, verdict_parts]
  exact (checkAll_append_last _ _ _).symm

/-- Whatever else an object holds, the same is read from the same declared fields. -/
theorem parts_congr {other : List (Text × Document)} {declared : List (String × Kind)}
    (same : ∀ entry ∈ declared, field other entry.1 = field fields entry.1) :
    parts form (ofFields other) declared = parts form (ofFields fields) declared := by
  induction declared with
  | nil => rfl
  | cons entry rest ih =>
    obtain ⟨first, others⟩ := List.forall_mem_cons.1 same
    rw [parts, parts, ih others, require_ofFields, require_ofFields, first]

/-! ### Reading an object -/

theorem verdict_eq_ok_iff {x : Except LoadError α} : verdict x = .ok () ↔ ∃ a, x = .ok a := by
  cases x with
  | error e => simp [verdict, Except.map]
  | ok a => simp [verdict, Except.map]

theorem verdict_eq_error_iff {x : Except LoadError α} {e : LoadError} :
    verdict x = .error e ↔ x = .error e := by
  cases x with
  | error e => simp [verdict, Except.map]
  | ok a => simp [verdict, Except.map]

theorem verdict_ofDocument_object {form : Form} (type : field fields "type" = .text form.name) :
    verdict (ofDocument (.object fields)) = checkFields form fields := by
  rw [← verdict_assemble, ofDocument, type]
  simp only [ofObject, form.ofName?_name]
  cases assemble form (ofFields fields) <;> rfl

theorem ofDocument_of_formless {s : Text} (type : field fields "type" = .text s)
    (formless : (Document.object fields).form? = none) :
    ofDocument (.object fields) = .error (.unknownForm (.text s)) := by
  simp only [Document.form?, type] at formless
  obtain ⟨name, tail⟩ := s
  rw [ofDocument, type]
  cases tail with
  | nil =>
    simp only [ofObject, formless]
    rfl
  | cons => rfl

theorem checkField_eq_ok_iff {kind : Kind} :
    checkField form fields name kind = .ok () ↔
      (∃ value, ofDocument (field fields name) = .ok value) ∧ kind.fits (field fields name) := by
  rw [checkField]
  cases ofDocument (field fields name) with
  | error e => simp
  | ok value => simp

theorem checkDot_eq_ok_iff {form : Form} :
    checkDot form fields = .ok () ↔ Document.DottedName form fields := by
  unfold checkDot Document.DottedName
  split
  · rename_i computed
    simp [computed]
  · rename_i notDot
    simp only [true_iff]
    intro isMember computed
    exact absurd computed (notDot isMember)

/-- All goes well if it does at each step. -/
theorem checkAll_eq_ok_iff {check : α → Except LoadError Unit} {last : Except LoadError Unit}
    {steps : List α} :
    checkAll check last steps = .ok () ↔ (∀ a ∈ steps, check a = .ok ()) ∧ last = .ok () := by
  induction steps with
  | nil => simp [checkAll]
  | cons a rest ih =>
    rw [checkAll, List.forall_mem_cons, and_assoc, ← ih]
    cases check a with
    | error e => simp [bind, Except.bind]
    | ok u => simp [bind, Except.bind]

/-- Every declared field can be read and is of its kind, and the property after a dot is a name. -/
theorem checkFields_eq_ok_iff {form : Form} :
    checkFields form fields = .ok () ↔
      (∀ entry ∈ form.declared, (∃ value, ofDocument (field fields entry.1) = .ok value) ∧
        entry.2.fits (field fields entry.1)) ∧
      Document.DottedName form fields := by
  simp only [checkFields, checkAll_eq_ok_iff, checkField_eq_ok_iff, checkDot_eq_ok_iff]

/-- Items are read in order. -/
theorem verdict_ofItems (items : List Document) :
    verdict (ofItems items) = checkAll (fun d => verdict (ofDocument d)) (.ok ()) items := by
  induction items with
  | nil => rw [ofItems, checkAll, verdict, Except.map]
  | cons d rest ih =>
    rw [ofItems, checkAll, ← ih]
    cases ofDocument d with
    | error e => rfl
    | ok value => cases ofItems rest <;> rfl

theorem verdict_ofDocument_list (items : List Document) :
    verdict (ofDocument (.list items)) =
      checkAll (fun d => verdict (ofDocument d)) (.ok ()) items := by
  rw [ofDocument, ← verdict_ofItems]
  cases ofItems items <;> rfl

/-- What can be read is what conforms to the schema. -/
theorem readable_iff (d : Document) : (∃ loaded, ofDocument d = .ok loaded) ↔ d.Conforms := by
  induction d using Document.parts_induction with
  | scalar d isScalar =>
    simp only [Document.Conforms.scalar isScalar, iff_true]
    cases d with
    | list | object => cases isScalar
    | null | bool | int | double | text =>
      rw [ofDocument]
      exact ⟨_, rfl⟩
  | list items ih =>
    rw [← verdict_eq_ok_iff, verdict_ofDocument_list, checkAll_eq_ok_iff]
    simp only [verdict_eq_ok_iff, and_true]
    constructor
    · intro every
      exact .list fun item member => (ih item member).1 (every item member)
    · intro conforms item member
      cases conforms with
      | scalar isScalar => cases isScalar
      | list every => exact (ih item member).2 (every item member)
  | object fields ih =>
    constructor
    · rintro ⟨loaded, read⟩
      obtain ⟨form, tree, type, -, -⟩ := ofDocument_object_eq_ok_iff.1 read
      have checked : verdict (ofDocument (.object fields)) = .ok () :=
        verdict_eq_ok_iff.2 ⟨loaded, read⟩
      rw [verdict_ofDocument_object type] at checked
      obtain ⟨every, dotted⟩ := checkFields_eq_ok_iff.1 checked
      exact .object type (fun entry member => (ih entry.1).1 (every entry member).1)
        (fun entry member => (every entry member).2) dotted
    · intro conforms
      cases conforms with
      | scalar isScalar => cases isScalar
      | object type conform fit dotted =>
        rw [← verdict_eq_ok_iff, verdict_ofDocument_object type, checkFields_eq_ok_iff]
        refine ⟨fun entry member => ?_, dotted⟩
        exact ⟨(ih entry.1).2 (conform entry member), fit entry member⟩

end

theorem ofDocument_of_sameDeclared {d other : Document} (same : d.SameDeclared other) :
    ofDocument other = ofDocument d := by
  cases same with
  | @object fields other form type otherType same =>
    rw [ofDocument, ofDocument, type, otherType]
    simp only [ofObject, form.ofName?_name, assemble, parts_congr same]

/-- Exactly the documents of the schema can be read, and nothing but the fields of its form matters
to what an object is read as. -/
theorem reads_exactly_schema :
    (∀ d : Document, (∃ loaded, ofDocument d = .ok loaded) ↔ d.Conforms) ∧
      ∀ d other : Document, d.SameDeclared other → ofDocument other = ofDocument d :=
  ⟨readable_iff, fun _ _ same => ofDocument_of_sameDeclared same⟩

/-- A note beside the fields of a member, though of no form itself, changes nothing. -/
theorem reads_exactly_schema_note :
    ofDocument (.object [("note", .object [("type", .text "Note")]), ("type", .text "Member"),
        ("object", .object [("type", .text "Identifier"), ("name", .text "a")]),
        ("property", .object [("type", .text "Identifier"), ("name", .text "b")]),
        ("computed", .bool false)]) =
      ofDocument (.object [("type", .text "Member"),
        ("object", .object [("type", .text "Identifier"), ("name", .text "a")]),
        ("property", .object [("type", .text "Identifier"), ("name", .text "b")]),
        ("computed", .bool false)]) ∧
    ¬ (Document.object [("type", .text "Note")]).Conforms := by
  constructor
  · apply reads_exactly_schema.2
    refine @Document.SameDeclared.object _ _ .member rfl rfl ?_
    simp only [Form.declared, List.forall_mem_cons]
    exact ⟨rfl, rfl, rfl, List.forall_mem_nil _⟩
  · rw [← reads_exactly_schema.1]
    rintro ⟨loaded, read⟩
    cases read

end Loaded

end YapLang
