import YapLang.Proofs.TreeDocuments

/-!
# What loading keeps of a document

A document that can be read may hold more than is read: an object may have fields that its form does
not know, and it may leave out fields that its form has. What was read is written as the document
without the former and with the latter as null. That document is read as the same thing again, so
reading and writing a second time changes nothing.
-/
namespace YapLang

/-! ### Trimmed documents -/

namespace Document

/-- The fields that are declared, in order; those that are absent are null. -/
def declaredFields (declared : List (String × Kind)) (fields : List (Text × Document)) :
    List (Text × Document) :=
  declared.map fun (key, _) => (key, field fields key)

/-- The object of a form with exactly the fields of the form. An object that names no form stays as
it is. -/
def trimmedObject (form : Document) (fields : List (Text × Document)) : Document :=
  match form with
  | .text (.whole name) =>
    match Tree.Form.ofName? name with
    | some form => Tree.formDocument form (declaredFields form.declared fields)
    | none => .object fields
  | _ => .object fields

mutual

/-- The document with every object in it cut down, or filled up, to the fields of its form. -/
def trimmed : Document → Document
  | .list items => .list (trimmedItems items)
  | .object fields => trimmedObject (field fields "type") (trimmedFields fields)
  | .null => .null
  | .bool b => .bool b
  | .int n => .int n
  | .double x => .double x
  | .text s => .text s

def trimmedItems : List Document → List Document
  | [] => []
  | d :: rest => trimmed d :: trimmedItems rest

def trimmedFields : List (Text × Document) → List (Text × Document)
  | [] => []
  | (key, d) :: rest => (key, trimmed d) :: trimmedFields rest

end

end Document

namespace Loaded

open Document (field trimmed trimmedObject trimmedItems trimmedFields declaredFields)
open YapLang.Kind (writeParts)
open YapLang.Tree (document formDocument optionalDocument blockDocument Form)

theorem bind_eq_ok {α β : Type} {x : Except LoadError α} {f : α → Except LoadError β} {b : β} :
    (x >>= f) = .ok b ↔ ∃ a, x = .ok a ∧ f a = .ok b := by
  cases x with
  | error e => simp [bind, Except.bind]
  | ok a => simp [bind, Except.bind]

theorem map_eq_ok {α β : Type} {x : Except LoadError α} {f : α → β} {b : β} :
    x.map f = .ok b ↔ ∃ a, x = .ok a ∧ f a = b := by
  cases x with
  | error e => simp [Except.map]
  | ok a => simp [Except.map]

/-! ### What each kind of field is written as -/

theorem documents_map {α : Type} {write : α → Document} {value : α → Loaded}
    (each : ∀ a, (value a).toDocument = write a) (as : List α) :
    documents (as.map value) = as.map write := by
  induction as with
  | nil => rw [List.map_nil, documents, List.map_nil]
  | cons a as ih => rw [List.map_cons, documents, each, ih, List.map_cons]

/-- What a part is read from is written as the part is. -/
theorem toDocument_value (kind : Kind) (part : kind.Part) :
    (kind.value part).toDocument = kind.write part := by
  cases kind with
  | text | truth => rw [Kind.value, toDocument, Kind.write]
  | number => cases part <;> rw [Kind.value, toDocument, Kind.write, Tree.numberDocument]
  | texts => rw [Kind.value, toDocument, documents_map fun s => by rw [toDocument], Kind.write]
  | nodes =>
    rw [Kind.value, toDocument, documents_map fun tree => by rw [toDocument, Node.toDocument]]
    simp only [Kind.write, documents_eq_map]
  | block => rw [Kind.value, toDocument, Node.toDocument, document, Kind.write, blockDocument]
  | identifier => rw [Kind.value, toDocument, Node.toDocument, document, Kind.write]
  | node => rw [Kind.value, toDocument, Node.toDocument, Kind.write]
  | optional =>
    cases part with
    | none => rw [Kind.value, toDocument, Kind.write, optionalDocument]
    | some tree => rw [Kind.value, toDocument, Node.toDocument, Kind.write, optionalDocument]

/-! ### Forms -/

/-- An object is read if it names a form and its fields can be assembled. -/
theorem ofObject_eq_ok {type : Document} {fields : Fields} {tree : Node} :
    ofObject type fields = .ok tree ↔
      ∃ form : Form, type = .text form.name ∧ assemble form fields = .ok tree := by
  constructor
  · intro read
    unfold ofObject at read
    split at read
    next name =>
      split at read
      next form named => exact ⟨form, by rw [Form.name_eq_of_ofName? named], read⟩
      · cases read
    all_goals cases read
  · rintro ⟨form, rfl, assembled⟩
    simp only [ofObject, form.ofName?_name, assembled]

/-- What the fields are read as is written as the documents that are kept of them. -/
def Kept (fields : Fields) (kept : List (Text × Document)) : Prop :=
  ∀ name d value, (fields.lookup name).getD (.null, .ok .null) = (d, .ok value) →
    value.toDocument = field kept name

section

variable {form name : String} {fields : Fields} {kept : List (Text × Document)}

theorem Kept.field_eq (keeps : Kept fields kept) {kind : Kind} {part : kind.Part}
    (required : require form fields name kind.part? = .ok part) :
    field kept name = kind.write part := by
  unfold require at required
  split at required
  next d loaded found =>
    split at required
    · cases required
    next value =>
      split at required
      next fits =>
        cases required
        -- a value of the kind is the one that the part is read from
        rw [← keeps name d value found, Kind.part?_eq_some_iff.1 fits, toDocument_value]
      · cases required

theorem parts_cons_eq_ok {kind : Kind} {rest : List (String × Kind)} {part : kind.Part}
    {others : Kind.Parts rest} :
    parts form fields ((name, kind) :: rest) = .ok (part, others) ↔
      require form fields name kind.part? = .ok part ∧ parts form fields rest = .ok others := by
  rw [parts]
  cases require form fields name kind.part? with
  | error e => simp [bind, Except.bind]
  | ok a =>
    cases parts form fields rest with
    | error e => simp [bind, Except.bind]
    | ok ps =>
      constructor
      · intro same
        cases same
        exact ⟨rfl, rfl⟩
      · rintro ⟨⟨⟩, ⟨⟩⟩
        rfl

/-- What is read from the declared fields is written as what is kept of them. -/
theorem Kept.writeParts_eq (keeps : Kept fields kept) {declared : List (String × Kind)}
    {ps : Kind.Parts declared} (read : parts form fields declared = .ok ps) :
    writeParts declared ps = declaredFields declared kept := by
  induction declared with
  | nil => rfl
  | cons entry rest ih =>
    obtain ⟨name, kind⟩ := entry
    obtain ⟨part, others⟩ := ps
    obtain ⟨required, othersRead⟩ := parts_cons_eq_ok.1 read
    have first := keeps.field_eq required
    rw [writeParts, ih othersRead, ← first]
    rfl

/-- A tree that is assembled from fields is written as an object with just the fields of its
form. -/
theorem Kept.document_eq (keeps : Kept fields kept) {form : Form} {tree : Node}
    (assembled : assemble form fields = .ok tree) :
    document .text tree = trimmedObject (.text form.name) kept := by
  rw [assemble] at assembled
  obtain ⟨ps, read, built⟩ := bind_eq_ok.1 assembled
  -- the tree is written by its own parts, which are those that were read
  have sameParts := Form.eq_of_build (fun form ps => formDocument form (writeParts _ ps)) built
  rw [Form.document_eq, sameParts, keeps.writeParts_eq read]
  simp only [trimmedObject, form.ofName?_name]

end

mutual

/-- What was read is written as the trimmed document; by induction on the document. -/
theorem toDocument_of_ofDocument : (d : Document) → ∀ {loaded : Loaded},
    ofDocument d = .ok loaded → loaded.toDocument = d.trimmed
  | .null, loaded, read | .bool _, loaded, read | .int _, loaded, read | .double _, loaded, read
  | .text _, loaded, read => by
    rw [ofDocument] at read
    cases read
    rw [toDocument, trimmed]
  | .list items, loaded, read => by
    rw [ofDocument] at read
    obtain ⟨values, itemsRead, rfl⟩ := map_eq_ok.1 read
    rw [toDocument, trimmed, documents_of_ofItems items itemsRead]
  | .object fields, loaded, read => by
    rw [ofDocument] at read
    obtain ⟨tree, objectRead, rfl⟩ := map_eq_ok.1 read
    have keeps := kept_ofFields fields
    rw [toDocument, trimmed, Node.toDocument]
    obtain ⟨form, type, assembled⟩ := ofObject_eq_ok.1 objectRead
    rw [type]
    exact keeps.document_eq assembled

theorem documents_of_ofItems : (items : List Document) → ∀ {values : List Loaded},
    ofItems items = .ok values → documents values = trimmedItems items
  | [], values, read => by
    rw [ofItems] at read
    cases read
    rw [documents, trimmedItems]
  | d :: rest, values, read => by
    rw [ofItems] at read
    obtain ⟨first, firstRead, read⟩ := bind_eq_ok.1 read
    obtain ⟨others, othersRead, same⟩ := bind_eq_ok.1 read
    cases same
    rw [documents, trimmedItems, toDocument_of_ofDocument d firstRead,
      documents_of_ofItems rest othersRead]

theorem kept_ofFields : (fields : List (Text × Document)) →
    Kept (ofFields fields) (trimmedFields fields)
  | [] => by
    intro name d value found
    rw [ofFields] at found
    cases found
    rw [toDocument, trimmedFields]
    rfl
  | (key, document) :: rest => by
    intro name d value found
    rw [ofFields, List.lookup_cons] at found
    rw [trimmedFields, field, List.lookup_cons]
    -- the first field of a name is the one that counts, before and after
    cases here : name == key with
    | true =>
      rw [here] at found
      obtain ⟨-, read⟩ := Prod.mk.inj found
      exact toDocument_of_ofDocument document read
    | false =>
      rw [here] at found
      exact kept_ofFields rest name d value found

end

/-! ### Reading what was written -/

mutual

/-- What was read is read again from what it is written as. -/
theorem ofDocument_toDocument : (loaded : Loaded) → ofDocument loaded.toDocument = .ok loaded
  | .null | .bool _ | .int _ | .double _ | .text _ => by
    rw [toDocument, ofDocument]
  | .list items => by
    rw [toDocument, ofDocument, ofItems_toDocuments items]
    rfl
  | .node tree => by
    rw [toDocument, Node.toDocument, ofDocument_document tree]

theorem ofItems_toDocuments : (items : List Loaded) → ofItems (documents items) = .ok items
  | [] => by
    rw [documents, ofItems]
  | item :: rest => by
    rw [documents, ofItems, ofDocument_toDocument item, ofItems_toDocuments rest]
    rfl

end

/-- A document that can be read is written again as it was, with the fields that its forms do not
have left out and those that it lacks null. To read that document gives the same thing, so to read
and write once more changes nothing. -/
theorem reloading_trims_once (d : Document) (loaded : Loaded) (read : ofDocument d = .ok loaded) :
    loaded.toDocument = d.trimmed ∧
      ofDocument loaded.toDocument = .ok loaded ∧
      (ofDocument d.trimmed).map toDocument = .ok d.trimmed := by
  have written : loaded.toDocument = d.trimmed := toDocument_of_ofDocument d read
  have again : ofDocument loaded.toDocument = .ok loaded := ofDocument_toDocument loaded
  refine ⟨written, again, ?_⟩
  rw [← written, again]
  rfl

/-- A list of an object whose fields stand in another order, beside a note that holds no tree at
all, and of one that lacks its optional field. An integer stays an integer. -/
theorem reloading_trims_once_member :
    let given : Document := .list
      [ .object
          [ ("computed", .bool true), ("note", .object [("type", .text "Comment")]),
            ("object", .object [("name", .text "a"), ("type", .text "Identifier")]),
            ("property", .object [("type", .text "Literal"), ("value", .int 1)]),
            ("type", .text "Member") ],
        .object [("type", .text "Return")] ]
    let kept : Document := .list
      [ .object
          [ ("type", .text "Member"),
            ("object", .object [("type", .text "Identifier"), ("name", .text "a")]),
            ("property", .object [("type", .text "Literal"), ("value", .int 1)]),
            ("computed", .bool true) ],
        .object [("type", .text "Return"), ("argument", .null)] ]
    let trees : Loaded := .list
      [.node (.index (.identifier "a") (.number (.int 1))), .node (.returning none)]
    ofDocument given = .ok trees ∧ trees.toDocument = kept ∧ ofDocument kept = .ok trees := by
  intro given kept trees
  have read : ofDocument given = .ok trees := by rfl
  obtain ⟨written, again, _⟩ := reloading_trims_once given trees read
  have trimmed : given.trimmed = kept := by rfl
  rw [trimmed] at written
  rw [written] at again
  exact ⟨read, written, again⟩

end Loaded

end YapLang
