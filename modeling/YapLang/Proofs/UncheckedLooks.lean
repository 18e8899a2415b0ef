import YapLang.Proofs.UncheckedRuns

/-!
# Looking into a document that was read

What a field of a node holds is read as the part of the tree that it stands for. So wherever a
document was read as a tree, an unchecked look into it succeeds, and finds what the tree says: the
fields that the form has, texts and numbers where they are needed, the statements of blocks, and the
name after a dot.
-/
namespace YapLang

/-! ### What the fields of a node are read as -/

namespace Kind

/-- The fields from which parts are read. -/
def values : (declared : List (String × Kind)) → Parts declared → List (String × Loaded)
  | [], _ => []
  | (name, kind) :: rest, (part, others) => (name, kind.value part) :: values rest others

theorem names_values (declared : List (String × Kind)) (ps : Parts declared) :
    (values declared ps).map Prod.fst = declared.map Prod.fst := by
  induction declared with
  | nil => rfl
  | cons entry rest ih =>
    obtain ⟨part, others⟩ := ps
    rw [values, List.map_cons, ih others, List.map_cons]

end Kind

namespace Loaded

open Document (field)
open YapLang.Tree (Form)

/-- The fields of a tree, as they are read. -/
def fieldsOf (tree : Node) : List (String × Loaded) :=
  Kind.values tree.form.declared tree.declaredParts

/-- A tree has the fields that it was built from. -/
theorem fieldsOf_of_build {form : Form} {ps : Kind.Parts form.declared} {tree : Node}
    (built : form.build ps = .ok tree) : fieldsOf tree = Kind.values form.declared ps :=
  Form.eq_of_build (fun form ps => Kind.values form.declared ps) built

/-- The fields that parts were read from hold what these are read from. -/
theorem ofDocument_of_parts {form : String} {fields : List (Text × Document)}
    {declared : List (String × Kind)} {ps : Kind.Parts declared}
    (read : parts form (ofFields fields) declared = .ok ps) {name : String} {value : Loaded}
    (held : (name, value) ∈ Kind.values declared ps) :
    ofDocument (field fields name) = .ok value := by
  induction declared with
  | nil => cases held
  | cons entry rest ih =>
    obtain ⟨first, kind⟩ := entry
    obtain ⟨part, others⟩ := ps
    obtain ⟨required, othersRead⟩ := parts_cons_eq_ok.1 read
    rw [Kind.values, List.mem_cons] at held
    rcases held with same | member
    · obtain ⟨rfl, rfl⟩ := Prod.mk.inj same
      -- the field was of its kind, so it was read as the value of the part
      obtain ⟨found, fieldRead, fits⟩ := require_eq_ok_iff.1 required
      rw [fieldRead, Kind.part?_eq_some_iff.1 fits]
    · exact ih othersRead member

/-- A field of an object is read as the field of the tree that the object is read as. -/
theorem ofDocument_field {fields : List (Text × Document)} {tree : Node} {name : String}
    {value : Loaded} (read : ofDocument (.object fields) = .ok (.node tree))
    (held : (name, value) ∈ fieldsOf tree) : ofDocument (field fields name) = .ok value := by
  obtain ⟨form, _, -, assembled, same⟩ := ofDocument_object_eq_ok_iff.1 read
  cases same
  rw [assemble] at assembled
  obtain ⟨ps, partsRead, built⟩ := bind_eq_ok.1 assembled
  rw [fieldsOf_of_build built] at held
  exact ofDocument_of_parts partsRead held

end Loaded

namespace Unchecked

open Loaded (ofDocument ofItems fieldsOf)

/-- The document is read as the tree. -/
def Reads (d : Document) (tree : Node) : Prop :=
  ofDocument d = .ok (.node tree)

variable {d : Document} {tree : Node} {value : Loaded}

/-! ### Looking into a document that was read -/

theorem Reads.form (reads : Reads d tree) : d.form? = some tree.form :=
  Loaded.form?_of_ofDocument reads

/-- A node has the fields of the tree that it is read as. -/
theorem Reads.part (reads : Reads d tree) (name : String)
    (held : (fieldsOf tree).lookup name = some value) :
    ∃ inner, part d name = .ok inner ∧ ofDocument inner.1 = .ok value := by
  obtain ⟨before, after, isFields, -⟩ := List.lookup_eq_some_iff.1 held
  have member : (name, value) ∈ fieldsOf tree := by simp [isFields]
  -- a node has the fields of its form and no others
  have declared : name ∈ tree.form.declared.map Prod.fst := by
    rw [← Kind.names_values _ tree.declaredParts]
    exact List.mem_map_of_mem member
  have form := reads.form
  cases d with
  | object fields =>
    refine ⟨⟨_, Document.sizeOf_field_lt fields name⟩, ?_, Loaded.ofDocument_field reads member⟩
    simp only [Unchecked.part, form, declared, if_true]
  | _ => cases form

theorem Reads.fieldAt (reads : Reads d tree) (name : String)
    (held : (fieldsOf tree).lookup name = some value) :
    ∃ inner, fieldAt d name = .ok inner ∧ ofDocument inner = .ok value := by
  obtain ⟨inner, found, read⟩ := reads.part name held
  exact ⟨inner.1, by rw [Unchecked.fieldAt, found]; rfl, read⟩

theorem ok_bind {α β : Type} (a : α) (f : α → Except Crash β) :
    ((.ok a : Except Crash α) >>= f) = f a := rfl

theorem text_eq {s : Text} (read : ofDocument d = .ok (.text s)) : text d = .ok s := by
  have same := Loaded.eq_toDocument_of_isScalar read (by rw [Loaded.toDocument]; rfl)
  rw [same, Loaded.toDocument, text]

theorem truth_eq {b : Bool} (read : ofDocument d = .ok (.bool b)) : truth d = .ok b := by
  rw [Loaded.eq_bool_of_ofDocument read, truth]

theorem number_eq {value : LiteralValue}
    (read : ofDocument d = .ok (Kind.number.value value)) : number d = .ok value := by
  cases value <;> rw [Kind.value] at read
  all_goals
    have same := Loaded.eq_toDocument_of_isScalar read (by rw [Loaded.toDocument]; rfl)
    rw [same, Loaded.toDocument, number]

theorem items_eq {values : List Loaded} (read : ofDocument d = .ok (.list values)) :
    ∃ ds, items d = .ok ds ∧ ofItems ds = .ok values := by
  cases d with
  | list ds =>
    rw [ofDocument] at read
    obtain ⟨_, itemsRead, same⟩ := Loaded.map_eq_ok.1 read
    cases same
    exact ⟨ds, rfl, itemsRead⟩
  | object fields =>
    obtain ⟨_, _, -, -, same⟩ := Loaded.ofDocument_object_eq_ok_iff.1 read
    cases same
  | null | bool | int | double | text =>
    rw [ofDocument] at read
    cases read

/-- Items that are read as trees are read one by one. -/
theorem forall₂_reads {ds : List Document} {trees : List Node}
    (read : ofItems ds = .ok (trees.map .node)) : List.Forall₂ Reads ds trees := by
  have each := Loaded.forall₂_of_ofItems read
  rwa [List.forall₂_map_right_iff] at each

theorem texts_eq {names : List Text} (read : ofDocument d = .ok (.list (names.map .text))) :
    texts d = .ok names := by
  obtain ⟨ds, found, itemsRead⟩ := items_eq read
  have each := Loaded.forall₂_of_ofItems itemsRead
  rw [List.forall₂_map_right_iff] at each
  rw [texts, found, ok_bind]
  -- the induction is on the items alone
  clear read found itemsRead
  induction each with
  | nil => rfl
  | cons first _ ih =>
    rw [List.mapM_cons, text_eq first, ih]
    rfl

/-- What may be left out is null, or an object. -/
theorem optional_rel {tree : Option Node} (read : ofDocument d = .ok (Kind.optional.value tree)) :
    Option.Rel Reads (optional d) tree := by
  cases tree with
  | none =>
    rw [Kind.value] at read
    have same := Loaded.eq_toDocument_of_isScalar read (by rw [Loaded.toDocument]; rfl)
    rw [same, Loaded.toDocument, optional]
    exact .none
  | some tree =>
    cases d with
    | null =>
      rw [ofDocument] at read
      cases read
    | _ => exact .some read

/-! ### Looking into fields -/

theorem Reads.textAt {s : Text} (reads : Reads d tree) (name : String)
    (held : (fieldsOf tree).lookup name = some (.text s)) : textAt d name = .ok s := by
  obtain ⟨inner, found, read⟩ := reads.fieldAt name held
  rw [Unchecked.textAt, found]
  exact text_eq read

theorem Reads.nameAt {s : Text} (reads : Reads d tree) (name : String)
    (held : (fieldsOf tree).lookup name = some (.node (.identifier s))) :
    nameAt d name = .ok s := by
  obtain ⟨inner, found, read⟩ := reads.fieldAt name held
  have isName : Reads inner (.identifier s) := read
  have named := isName.textAt "name" rfl
  rw [Unchecked.nameAt, found]
  exact named

theorem Reads.itemsAt {trees : List Node} (reads : Reads d tree) (name : String)
    (held : (fieldsOf tree).lookup name = some (.list (trees.map .node))) :
    ∃ ds, itemsAt d name = .ok ds ∧ List.Forall₂ Reads ds trees := by
  obtain ⟨inner, found, read⟩ := reads.fieldAt name held
  obtain ⟨ds, isList, itemsRead⟩ := items_eq read
  refine ⟨ds, ?_, forall₂_reads itemsRead⟩
  rw [Unchecked.itemsAt, found]
  exact isList

theorem Reads.statements {body : List Node} (reads : Reads d (.block body)) :
    ∃ ds, statements d = .ok ds ∧ List.Forall₂ Reads ds body := by
  have isBlock : d.form? = some .block := reads.form
  obtain ⟨ds, found, each⟩ := reads.itemsAt "body" rfl
  refine ⟨ds, ?_, each⟩
  rw [Unchecked.statements, if_pos isBlock, found]

theorem Reads.statementsAt {body : List Node} (reads : Reads d tree) (name : String)
    (held : (fieldsOf tree).lookup name = some (.node (.block body))) :
    ∃ ds, statementsAt d name = .ok ds ∧ List.Forall₂ Reads ds body := by
  obtain ⟨inner, found, read⟩ := reads.fieldAt name held
  obtain ⟨ds, isBlock, each⟩ := Reads.statements read
  refine ⟨ds, ?_, each⟩
  rw [Unchecked.statementsAt, found]
  exact isBlock

theorem Reads.describe (reads : Reads d tree) : describe d = .ok tree.describe := by
  have form := reads.form
  fun_induction Tree.describe tree generalizing d with
  | case1 name =>
    rw [Unchecked.describe]
    simp only [form, Tree.form]
    exact reads.textAt "name" rfl
  | case2 object key ih =>
    obtain ⟨inner, objectAt, objectRead⟩ := reads.part "object" rfl
    obtain ⟨flag, computedAt, flagRead⟩ := reads.fieldAt "computed" rfl
    have described := ih objectRead (Reads.form objectRead)
    rw [Unchecked.describe]
    simp only [form, Tree.form, objectAt, computedAt, ok_bind, described, truth_eq flagRead]
    rfl
  | case3 object name ih =>
    obtain ⟨inner, objectAt, objectRead⟩ := reads.part "object" rfl
    obtain ⟨flag, computedAt, flagRead⟩ := reads.fieldAt "computed" rfl
    have described := ih objectRead (Reads.form objectRead)
    rw [Unchecked.describe]
    simp only [form, Tree.form, objectAt, computedAt, ok_bind, described, truth_eq flagRead,
      reads.nameAt "property" rfl]
    rfl
  | case4 callee args ih =>
    obtain ⟨inner, calleeAt, calleeRead⟩ := reads.part "callee" rfl
    have described := ih calleeRead (Reads.form calleeRead)
    rw [Unchecked.describe]
    simp only [form, Tree.form, calleeAt, ok_bind, described]
    rfl
  | case5 node notIdentifier notIndex notProperty notCall =>
    rw [Unchecked.describe]
    -- all forms that have no description of their own
    cases node
    case identifier name => exact absurd rfl (notIdentifier name)
    case index object key => exact absurd rfl (notIndex object key)
    case property object name => exact absurd rfl (notProperty object name)
    case call callee args => exact absurd rfl (notCall callee args)
    all_goals
      simp only [form, Tree.form]
      rfl

end Unchecked

end YapLang
