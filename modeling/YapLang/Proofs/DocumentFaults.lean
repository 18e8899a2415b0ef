import YapLang.Proofs.DocumentSchema
import YapLang.Proofs.Reloading

/-!
# Faults of documents

A document that cannot be read is faulty in one of four ways, and the first fault on the way through
it decides. Three of them are reported as an invalid file. The fourth ends the command without a
report: it is met where an object names its form by a list or by another object. Where that happens
is said here without reading the document.
-/
namespace YapLang

namespace Document

/-- The first fault on the way through a document is a form that is named by a list or an object.
What comes before it, item by item and field by field, conforms. -/
inductive Trips : Document → Prop where
  | form {fields} : (field fields "type").isScalar = false → Trips (.object fields)
  | item {before d after} :
      (∀ item ∈ before, item.Conforms) → Trips d → Trips (.list (before ++ d :: after))
  | field {fields} {form : Tree.Form} {before : List (String × Kind)} {name : String} {kind after} :
      field fields "type" = .text form.name →
      form.declared = before ++ (name, kind) :: after →
      (∀ entry ∈ before,
        (field fields entry.1).Conforms ∧ entry.2.fits (field fields entry.1)) →
      Trips (field fields name) → Trips (.object fields)

end Document

namespace Loaded

open Document (field Trips)
open YapLang.Tree (Form)

variable {α : Type} {fields : List (Text × Document)}

/-! ### The first fault -/

/-- What fails is the first step that does, or what comes last. -/
theorem checkAll_eq_error_iff {check : α → Except LoadError Unit} {last : Except LoadError Unit}
    {steps : List α} {e : LoadError} :
    checkAll check last steps = .error e ↔
      (∃ before a after, steps = before ++ a :: after ∧ (∀ b ∈ before, check b = .ok ()) ∧
        check a = .error e) ∨
      (∀ a ∈ steps, check a = .ok ()) ∧ last = .error e := by
  induction steps with
  | nil => simp [checkAll]
  | cons a rest ih =>
    rw [checkAll]
    cases checked : check a with
    | error first =>
      -- nothing comes before, so the fault is this one
      constructor
      · intro failed
        cases failed
        exact .inl ⟨[], a, rest, rfl, List.forall_mem_nil _, checked⟩
      · rintro (⟨before, b, after, split, every, failed⟩ | ⟨every, -⟩)
        · cases before with
          | nil =>
            cases split
            rw [← failed, checked]
            rfl
          | cons b before =>
            cases split
            simp [every a List.mem_cons_self] at checked
        · simp [every a List.mem_cons_self] at checked
    | ok u =>
      have step : (do Except.ok u; checkAll check last rest) = checkAll check last rest := rfl
      rw [step, ih]
      constructor
      · rintro (⟨before, b, after, rfl, every, failed⟩ | ⟨every, failed⟩)
        · exact .inl ⟨a :: before, b, after, rfl, List.forall_mem_cons.2 ⟨checked, every⟩, failed⟩
        · exact .inr ⟨List.forall_mem_cons.2 ⟨checked, every⟩, failed⟩
      · rintro (⟨before, b, after, split, every, failed⟩ | ⟨every, failed⟩)
        · cases before with
          | nil =>
            cases split
            simp [checked] at failed
          | cons c before =>
            cases split
            exact .inl ⟨before, b, after, rfl, (List.forall_mem_cons.1 every).2, failed⟩
        · exact .inr ⟨(List.forall_mem_cons.1 every).2, failed⟩

theorem checkField_eq_compoundForm_iff {form name : String} {kind : Kind} {d : Document} :
    checkField form fields name kind = .error (.compoundForm d) ↔
      ofDocument (field fields name) = .error (.compoundForm d) := by
  rw [checkField]
  cases ofDocument (field fields name) with
  | error e => simp
  | ok value => by_cases fits : kind.fits (field fields name) <;> simp [fits]

theorem checkDot_ne_compoundForm {form : Form} {d : Document} :
    checkDot form fields ≠ .error (.compoundForm d) := by
  unfold checkDot
  split
  · split <;> simp
  · simp

/-- The first declared field that fails is one whose own document does, as its kind is checked only
after it was read. -/
theorem checkFields_eq_compoundForm_iff {form : Form} {d : Document} :
    checkFields form fields = .error (.compoundForm d) ↔
      ∃ before entry after, form.declared = before ++ entry :: after ∧
        (∀ earlier ∈ before,
          (field fields earlier.1).Conforms ∧ earlier.2.fits (field fields earlier.1)) ∧
        ofDocument (field fields entry.1) = .error (.compoundForm d) := by
  rw [checkFields, checkAll_eq_error_iff]
  simp only [checkField_eq_ok_iff, checkField_eq_compoundForm_iff, readable_iff,
    checkDot_ne_compoundForm, and_false, or_false]

/-- An object of a form trips where the first faulty one of its fields does. -/
theorem trips_object_iff {form : Form} (type : field fields "type" = .text form.name) :
    Trips (.object fields) ↔
      ∃ before entry after, form.declared = before ++ entry :: after ∧
        (∀ earlier ∈ before,
          (field fields earlier.1).Conforms ∧ earlier.2.fits (field fields earlier.1)) ∧
        Trips (field fields entry.1) := by
  constructor
  · intro trips
    cases trips with
    | form compound => simp [type, Document.isScalar] at compound
    | field alsoType split conform trips =>
      -- the name tells the form
      obtain rfl := form_unique type alsoType
      exact ⟨_, _, _, split, conform, trips⟩
  · rintro ⟨before, ⟨name, kind⟩, after, split, conform, trips⟩
    exact .field type split conform trips

/-- An object that trips has a form, or names it by a list or an object. -/
theorem not_trips_of_formless (simple : (field fields "type").isScalar)
    (formless : (Document.object fields).form? = none) : ¬ Trips (.object fields) := by
  intro trips
  cases trips with
  | form compound => simp [simple] at compound
  | field type => simp [form?_eq_some_iff.2 type] at formless

/-- The fourth fault is met where the schema says so. -/
theorem compoundForm_iff_trips (d : Document) :
    (∃ form, ofDocument d = .error (.compoundForm form)) ↔ d.Trips := by
  induction d using Document.parts_induction with
  | scalar d isScalar =>
    obtain ⟨loaded, read⟩ := (readable_iff d).2 (.scalar isScalar)
    constructor
    · rintro ⟨form, failed⟩
      simp [read] at failed
    · intro trips
      cases trips <;> cases isScalar
  | list items ih =>
    -- items are read in order, and the first one that fails is the fault of the list
    have items_iff (form : Document) : ofDocument (.list items) = .error (.compoundForm form) ↔
        ∃ before d after, items = before ++ d :: after ∧ (∀ item ∈ before, item.Conforms) ∧
          ofDocument d = .error (.compoundForm form) := by
      rw [← verdict_eq_error_iff, verdict_ofDocument_list, checkAll_eq_error_iff]
      simp only [verdict_eq_ok_iff, verdict_eq_error_iff, readable_iff]
      simp
    simp only [items_iff]
    constructor
    · rintro ⟨form, before, d, after, rfl, conform, failed⟩
      exact .item conform ((ih d (by simp)).1 ⟨form, failed⟩)
    · intro trips
      cases trips with
      | item conform trips =>
        obtain ⟨form, failed⟩ := (ih _ (by simp)).2 trips
        exact ⟨form, _, _, _, rfl, conform, failed⟩
  | object fields ih =>
    cases type : field fields "type" with
    | text s =>
      cases named : (Document.object fields).form? with
      | none =>
        have simple : (field fields "type").isScalar := by
          rw [type]
          rfl
        simp [ofDocument_of_formless type named, not_trips_of_formless simple named]
      | some form =>
        have isForm := form?_eq_some_iff.1 named
        -- so are the fields of a form, in the order of the table
        have fields_iff (d : Document) :
            ofDocument (.object fields) = .error (.compoundForm d) ↔
              checkFields form fields = .error (.compoundForm d) := by
          rw [← verdict_eq_error_iff, verdict_ofDocument_object isForm]
        simp only [fields_iff, checkFields_eq_compoundForm_iff]
        rw [trips_object_iff isForm]
        constructor
        · rintro ⟨d, before, entry, after, split, conform, failed⟩
          exact ⟨before, entry, after, split, conform, (ih entry.1).1 ⟨d, failed⟩⟩
        · rintro ⟨before, entry, after, split, conform, trips⟩
          obtain ⟨d, failed⟩ := (ih entry.1).2 trips
          exact ⟨d, before, entry, after, split, conform, failed⟩
    | list | object =>
      have failed : ofDocument (.object fields) = .error (.compoundForm (field fields "type")) := by
        rw [ofDocument, type]
        rfl
      have trips : Trips (.object fields) := .form (by rw [type]; rfl)
      simp [failed, trips]
    | null | bool | int | double =>
      have failed : ofDocument (.object fields) = .error (.unknownForm (field fields "type")) := by
        rw [ofDocument, type]
        rfl
      have simple : (field fields "type").isScalar := by
        rw [type]
        rfl
      have formless : (Document.object fields).form? = none := by
        simp only [Document.form?, type]
      simp [failed, not_trips_of_formless simple formless]

end Loaded

namespace Command

open Loaded (ofDocument)

/-! ### What is read from a file -/

section

variable {text : String} {d : Document}

theorem programOf_of_trips (json : Document.ofJson text = .ok d) (trips : d.Trips) :
    ∃ form, programOf (.ok text) = .error (.notATree (.compoundForm form)) := by
  obtain ⟨form, failed⟩ := (Loaded.compoundForm_iff_trips d).2 trips
  exact ⟨form, by simp only [programOf, json, failed]⟩

/-- Anything but an acceptable program is refused. -/
theorem programOf_of_unacceptable (json : Document.ofJson text = .ok d)
    (unacceptable : ¬ (d.Conforms ∧ d.form? = some .program)) (smooth : ¬ d.Trips) :
    ∃ fault, programOf (.ok text) = .error fault ∧
      ∀ form, fault ≠ .notATree (.compoundForm form) := by
  cases read : ofDocument d with
  | error e =>
    refine ⟨.notATree e, by simp only [programOf, json, read], ?_⟩
    rintro form ⟨⟩
    exact smooth ((Loaded.compoundForm_iff_trips d).1 ⟨form, read⟩)
  | ok loaded =>
    have conforms := (Loaded.readable_iff d).1 ⟨loaded, read⟩
    -- it can be read, so it is only its form that is not acceptable
    have notProgram (body : List Node) : loaded ≠ .node (.program body) := by
      rintro rfl
      exact unacceptable ⟨conforms, Loaded.form?_of_ofDocument read⟩
    refine ⟨.notAProgram, ?_, ?_⟩
    · simp only [programOf, json, read]
    · rintro form ⟨⟩

end

namespace World

variable {α : Type} {world : World} {name text : String} {verbosity : Nat} (stream : Stream)

def complained (world : World) (text : String) : World :=
  { world with errors := world.errors ++ text }

/-- The world in which the command sets out: if it logs, the debug file was emptied. -/
def readied (world : World) (verbosity : Nat) : World :=
  if 0 < verbosity then world.store debugFile "" else world

theorem run_stop (code : Nat) (message : String) :
    run (stop (system stream) code message : Action (StateM World) α) world =
      (.error (.code code), world.complained (message ++ "\n")) := rfl

theorem run_readTree_of_compoundForm {form : Document} (holds : world.Holds name text)
    (isFault : programOf (.ok text) = .error (.notATree (.compoundForm form))) :
    run (readTree (system stream) name) world =
      (.error (.crash (.badTree (.compoundForm form))), world) := by
  rw [readTree, run_bind, run_readText stream holds]
  simp only [isFault]
  rfl

theorem run_readTree_of_fault {fault : TreeFault} (holds : world.Holds name text)
    (isFault : programOf (.ok text) = .error fault)
    (reported : ∀ form, fault ≠ .notATree (.compoundForm form)) :
    run (readTree (system stream) name) world =
      (.error (.code 1),
        world.complained
          ("Error: invalid AST file " ++ name ++ ": " ++ fault.message ++ "\n")) := by
  rw [readTree, run_bind, run_readText stream holds]
  simp only [isFault]
  exact run_stop stream 1 _

theorem run_prepared {action : Action (StateM World) Unit}
    (writable : 0 < verbosity → world.Writable debugFile) :
    run (prepared stream verbosity action) world = run action (world.readied verbosity) := by
  unfold prepared readied
  split
  next logs => rw [run_bind, run_writeFile stream (writable logs)]
  · rfl

theorem holds_readied (holds : world.Holds name text)
    (apart : 0 < verbosity → debugFile ≠ (Path.ofText name).toString) :
    (world.readied verbosity).Holds name text := by
  unfold readied
  split
  next logs => exact holds_store_other (apart logs) holds ""
  · exact holds

section

variable [CharacterNames]

/-- How an invocation ends, and the world that it leaves. -/
def invoked (stream : Stream) (world : World) (draws : Nat → Float) (args : List String) :
    Exit × World :=
  StateT.run (invoke (system stream) draws args) world

theorem invoked_eq {draws : Nat → Float} {args : List String} {options : Options} {exit : Exit}
    {after : World} (asked : Invocation.ofArguments args = .ok (.act options))
    (ended : run (act (system stream) draws options) world = (.error exit, after)) :
    world.invoked stream draws args = (exit, after) := by
  unfold run at ended
  simp only [invoked, invoke, asked]
  rw [StateT.run_bind, ended]
  rfl

/-- The arguments ask to run what is in a file, and the file holds a document. Where the command
logs, it does so to another file. -/
structure Offers (world : World) (args : List String) (options : Options) (name text : String)
    (d : Document) : Prop where
  asked : Invocation.ofArguments args = .ok (.act options)
  noDocument : nonEmpty options.emitTree = none
  noScript : nonEmpty options.emitScript = none
  named : nonEmpty options.runTree = some name
  holds : world.Holds name text
  json : Document.ofJson text = .ok d
  writable : 0 < options.verbosity → world.Writable debugFile
  apart : 0 < options.verbosity → debugFile ≠ (Path.ofText name).toString

/-- An invocation ends as the reading of the file does, if that ends it. -/
theorem Offers.invoked_eq {args : List String} {options : Options} {d : Document} {exit : Exit}
    {after : World} (offers : world.Offers args options name text d) (draws : Nat → Float)
    (ended : run (readTree (system stream) name) (world.readied options.verbosity) =
      (.error exit, after)) :
    world.invoked stream draws args = (exit, after) := by
  apply World.invoked_eq stream offers.asked
  rw [act_of_runTree stream draws offers.noDocument offers.noScript offers.named,
    run_prepared stream offers.writable, run_bind, ended]

/-- Reading fails without a report exactly where a document trips. So a document that is not an
acceptable program is reported as an invalid file, with exit code 1, exactly if it does not trip;
and if it does, the command crashes. -/
theorem bad_documents_reported_iff (d : Document) :
    ((∃ form, ofDocument d = .error (.compoundForm form)) ↔ d.Trips) ∧
    ∀ (stream : Stream) (world : World) (draws : Nat → Float) (args : List String)
      (options : Options) (name text : String), world.Offers args options name text d →
      ¬ (d.Conforms ∧ d.form? = some .program) →
      ((∃ fault, programOf (.ok text) = .error fault ∧
          world.invoked stream draws args =
            (.code 1, (world.readied options.verbosity).complained
              ("Error: invalid AST file " ++ name ++ ": " ++ fault.message ++ "\n"))) ↔
        ¬ d.Trips) ∧
      ((∃ form, world.invoked stream draws args =
          (.crash (.badTree (.compoundForm form)), world.readied options.verbosity)) ↔
        d.Trips) := by
  refine ⟨Loaded.compoundForm_iff_trips d, ?_⟩
  intro stream world draws args options name text offers unacceptable
  have holds := holds_readied offers.holds offers.apart
  by_cases trips : d.Trips
  -- each end rules out the other one
  · obtain ⟨form, isFault⟩ := programOf_of_trips offers.json trips
    have crashed :=
      offers.invoked_eq stream draws (run_readTree_of_compoundForm stream holds isFault)
    simp [crashed, trips]
  · obtain ⟨fault, isFault, reported⟩ :=
      programOf_of_unacceptable offers.json unacceptable trips
    have ended :=
      offers.invoked_eq stream draws (run_readTree_of_fault stream holds isFault reported)
    simp [ended, trips, isFault]

end

/-- A world with a single file, which is to be run. -/
def single (text : String) : World where
  files path := if path = "t.json" then .ok (Text.Utf8.encode text) else .error .missing
  output := ""
  errors := ""

theorem offers_single {d : Document} (unbroken : '\r' ∉ text.toList)
    (json : Document.ofJson text = .ok d) :
    (single text).Offers ["--ast", "t.json"] { Options.initial with runTree := some "t.json" }
      "t.json" text d where
  asked := by decide
  noDocument := rfl
  noScript := rfl
  named := by decide
  holds := by
    have path : (Path.ofText "t.json").toString = "t.json" := by decide
    exact holds_of_encoded (by simp [single, path]) unbroken
  json := json
  writable logs := absurd logs (by decide)
  apart logs := absurd logs (by decide)

/-- An object that names its form by an empty list is not reported. -/
theorem list_as_form_is_not_reported :
    let _ : CharacterNames := .none
    let text := "\x7b\"type\": []\x7d"
    let d : Document := .object [("type", .list [])]
    ofDocument d = .error (.compoundForm (.list [])) ∧
      (single text).invoked .memory (fun _ => 7) ["--ast", "t.json"] =
        (.crash (.badTree (.compoundForm (.list []))), single text) := by
  intro names text d
  have failed : ofDocument d = .error (.compoundForm (.list [])) := rfl
  have json : Document.ofJson text = .ok d := by
    rw [Document.ofJson]
    simp only [text, String.reduceToList]
    rfl
  have offers := offers_single (by decide) json
  have isFault : programOf (.ok text) = .error (.notATree (.compoundForm (.list []))) := by
    simp only [programOf, json, failed]
  exact ⟨failed,
    offers.invoked_eq _ _ (run_readTree_of_compoundForm _ offers.holds isFault)⟩

/-- A list in which an object with such a form comes after an acceptable one, and an object without
a form. -/
theorem bad_documents_reported_iff_list :
    let _ : CharacterNames := .none
    let text := "[\x7b\"type\": \"Break\"\x7d, \x7b\"type\": []\x7d]"
    let invoked (world : World) := world.invoked .memory (fun _ => 7) ["--ast", "t.json"]
    (∃ form, invoked (single text) = (.crash (.badTree (.compoundForm form)), single text)) ∧
    (∃ fault, invoked (single "\x7b\x7d") =
      (.code 1, (single "\x7b\x7d").complained
        ("Error: invalid AST file t.json: " ++ TreeFault.message fault ++ "\n"))) := by
  intro names text invoked
  constructor
  · let d : Document := .list [.object [("type", .text "Break")], .object [("type", .list [])]]
    have json : Document.ofJson text = .ok d := by
      rw [Document.ofJson]
      simp only [text, String.reduceToList]
      rfl
    have trips := (bad_documents_reported_iff d).1.1 ⟨.list [], rfl⟩
    have offers := offers_single (by decide) json
    apply ((bad_documents_reported_iff d).2 _ _ (fun _ => 7) _ _ _ _ offers _).2.2 trips
    rintro ⟨-, isProgram⟩
    cases isProgram
  · have json : Document.ofJson "\x7b\x7d" = .ok (.object []) := rfl
    have smooth : ¬ (Document.object []).Trips := by
      rw [← (bad_documents_reported_iff _).1]
      rintro ⟨form, failed⟩
      cases failed
    have offers := offers_single (by decide) json
    have unacceptable :
        ¬ ((Document.object []).Conforms ∧ (Document.object []).form? = some .program) := by
      rintro ⟨-, isProgram⟩
      cases isProgram
    obtain ⟨fault, -, ended⟩ :=
      ((bad_documents_reported_iff _).2 _ _ (fun _ => 7) _ _ _ _ offers unacceptable).1.2 smooth
    exact ⟨fault, ended⟩

end World

end Command

end YapLang
