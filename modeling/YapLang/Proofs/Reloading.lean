import YapLang.Proofs.JsonText
import YapLang.Proofs.PathText
import YapLang.Proofs.ProperTrees
import YapLang.Proofs.TreeDocuments
import YapLang.Proofs.Utf8Text

/-!
# Programs that are written out and run from there

The document of a program from source text is written as JSON and read back as the same program: the
file that holds it is decoded, its lines end as they were written, the text is read as the document,
and the document as the tree. So to run the file is to run the program. Files and streams are those
of a system in memory.
-/
namespace YapLang

/-! ### Documents of source text -/

namespace Node

open Document (Plain)
open YapLang.Tree (document)

theorem plain_form {form : Tree.Form} {fields : List (Text × Document)}
    (distinct : (("type" : Text) :: fields.map Prod.fst).Nodup)
    (names : ∀ field ∈ fields, field.1.IsWhole) (each : ∀ field ∈ fields, field.2.Plain) :
    (Tree.formDocument form fields).Plain := by
  refine Plain.object (by simpa using distinct) ?_ ?_
  · rw [List.forall_mem_cons]
    exact ⟨rfl, names⟩
  · rw [List.forall_mem_cons]
    exact ⟨.text rfl, each⟩

theorem plain_identifier {name : Text} (isWhole : name.IsWhole) :
    (Tree.identifierDocument name).Plain :=
  plain_form (by simp) (by simp [Text.isWhole_string]) (by simp [Plain.text isWhole])

theorem plain_documents {trees : List Node} (each : ∀ tree ∈ trees, (document .text tree).Plain) :
    (Document.list (Tree.documents .text trees)).Plain := by
  rw [Loaded.documents_eq_map]
  apply Plain.list
  intro d member
  obtain ⟨tree, isTree, rfl⟩ := List.mem_map.1 member
  exact each tree isTree

theorem plain_block {body : List Node} (each : ∀ s ∈ body, (document .text s).Plain) :
    (Tree.blockDocument .text body).Plain := by
  rw [Tree.blockDocument]
  exact plain_form (by simp) (by simp [Text.isWhole_string]) (by simpa using plain_documents each)

theorem plain_optional {tree : Option Node}
    (each : ∀ part, tree = some part → (document .text part).Plain) :
    (Tree.optionalDocument .text tree).Plain := by
  cases tree with
  | none =>
    rw [Tree.optionalDocument]
    exact .null
  | some tree =>
    rw [Tree.optionalDocument]
    exact each tree rfl

/-- The texts that a node has itself. -/
def spellings : Node → List Text
  | .function name params _ => name :: params
  | .declaration name _ | .identifier name | .property _ name => [name]
  | .text value => [value]
  | .binary op .. | .logical op .. | .unary op _ => [op]
  | .assignment target _ => [target]
  | .update op target => [op, target]
  | _ => []

/-- A document is plain if those of the parts are, and what the tree has itself. -/
theorem plain_of_parts {tree : Node}
    (number : ∀ value, tree = .number value → (Tree.numberDocument value).Plain)
    (spelled : ∀ s ∈ tree.spellings, s.IsWhole)
    (parts : ∀ part ∈ tree.parts, (document .text part).Plain) : (document .text tree).Plain := by
  cases tree
  all_goals
    simp only [Tree.parts, List.forall_mem_cons, List.forall_mem_append, Option.mem_toList] at parts
    simp only [spellings, List.forall_mem_cons] at spelled
    rw [document]
    -- the names of fields are given by the form: they are distinct, and strings
    apply plain_form (by simp) (by simp [Text.isWhole_string])
  case program | block | array => simpa using plain_documents parts
  case function name params body =>
    have texts : (Document.list (params.map .text)).Plain := by
      apply Plain.list
      simpa using fun s member => Plain.text (spelled.2 s member)
    simp [Plain.text spelled.1, texts, plain_block parts]
  case declaration => simp [Plain.text spelled.1, plain_optional parts]
  case conditional =>
    obtain ⟨test, consequent, alternate⟩ := parts
    simp [test, plain_block consequent, plain_optional alternate]
  case forLoop =>
    obtain ⟨⟨⟨init, test⟩, update⟩, body⟩ := parts
    simp [plain_optional init, plain_optional test, plain_optional update, plain_block body]
  case whileLoop => simp [parts.1, plain_block parts.2]
  case returning => simp [plain_optional parts]
  case number => simpa using number _ rfl
  case call => simp [parts.1, plain_documents parts.2]
  case assignment => simp [plain_identifier spelled.1, parts.1]
  case update => simp [Plain.text spelled.1, plain_identifier spelled.2.1]
  case property => simp [parts.1, plain_identifier spelled.1, Plain.bool]
  case text | identifier => simp [Plain.text spelled.1]
  all_goals simp [Plain.text, Plain.bool, spelled, parts]

/-- Names and operators of source text are strings. -/
theorem spellings_of_properExpression {e : Node} (proper : ProperExpression e)
    (texts : ∀ s, e = .text s → s.IsWhole) : ∀ s ∈ e.spellings, s.IsWhole := by
  cases proper <;> simp [spellings, Text.isWhole_string]
  exact texts _ rfl

theorem spellings_of_properStatement {inLoop : Bool} {s : Node}
    (proper : ProperStatement inLoop s) : ∀ text ∈ s.spellings, text.IsWhole := by
  cases proper <;> simp [spellings, Text.isWhole_string]

/-- The numbers of a program from source text are doubles that are not negative. -/
theorem plain_of_proper {tree : Node} (texts : ∀ s, tree.Occurs (.text s) → s.IsWhole) (node : Node)
    (occurs : tree.Occurs node)
    (proper : ProperExpression node ∨ ∃ inLoop, ProperStatement inLoop node) :
    (document .text node).Plain := by
  induction node using Tree.parts_induction with
  | step node ih =>
    apply plain_of_parts
    · rintro value rfl
      rcases proper with expression | ⟨_, statement⟩
      · cases expression with
        | number bound => exact .double bound
      · cases statement
    · rcases proper with expression | ⟨_, statement⟩
      -- literals are the only texts that can have halves
      · exact spellings_of_properExpression expression fun s same => texts s (same ▸ occurs)
      · exact spellings_of_properStatement statement
    · intro part member
      apply ih part member (occurs.part member)
      rcases proper with expression | ⟨_, statement⟩
      · exact .inl (expression.parts member)
      · exact statement.parts member

theorem plain_of_ofSource [CharacterNames] {source : String} {tree : Node}
    (parsed : ofSource source = .ok tree) (texts : ∀ s, tree.Occurs (.text s) → s.IsWhole) :
    tree.toDocument.Plain := by
  obtain ⟨body, rfl, statements⟩ := proper_of_ofSource parsed
  apply plain_of_parts
  · rintro value ⟨⟩
  · simp [spellings]
  · intro part member
    exact plain_of_proper texts part (Tree.Occurs.whole.part member)
      (.inr ⟨false, statements part member⟩)

end Node

namespace Command

/-! ### A system in memory -/

/-- Files and streams in memory. -/
structure World where
  /-- What is read at a path. -/
  files : String → Except FileFault (List UInt8)
  output : Text
  errors : String

namespace World

def store (world : World) (path text : String) : World :=
  { world with
    files := fun other =>
      if other = path then .ok (Text.Utf8.encode text) else world.files other }

/-- There is a file, or nothing that keeps a file from being made. -/
def Writable (world : World) (path : String) : Prop :=
  world.files path = .error .missing ∨ ∃ bytes, world.files path = .ok bytes

def system (stream : Stream) : System (StateM World) where
  stream := stream
  read path := fun world => (world.files path, world)
  write path text := fun world =>
    match world.files path with
    | .ok _ | .error .missing => (.ok (), world.store path text)
    | .error fault => (.error fault, world)
  print text := fun world => ((), { world with output := world.output ++ text })
  complain text := fun world => ((), { world with errors := world.errors ++ text })

/-- What an action gives, and the world that it leaves. -/
def run {α : Type} (action : Action (StateM World) α) (world : World) : Except Exit α × World :=
  StateT.run (ExceptT.run action) world

/-- The text of a file as it is read: decoded, with line feeds for all line ends. -/
def Holds (world : World) (name text : String) : Prop :=
  ∃ bytes cs, world.files (Path.ofText name).toString = .ok bytes ∧
    Text.Utf8.decode bytes = .ok cs ∧ text = String.ofList (Text.unifyLineEnds cs)

variable {α β : Type} {world : World} {name path text : String} (stream : Stream)

theorem run_bind (action : Action (StateM World) α) (next : α → Action (StateM World) β)
    (world : World) :
    run (action >>= next) world =
      match run action world with
      | (.ok a, after) => run (next a) after
      | (.error exit, after) => (.error exit, after) := by
  show (ExceptT.bindCont next <| (StateT.run (ExceptT.run action) world).1 : StateM World _)
    (StateT.run (ExceptT.run action) world).2 = _
  unfold run
  rcases StateT.run (ExceptT.run action) world with ⟨_ | _, after⟩ <;> rfl

theorem run_read (path : String) (world : World) :
    run (ExceptT.lift ((system stream).read path)) world = (.ok (world.files path), world) := rfl

theorem run_writeFile (writable : world.Writable path) (text : String) :
    run (writeFile (system stream) path text) world = (.ok (), world.store path text) := by
  have written : run (ExceptT.lift ((system stream).write path text)) world =
      (.ok (.ok ()), world.store path text) := by
    show (Except.ok ((system stream).write path text world).1,
      ((system stream).write path text world).2) = _
    rcases writable with missing | ⟨bytes, found⟩
    · simp [system, missing]
    · simp [system, found]
  rw [writeFile, run_bind, written]
  rfl

/-- A file that cannot be written ends the command and stays as it is. -/
theorem run_writeFile_or (world : World) (path text : String) :
    run (writeFile (system stream) path text) world = (.ok (), world.store path text) ∨
      ∃ exit, run (writeFile (system stream) path text) world = (.error exit, world) := by
  by_cases writable : world.Writable path
  · exact .inl (run_writeFile stream writable text)
  · right
    obtain ⟨fault, found, present⟩ :
        ∃ fault, world.files path = .error fault ∧ fault ≠ .missing := by
      unfold Writable at writable
      cases found : world.files path <;> simp_all
    have kept : run (ExceptT.lift ((system stream).write path text)) world =
        (.ok (.error fault), world) := by
      show (Except.ok ((system stream).write path text world).1,
        ((system stream).write path text world).2) = _
      cases fault <;> simp_all [system]
    rw [writeFile, run_bind, kept]
    exact ⟨_, rfl⟩

theorem holds_store_other {other : String} (apart : other ≠ (Path.ofText name).toString)
    (holds : world.Holds name text) (new : String) : (world.store other new).Holds name text := by
  obtain ⟨bytes, cs, found, decoded, isText⟩ := holds
  refine ⟨bytes, cs, ?_, decoded, isText⟩
  simp [store, apart.symm, found]

/-- Text without carriage returns is read as it was encoded. -/
theorem holds_of_encoded
    (found : world.files (Path.ofText name).toString = .ok (Text.Utf8.encode text))
    (unbroken : '\r' ∉ text.toList) : world.Holds name text := by
  refine ⟨Text.Utf8.encode text, text.toList, found, Text.Utf8.decode_encode text, ?_⟩
  rw [Text.unifyLineEnds_eq_self unbroken, String.ofList_toList]

theorem holds_store (world : World) (isPath : (Path.ofText name).toString = path)
    (unbroken : '\r' ∉ text.toList) : (world.store path text).Holds name text := by
  apply holds_of_encoded _ unbroken
  simp [store, isPath]

/-- Files do not depend on what was printed. -/
theorem holds_of_files {other : World} (same : other.files = world.files)
    (holds : world.Holds name text) : other.Holds name text := by
  unfold Holds
  rw [same]
  exact holds

theorem run_readText (holds : world.Holds name text) :
    run (readText (system stream) name) world = (.ok (.ok text), world) := by
  obtain ⟨bytes, cs, found, decoded, rfl⟩ := holds
  rw [readText, run_bind, run_read stream, found]
  simp only [decoded]
  rfl

theorem run_readProgram [CharacterNames] {tree : Node} (holds : world.Holds name text)
    (parsed : Node.ofSource text = .ok tree) :
    run (readProgram (system stream) name) world = (.ok tree, world) := by
  rw [readProgram, run_bind, run_readText stream holds]
  simp only [parsed]
  rfl

theorem run_readTree {body : List Node} (holds : world.Holds name text)
    (isProgram : programOf (.ok text) = .ok body) :
    run (readTree (system stream) name) world = (.ok body, world) := by
  rw [readTree, run_bind, run_readText stream holds]
  simp only [isProgram]
  rfl

/-! ### Emitting and running -/

/-- What is written of a program is read as that program. -/
theorem programOf_plainJson {body : List Node} (plain : (Node.toDocument (.program body)).Plain) :
    programOf (.ok (Node.toDocument (.program body)).plainJson) = .ok body := by
  have read := Document.ofJson_plainJson plain
  have loaded : Loaded.ofDocument (Node.toDocument (.program body)) = .ok (.node (.program body)) :=
    Loaded.ofDocument_document _
  simp only [programOf, read, loaded]

/-- Where the document of a program is written. -/
def documentFile (name : String) : String :=
  ((Path.ofText name).extend treeSuffix).toString

/-- The world after the document of a program was written and its path was printed. -/
def emitted (world : World) (name json : String) : World :=
  { world.store (documentFile name) json with
    output := world.output ++ (documentFile name ++ "\n" : String) }

theorem files_emitted (world : World) (name json : String) :
    (world.emitted name json).files = (world.store (documentFile name) json).files := rfl

theorem run_emitTree [CharacterNames] {source : String} {tree : Node}
    (holds : world.Holds name source) (parsed : Node.ofSource source = .ok tree)
    (plain : tree.toDocument.Plain) (writable : world.Writable (documentFile name)) :
    run (emitTree (system stream) name) world =
      (.ok (), world.emitted name tree.toDocument.plainJson) := by
  rw [emitTree, run_bind, run_readProgram stream holds parsed]
  dsimp only
  rw [run_bind, ← documentFile, Document.writtenParts_jsonParts plain,
    run_writeFile stream writable]
  rfl

theorem holds_emitted_program {source : String} (holds : world.Holds name source) (json : String) :
    (world.emitted name json).Holds name source := by
  -- the document does not take the place of the program
  have stored := holds_store_other (Path.extend_ne_self _) holds json
  exact holds_of_files (files_emitted world name json) stored

theorem toString_ofText_documentFile (name : String) :
    (Path.ofText (documentFile name)).toString = documentFile name := by
  rw [documentFile, Path.ofText_toString_extend]

theorem holds_emitted_document {json : String} (world : World) (name : String)
    (unbroken : '\r' ∉ json.toList) : (world.emitted name json).Holds (documentFile name) json := by
  have stored := world.holds_store (toString_ofText_documentFile name) unbroken
  exact holds_of_files (files_emitted world name json) stored

/-- Every invocation that logs starts by emptying the debug file. -/
def prepared (stream : Stream) (verbosity : Nat) (action : Action (StateM World) Unit) :
    Action (StateM World) Unit :=
  if 0 < verbosity then do
    writeFile (system stream) debugFile ""
    action
  else action

/-- Actions that run alike after the debug file was emptied, if it has to be and can be. -/
theorem run_prepared_congr (verbosity : Nat) {first second : Action (StateM World) Unit}
    (plainly : run first world = run second world)
    (emptied : 0 < verbosity →
      run first (world.store debugFile "") = run second (world.store debugFile "")) :
    run (prepared stream verbosity first) world = run (prepared stream verbosity second) world := by
  unfold prepared
  split
  next logs =>
    rw [run_bind, run_bind]
    -- if the debug file cannot be emptied, both end there
    rcases run_writeFile_or stream world debugFile "" with written | ⟨exit, refused⟩
    · rw [written]
      exact emptied logs
    · rw [refused]
  · exact plainly

section

variable [CharacterNames] (draws : Nat → Float) (verbosity : Nat)

/-- A file with a document is run, whatever else is asked for besides writing one out. -/
theorem act_of_runTree {options : Options} {file : String}
    (noDocument : nonEmpty options.emitTree = none) (noScript : nonEmpty options.emitScript = none)
    (named : nonEmpty options.runTree = some file) :
    act (system stream) draws options =
      prepared stream options.verbosity (do
        let body ← readTree (system stream) file
        execute (system stream) draws options.verbosity body) := by
  simp only [act, noDocument, noScript, named]
  rfl

theorem act_runTree {file : String} (named : file ≠ "") :
    act (system stream) draws { Options.initial with verbosity, runTree := some file } =
      prepared stream verbosity (do
        let body ← readTree (system stream) file
        execute (system stream) draws verbosity body) :=
  act_of_runTree stream draws rfl rfl (by simp [nonEmpty, named])

theorem act_program (named : name ≠ "") :
    act (system stream) draws { Options.initial with verbosity, program := some name } =
      prepared stream verbosity (do
        let tree ← readProgram (system stream) name
        match tree.statements with
        | .ok body => execute (system stream) draws verbosity body
        | .error _ => pure ()) := by
  have isNamed : nonEmpty (some name) = some name := by simp [nonEmpty, named]
  simp only [act, Options.initial, isNamed]
  rfl

theorem act_emitTree (named : name ≠ "") :
    act (system stream) draws { Options.initial with emitTree := some name } =
      emitTree (system stream) name := by
  have isNamed : nonEmpty (some name) = some name := by simp [nonEmpty, named]
  simp only [act, Options.initial, isNamed]
  rfl

/-- Where a program and its document are, to run one is to run the other. -/
theorem run_alike {source json file : String} {body : List Node} (program : world.Holds name source)
    (parsed : Node.ofSource source = .ok (.program body)) (document : world.Holds file json)
    (isProgram : programOf (.ok json) = .ok body) :
    run (do
        let body ← readTree (system stream) file
        execute (system stream) draws verbosity body) world =
      run (do
        let tree ← readProgram (system stream) name
        match tree.statements with
        | .ok body => execute (system stream) draws verbosity body
        | .error _ => pure ()) world := by
  rw [run_bind, run_bind, run_readTree stream document isProgram,
    run_readProgram stream program parsed]
  rfl

end

/-- A program from source text, without halves of characters in its strings, is the program that is
read from its document. To run the file with the document is therefore to run the program, if the
program is not in the file that is emptied first. -/
theorem emitted_program_is_kept [CharacterNames] (source : String) (tree : Node)
    (parsed : Node.ofSource source = .ok tree) (texts : ∀ s, tree.Occurs (.text s) → s.IsWhole) :
    ∃ (body : List Node) (json : String), tree = .program body ∧ tree.toDocument.toJson = json ∧
      Text.Utf8.decode (Text.Utf8.encode json) = .ok json.toList ∧
      Text.unifyLineEnds json.toList = json.toList ∧
      Document.ofJson json = .ok tree.toDocument ∧
      Loaded.ofDocument tree.toDocument = .ok (.node tree) ∧
      programOf (.ok json) = .ok body ∧
      ∀ (stream : Stream) (world : World) (name : String) (draws : Nat → Float) (verbosity : Nat),
        name ≠ "" → world.Holds name source → world.Writable (documentFile name) →
        (0 < verbosity → debugFile ≠ (Path.ofText name).toString) →
        run (act (system stream) draws { Options.initial with emitTree := some name }) world =
            (.ok (), world.emitted name json) ∧
          run (act (system stream) draws
              { Options.initial with verbosity, runTree := some (documentFile name) })
              (world.emitted name json) =
            run (act (system stream) draws
                { Options.initial with verbosity, program := some name })
              (world.emitted name json) := by
  have plain := Node.plain_of_ofSource parsed texts
  have unbroken := Document.return_not_mem_plainJson plain
  obtain ⟨body, rfl, -⟩ := Node.proper_of_ofSource parsed
  have isProgram := programOf_plainJson plain
  refine ⟨body, (Node.toDocument (.program body)).plainJson, rfl, Document.toJson_eq plain,
    Text.Utf8.decode_encode _, Text.unifyLineEnds_eq_self unbroken,
    Document.ofJson_plainJson plain, Loaded.ofDocument_document _, isProgram, ?_⟩
  intro stream world name draws verbosity named holds writable apart
  have program := holds_emitted_program holds (Node.toDocument (.program body)).plainJson
  have document := holds_emitted_document world name unbroken
  constructor
  · rw [act_emitTree stream draws named]
    exact run_emitTree stream holds parsed plain writable
  · have documentNamed : documentFile name ≠ "" := Path.toString_extend_ne_empty _
    rw [act_runTree stream draws verbosity documentNamed, act_program stream draws verbosity named]
    apply run_prepared_congr stream verbosity
    · exact run_alike stream draws verbosity program parsed document isProgram
    · intro logs
      -- nor is the document in the file that is emptied
      have other : debugFile ≠ (Path.ofText (documentFile name)).toString := by
        rw [toString_ofText_documentFile]
        exact (Path.extend_ne_debugFile _).symm
      exact run_alike stream draws verbosity (holds_store_other (apart logs) program "") parsed
        (holds_store_other other document "") isProgram

/-- A program with a carriage return, a quote and a letter beyond ASCII in a string, from a file
whose path is not named as it is shown. -/
theorem emitted_program_is_kept_escapes :
    let _ : CharacterNames := .none
    let source := "yapping('\\r\\\"é');"
    let call : Node := .call (.identifier "yapping") [.text "\r\"é"]
    let tree : Node := .program [.statement call]
    let world : World :=
      { files := fun path =>
          if path = "a/p.yap" then .ok (Text.Utf8.encode source) else .error .missing
        output := ""
        errors := "" }
    let invoked (options : Options) := run (act (system (.encoded .utf8)) (fun _ => 7) options)
    Node.ofSource source = .ok tree ∧ (∀ s, tree.Occurs (.text s) → s.IsWhole) ∧
      world.Holds "./a//p.yap" source ∧
      ∃ json : String, tree.toDocument.toJson = json ∧
        Document.ofJson json = .ok tree.toDocument ∧
        Loaded.ofDocument tree.toDocument = .ok (.node tree) ∧
        invoked { Options.initial with emitTree := some "./a//p.yap" } world =
          (.ok (), world.emitted "./a//p.yap" json) ∧
        invoked { Options.initial with verbosity := 2, runTree := some "a/p.yap.ast.json" }
            (world.emitted "./a//p.yap" json) =
          invoked { Options.initial with verbosity := 2, program := some "./a//p.yap" }
            (world.emitted "./a//p.yap" json) := by
  intro names source call tree world invoked
  have parsed : Node.ofSource source = .ok tree := by
    rw [Node.ofSource, Token.scan]
    simp only [source, String.reduceToList]
    rfl
  have nodes : ∀ node, tree.Occurs node →
      node ∈ [tree, .statement call, call, .identifier "yapping", .text "\r\"é"] := by
    intro node occurs
    induction occurs with
    | whole => simp
    | part _ member ih =>
      simp only [List.mem_cons, List.not_mem_nil, or_false] at ih
      rcases ih with rfl | rfl | rfl | rfl | rfl <;> simp_all [Tree.parts, tree, call]
  have texts : ∀ s, tree.Occurs (.text s) → s.IsWhole := by
    intro s occurs
    obtain rfl : s = "\r\"é" := by simpa [tree, call] using nodes _ occurs
    rfl
  have holds : world.Holds "./a//p.yap" source := by
    have unbroken : '\r' ∉ source.toList := by decide
    have path : (Path.ofText "./a//p.yap").toString = "a/p.yap" := by decide
    exact holds_of_encoded (by simp [world, path]) unbroken
  have file : documentFile "./a//p.yap" = "a/p.yap.ast.json" := by decide
  have writable : world.Writable (documentFile "./a//p.yap") := by
    left
    simp [world, file]
  obtain ⟨_, json, -, isJson, -, -, read, loaded, -, kept⟩ :=
    emitted_program_is_kept source tree parsed texts
  obtain ⟨written, alike⟩ :=
    kept (.encoded .utf8) world "./a//p.yap" (fun _ => 7) 2 (by decide) holds writable (by decide)
  rw [file] at alike
  exact ⟨parsed, texts, holds, json, isJson, read, loaded, written, alike⟩

end World

end Command

end YapLang
