import YapLang.Command.Options
import YapLang.Command.Path
import YapLang.Document.Json
import YapLang.Machine.Start
import YapLang.Tree.Document
import YapLang.Tree.Reading
import YapLang.Script
import YapLang.Text.Utf8

/-!
# What an invocation does

A program is run, written out as a document or as a script, or run from a document. Files and
streams are reached through a record of operations, so that the same rules hold for any system that
has them.
-/
namespace YapLang.Command

/-- Why a file cannot be read or written. -/
inductive FileFault where
  | missing
  | isDirectory
  | notDirectory
  | other (reason : String)
  deriving DecidableEq, Repr

def FileFault.reason : FileFault → String
  | missing => "No such file or directory"
  | isDirectory => "Is a directory"
  | notDirectory => "Not a directory"
  | other reason => reason

/-- What a system offers to the command. -/
structure System (m : Type → Type) where
  /-- Where programs print. -/
  stream : Stream
  read : String → m (Except FileFault (List UInt8))
  /-- Replaces the text of a file. -/
  write : String → String → m (Except FileFault Unit)
  print : Text → m Unit
  complain : String → m Unit

/-- What ends the command without a message of its own. -/
inductive Crash where
  | undecodable (bytes : Text.Utf8.Malformed)
  | cannotWrite (cause : FileFault) (path : String)
  | unencodable (cause : Text.Unencodable)
  | badTree (error : LoadError)
  | fault (cause : Fault)
  deriving Repr

/-- How many bytes a decoder names, and where. -/
def malformedMessage (e : Text.Utf8.Malformed) : String :=
  let place :=
    if e.count = 1 then
      "byte 0x" ++ String.ofList (Text.hex 2 e.first.toNat) ++ " in position " ++ toString e.offset
    else
      "bytes in position " ++ toString e.offset ++ "-" ++ toString (e.offset + e.count - 1)
  "'utf-8' codec can't decode " ++ place ++ ": " ++ e.reason.text

/-- The number of an error of the file system. -/
def FileFault.number : FileFault → Nat
  | missing => 2
  | isDirectory => 21
  | notDirectory => 20
  | other _ => 5

def Crash.message : Crash → String
  | undecodable bytes => malformedMessage bytes
  | cannotWrite cause path =>
    "[Errno " ++ toString cause.number ++ "] " ++ cause.reason ++ ": " ++ Text.quoted path
  | unencodable cause => cause.message
  | badTree error => error.message
  | fault cause => cause.message.withoutHalves

/-- How the command ends. -/
inductive Exit where
  | code (n : Nat)
  | crash (cause : Crash)
  deriving Repr

/-- The kinds of faults, as the command names them. -/
def faultName : Fault.Kind → String
  | .reference => "ReferenceError"
  | .type => "TypeError"
  | .arity => "ArityError"
  | .runtime => "RuntimeError"
  | .range => "OverflowError"
  | .encoding => "UnicodeEncodeError"

def debugFile : String := "debug.txt"

/-- The debug file holds halves as escapes. -/
def debugLine (entry : LogEntry) : String :=
  "DEBUG yap.interpreter: " ++ entry.message.withoutHalves ++ "\n"

/-- What is added to the name of a program for its document. -/
def treeSuffix : String := ".ast.json"

section

variable {m : Type → Type} [Monad m] [CharacterNames] (system : System m)

/-- An action that may end the command. -/
abbrev Action (m : Type → Type) := ExceptT Exit m

def say (text : Text) : Action m Unit :=
  ExceptT.lift (system.print text)

/-- Ends the command with a message. -/
def stop {α : Type} (code : Nat) (message : String) : Action m α := do
  ExceptT.lift (system.complain (message ++ "\n"))
  throw (.code code)

def refuse {α : Type} (error : UsageError) : Action m α :=
  stop system 2 (usage ++ "yap: error: " ++ error.message)

def writeFile (path text : String) : Action m Unit := do
  match ← ExceptT.lift (system.write path text) with
  | .ok () => pure ()
  | .error fault => throw (.crash (.cannotWrite fault path))

/-- Reads a file and decodes it; each way of ending a line counts as a line feed. -/
def readText (name : String) : Action m (Except Text.Utf8.Malformed String) := do
  let path := (Path.ofText name).toString
  match ← ExceptT.lift (system.read path) with
  | .error fault => stop system 1 ("Error: cannot read " ++ path ++ ": " ++ fault.reason)
  | .ok bytes =>
    match Text.Utf8.decode bytes with
    | .ok cs => return .ok (String.ofList (Text.unifyLineEnds cs))
    | .error fault => return .error fault

/-- Reads a file as a program. -/
def readProgram (name : String) : Action m Node := do
  match ← readText system name with
  | .error fault => throw (.crash (.undecodable fault))
  | .ok source =>
    match Node.ofSource source with
    | .ok tree => return tree
    | .error error => stop system 1 ("SyntaxError: " ++ error.message)

/-- Why a document is not a program. -/
inductive TreeFault where
  | undecodable (fault : Text.Utf8.Malformed)
  | notJson (error : Document.JsonError)
  | notATree (error : LoadError)
  | notAProgram

def TreeFault.message : TreeFault → String
  | undecodable fault => malformedMessage fault
  | notJson error => error.message
  | notATree error => error.message
  | notAProgram => "top-level node must be a Program"

/-- The statements of a program in a document. -/
def programOf (text : Except Text.Utf8.Malformed String) : Except TreeFault (List Node) :=
  match text with
  | .error fault => .error (.undecodable fault)
  | .ok text =>
    match Document.ofJson text with
    | .error error => .error (.notJson error)
    | .ok document =>
      match Loaded.ofDocument document with
      | .error error => .error (.notATree error)
      | .ok (.node (.program body)) => .ok body
      | .ok _ => .error .notAProgram

/-- Reads a file as the document of a program. -/
def readTree (name : String) : Action m (List Node) := do
  match programOf (← readText system name) with
  | .ok body => return body
  -- the one fault of a document that is not reported
  | .error (.notATree (.compoundForm form)) => throw (.crash (.badTree (.compoundForm form)))
  | .error fault => stop system 1 ("Error: invalid AST file " ++ name ++ ": " ++ fault.message)

/-- How often a loop of a program may go round before it is given up. -/
def patience : Nat := Nat.pow 2 62

/-- Runs a program: what it printed is printed, and what it logged is written to the debug file. -/
def execute (draws : Nat → Float) (verbosity : Nat) (body : List Node) : Action m Unit := do
  let run := Run.program ⟨verbosity, patience, system.stream⟩ Run.stackLimit
    Machine.globalScope body
  let (halt, final) : Option Halt × Machine :=
    match run.run (Machine.start Machine.builtins draws) with
    | .ok _ final => (none, final)
    | .error halt final => (some halt, final)
  -- what was printed before a fault stays printed
  say system final.output
  if 0 < verbosity then
    writeFile system debugFile (String.join (final.log.toList.map debugLine))
  match halt with
  | none => pure ()
  | some .unfinished => stop system 1 "a loop did not end"
  | some (.fault fault) =>
    -- these two are no errors of the language, and nothing takes them up
    if fault.kind = .range ∨ fault.kind = .encoding then throw (.crash (.fault fault))
    else stop system 1 (faultName fault.kind ++ ": " ++ fault.message.withoutHalves)

/-- Writes a program as a document beside it. -/
def emitTree (name : String) : Action m Unit := do
  let tree ← readProgram system name
  let path := ((Path.ofText name).extend treeSuffix).toString
  let written := Text.writtenParts (tree.toDocument.jsonParts 0)
  -- the file holds what comes before a text that has no code
  writeFile system path written.1
  match written.2 with
  | some cause => throw (.crash (.unencodable cause))
  | none => say system (path ++ "\n")

/-- Prints a program as a script. -/
def emitScript (name : String) : Action m Unit := do
  let tree ← readProgram system name
  match tree.statements with
  | .error _ => pure ()
  | .ok body =>
    match Script.ofStatements body with
    | .ok text => say system text
    | .error fault => stop system 1 fault.message

/-- An empty value counts as none. -/
def nonEmpty (value : Option String) : Option String :=
  value.filter (· ≠ "")

/-- Acts on options. The debug file is emptied before anything else. -/
def act (draws : Nat → Float) (options : Options) : Action m Unit := do
  if 0 < options.verbosity then
    writeFile system debugFile ""
  match nonEmpty options.emitTree, nonEmpty options.emitScript, nonEmpty options.runTree,
    nonEmpty options.program with
  | some name, _, _, _ => emitTree system name
  | none, some name, _, _ => emitScript system name
  | none, none, some name, _ =>
    let body ← readTree system name
    execute system draws options.verbosity body
  | none, none, none, some name =>
    let tree ← readProgram system name
    match tree.statements with
    | .ok body => execute system draws options.verbosity body
    | .error _ => pure ()
  | none, none, none, none => refuse system .noProgram

/-- Runs the command with its arguments. -/
def invoke (draws : Nat → Float) (args : List String) : m Exit := do
  let action : Action m Unit :=
    match Invocation.ofArguments args with
    | .error error => refuse system error
    | .ok .help => say system helpText
    | .ok (.act options) => act system draws options
  match ← action.run with
  | .ok () => return .code 0
  | .error exit => return exit

end

end YapLang.Command
