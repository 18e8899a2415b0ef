import YapLang.Text.Digit
import YapLang.Text.Quoted

/-!
# Command line options

Arguments are first told apart: options, which start with a dash and may be shortened as long as
only one fits, and plain words; after a double dash all are plain. Then they are taken from left to
right. A value may follow its option or stand behind an equals sign. What is left over is refused.
-/
namespace YapLang.Command

inductive Flag where
  | help
  | verbose
  | emitTree
  | runTree
  | emitScript
  deriving DecidableEq, Repr

namespace Flag

/-- The spellings of all flags, in the order in which they are documented. -/
def spellings : List (String × Flag) :=
  [ ("-h", help), ("--help", help), ("-v", verbose), ("--emit-ast", emitTree), ("--ast", runTree),
    ("--emit-js", emitScript) ]

/-- The name of a flag in messages: all its spellings. -/
def name (flag : Flag) : String :=
  String.intercalate "/" ((spellings.filter fun (_, f) => f == flag).map Prod.fst)

def takesValue : Flag → Bool
  | help | verbose => false
  | emitTree | runTree | emitScript => true

def ofSpelling? (text : String) : Option Flag :=
  spellings.lookup text

end Flag

/-- Why arguments are refused. -/
inductive UsageError where
  | ambiguous (text : String) (candidates : List String)
  | noValue (flag : Flag)
  | strayValue (flag : Flag) (value : String)
  | conflict (flag earlier : Flag)
  | unrecognized (texts : List String)
  | noProgram
  deriving DecidableEq, Repr

def UsageError.message : UsageError → String
  | ambiguous text candidates =>
    "ambiguous option: " ++ text ++ " could match " ++ String.intercalate ", " candidates
  | noValue flag => "argument " ++ flag.name ++ ": expected one argument"
  | strayValue flag value =>
    "argument " ++ flag.name ++ ": ignored explicit argument " ++ Text.quoted value
  | conflict flag earlier =>
    "argument " ++ flag.name ++ ": not allowed with argument " ++ earlier.name
  | unrecognized texts => "unrecognized arguments: " ++ String.intercalate " " texts
  | noProgram => "missing program file; or use --emit-ast/--ast/--emit-js"

/-! ### Telling arguments apart -/

/-- An argument. An option comes with its full spelling and the value written behind it. -/
inductive Argument where
  | option (flag : Flag) (spelling : String) (value : Option String)
  | unknown (text : String)
  | plain (text : String)
  | separator
  deriving DecidableEq, Repr

/-- Splits a text at its first equals sign. -/
def splitValue (text : String) : String × Option String :=
  let cs := text.toList
  match cs.dropWhile (· ≠ '=') with
  | _ :: value => (String.ofList (cs.takeWhile (· ≠ '=')), some (String.ofList value))
  | [] => (text, none)

def startsWith (start text : String) : Bool :=
  start.toList.isPrefixOf text.toList

/-- The options that a text may be short for. -/
def candidates (text : String) : List (String × Flag × Option String) :=
  match text.toList with
  | '-' :: '-' :: _ =>
    let (name, value) := splitValue text
    (Flag.spellings.filter fun (spelling, _) => startsWith name spelling).map
      fun (spelling, flag) => (spelling, flag, value)
  -- with a single dash, the letter may have its value right behind it
  | first :: second :: value =>
    Flag.spellings.filterMap fun (spelling, flag) =>
      if spelling = String.ofList [first, second] then
        some (spelling, flag, some (String.ofList value))
      else if startsWith text spelling then some (spelling, flag, none)
      else none
  | _ => []

/-- Whether a text with a dash is a negative number. -/
def isNegativeNumber (text : String) : Bool :=
  match text.toList with
  | '-' :: cs =>
    match cs.dropWhile Text.isDigit with
    | [] => !cs.isEmpty
    | '.' :: fraction => !fraction.isEmpty && fraction.all Text.isDigit
    | _ => false
  | _ => false

/-- The option that a text spells out, with or without a value behind an equals sign. -/
def spelledOut? (text : String) : Option Argument :=
  match Flag.ofSpelling? text with
  | some flag => some (.option flag text none)
  | none =>
    let (name, value) := splitValue text
    match Flag.ofSpelling? name, value with
    | some flag, some value => some (.option flag name (some value))
    | _, _ => none

/-- Tells what a single argument is. -/
def classify (text : String) : Except UsageError Argument :=
  match text.toList with
  | [] | [_] => .ok (.plain text)
  | first :: _ =>
    if first ≠ '-' then .ok (.plain text)
    else
      match spelledOut? text with
      | some argument => .ok argument
      | none =>
        match candidates text with
        | [(spelling, flag, value)] => .ok (.option flag spelling value)
        | [] =>
          -- no option is a negative number or has a blank in it
          if isNegativeNumber text || text.toList.contains ' ' then .ok (.plain text)
          else .ok (.unknown text)
        | several => .error (.ambiguous text (several.map Prod.fst))

/-- Tells arguments apart. -/
def classifyAll : List String → Except UsageError (List Argument)
  | [] => .ok []
  | "--" :: rest => .ok (.separator :: rest.map .plain)
  | text :: rest => do
    let first ← classify text
    let rest ← classifyAll rest
    return first :: rest

/-! ### Taking arguments -/

/-- What the arguments ask for. -/
structure Options where
  verbosity : Nat
  emitTree : Option String
  runTree : Option String
  emitScript : Option String
  program : Option String
  deriving DecidableEq, Repr

def Options.initial : Options := ⟨0, none, none, none, none⟩

/-- An invocation: to explain the options, or to act on them. -/
inductive Invocation where
  | help
  | act (options : Options)
  deriving DecidableEq, Repr

/-- The value that was given to a flag. -/
def Options.given (options : Options) : Flag → Option String
  | .emitTree => options.emitTree
  | .runTree => options.runTree
  | .emitScript => options.emitScript
  | _ => none

/-- The flags of which at most one may be given. -/
def exclusiveFlags : List Flag := [.emitTree, .runTree, .emitScript]

/-- Gives a value to a flag, unless another one of the exclusive flags has a value. -/
def Options.give (options : Options) (flag : Flag) (value : String) : Except UsageError Options :=
  match exclusiveFlags.find? fun other => other ≠ flag && (options.given other).isSome with
  | some earlier => .error (.conflict flag earlier)
  | none =>
    match flag with
    | .emitTree => .ok { options with emitTree := value }
    | .runTree => .ok { options with runTree := value }
    | .emitScript => .ok { options with emitScript := value }
    | _ => .ok options

/-- Flags without values that share a dash: each letter is one of them. -/
def cluster (flag : Flag) : List Char → Except UsageError (List Flag)
  | [] => .ok [flag]
  | letter :: rest =>
    match Flag.ofSpelling? (String.ofList ['-', letter]) with
    | some next => do
      let more ← cluster next rest
      return flag :: more
    | none => .error (.strayValue flag (String.ofList (letter :: rest)))

/-- The flags without values that an option and what is written behind it are. -/
def switches (flag : Flag) (spelling : String) : Option String → Except UsageError (List Flag)
  | none => .ok [flag]
  | some value =>
    if startsWith "--" spelling ∨ value = "" then .error (.strayValue flag value)
    else cluster flag value.toList

/-- Takes arguments from left to right. The first plain word is the program, together with a
separator next to it; further ones are left over. -/
def takeAll (options : Options) (programTaken : Bool) (left : List String) :
    List Argument → Except UsageError Invocation
  | [] => if left.isEmpty then .ok (.act options) else .error (.unrecognized left)
  | .unknown text :: rest => takeAll options programTaken (left ++ [text]) rest
  | .option flag spelling value :: rest =>
    if flag.takesValue then
      match value, rest with
      | some value, rest => do
        takeAll (← options.give flag value) programTaken left rest
      -- the value is the next argument, if that is not an option
      | none, .plain value :: rest => do
        takeAll (← options.give flag value) programTaken left rest
      | none, _ => .error (.noValue flag)
    else do
      let flags ← switches flag spelling value
      -- help is given at once, whatever follows
      if flags.contains .help then return .help
      -- all of the flags are `-v`
      takeAll { options with verbosity := options.verbosity + flags.length } programTaken left rest
  | .separator :: .plain text :: rest =>
    if programTaken then takeAll options true (left ++ ["--", text]) rest
    else takeAll { options with program := text } true left rest
  | .separator :: rest =>
    takeAll options true (if programTaken then left ++ ["--"] else left) rest
  | .plain text :: .separator :: rest =>
    if programTaken then takeAll options true (left ++ [text, "--"]) rest
    else takeAll { options with program := text } true left rest
  | .plain text :: rest =>
    if programTaken then takeAll options true (left ++ [text]) rest
    else takeAll { options with program := text } true left rest

/-- Reads the arguments of a command line. -/
def Invocation.ofArguments (args : List String) : Except UsageError Invocation := do
  takeAll Options.initial false [] (← classifyAll args)

/-! ### Texts -/

def usage : String :=
  "usage: yap [-h] [-v]\n" ++
  "           [--emit-ast YAP_FILE | --ast AST_JSON_FILE | --emit-js YAP_FILE]\n" ++
  "           [program]\n"

def helpText : String :=
  usage ++
  "\nYap language interpreter\n" ++
  "\npositional arguments:\n" ++
  "  program               Yap program file (.yap) to execute\n" ++
  "\noptions:\n" ++
  "  -h, --help            show this help message and exit\n" ++
  "  -v                    increase debug verbosity (can be repeated)\n" ++
  "  --emit-ast YAP_FILE   emit AST JSON for the given .yap file\n" ++
  "  --ast AST_JSON_FILE   execute AST from a JSON file\n" ++
  "  --emit-js YAP_FILE    print the program as JavaScript\n"

end YapLang.Command
