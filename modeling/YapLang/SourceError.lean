import YapLang.Token

/-!
# Errors in source text

Reading source text stops at the first fault. An error keeps its cause; what was expected, what was
found, where, and the message are all read off it.
-/
namespace YapLang

/-- What has to be a name: the left side of an assignment, or the operand of an update. -/
inductive TargetUse where
  | assignment
  | update
  deriving DecidableEq, Repr

def TargetUse.complaint : TargetUse → String
  | assignment => "invalid assignment target"
  | update => "invalid update target"

inductive SourceError where
  /-- No token starts with this character. -/
  | noToken (c : Char) (position : Position)
  /-- The token, or the end of input, does not fit. -/
  | unexpected (expected : String) (found : Option Token) (position : Position)
  /-- A jump that no loop of the same function encloses. -/
  | strayJump (jump : Token)
  /-- A target that is not a name; the place is where it starts. -/
  | badTarget (use : TargetUse) (position : Position)
  /-- The nesting limit is reached. -/
  | nestedTooDeeply
  /-- A number token whose text is not a number. Source text has none. -/
  | badNumber (text : String)
  /-- A string token with a set or a dictionary that a datum of this kind cannot be part of. Source
  text has none. -/
  | unhashable (kind : String)
  deriving DecidableEq, Repr

namespace SourceError

def foundText : Option Token → String
  | some t => t.describe
  | none => "end of input"

/-- The place of an error, where it has one. -/
def position? : SourceError → Option Position
  | noToken _ p => some p
  | unexpected _ _ p => some p
  | strayJump jump => some jump.position
  | badTarget _ p => some p
  | nestedTooDeeply => none
  | badNumber _ => none
  | unhashable _ => none

/-- What would have fitted, and what stands there instead. -/
def expectedFound? : SourceError → Option (String × String)
  | noToken c _ => some ("token", Text.quoted c.toString)
  | unexpected expected found _ => some (expected, foundText found)
  | strayJump jump => some ("statement", jump.describe)
  | badTarget use _ => some ("identifier", use.complaint)
  | nestedTooDeeply => none
  | badNumber _ => none
  | unhashable _ => none

def complaint (e : SourceError) : String :=
  match e with
  | strayJump jump => "'" ++ jump.text ++ "' outside of a loop"
  | badTarget use _ => use.complaint
  | nestedTooDeeply => "expression nested too deeply"
  | badNumber text => "could not convert string to float: " ++ Text.quoted text
  | unhashable kind => "unhashable type: '" ++ kind ++ "'"
  | noToken .. | unexpected .. =>
    match e.expectedFound? with
    | some (expected, found) => "expected " ++ expected ++ " but found " ++ found
    | none => ""

def message (e : SourceError) : String :=
  match e.position? with
  | some p => e.complaint ++ " at " ++ p.toString
  | none => e.complaint

end SourceError

end YapLang
