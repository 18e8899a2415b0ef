import YapLang.Command.Invoke

/-!
# The command

The outer layer: the files and streams of the system that the command runs on.
-/
namespace YapLang.Command

/-- The cause of a failed access to a file. -/
def FileFault.ofError : IO.Error → FileFault
  | .noFileOrDirectory .. => missing
  | .inappropriateType _ 20 _ => notDirectory
  | .inappropriateType .. => isDirectory
  | .permissionDenied .. => other "Permission denied"
  | error => other error.toString

/-- What is printed is encoded. -/
def fileSystem : System IO where
  stream := .encoded .utf8
  read path := do
    try
      return .ok (← IO.FS.readBinFile path).toList
    catch error =>
      return .error (.ofError error)
  write path text := do
    try
      IO.FS.writeFile path text
      return .ok ()
    catch error =>
      return .error (.ofError error)
  print text := do
    let stdout ← IO.getStdout
    stdout.putStr text.withoutHalves
    stdout.flush
  complain text := do
    (← IO.getStderr).putStr text

/-- Mixes the bits of a word. -/
def scramble (z : UInt64) : UInt64 :=
  let z := (z ^^^ (z >>> 30)) * 0xbf58476d1ce4e5b9
  let z := (z ^^^ (z >>> 27)) * 0x94d049bb133111eb
  z ^^^ (z >>> 31)

/-- Numbers from zero, included, to one, excluded. -/
def drawsFrom (seed : UInt64) (n : Nat) : Float :=
  let word := scramble (seed + (n + 1).toUInt64 * 0x9e3779b97f4a7c15)
  Double.ofRatio false (word.toNat / Nat.pow 2 11) (Nat.pow 2 53)

end YapLang.Command

def main (args : List String) : IO UInt32 := do
  -- the names of characters are not known here
  let _ : YapLang.CharacterNames := .none
  let seed ← IO.monoNanosNow
  let draws := YapLang.Command.drawsFrom seed.toUInt64
  match ← YapLang.Command.invoke YapLang.Command.fileSystem draws args with
  | .code n => return n.toUInt32
  | .crash cause =>
    (← IO.getStderr).putStr (cause.message ++ "\n")
    return 1
