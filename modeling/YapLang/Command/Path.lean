/-!
# Paths of files

A path is shown and used without empty parts and without parts that stand for the directory itself.
-/
namespace YapLang.Command

/-- The parts of a text between slashes. -/
def slashParts : List Char → List (List Char)
  | [] => [[]]
  | '/' :: rest => [] :: slashParts rest
  | c :: rest =>
    match slashParts rest with
    | part :: parts => (c :: part) :: parts
    | [] => [[c]]

/-- A path: the slashes it starts with, and its parts. -/
structure Path where
  root : String
  parts : List String
  deriving DecidableEq, Repr

namespace Path

/-- Slashes in front are one, except that exactly two stay two. -/
def rootOf (cs : List Char) : String :=
  match (cs.takeWhile (· = '/')).length with
  | 0 => ""
  | 2 => "//"
  | _ => "/"

def ofText (text : String) : Path where
  root := rootOf text.toList
  parts := ((slashParts text.toList).map String.ofList).filter fun part => part ≠ "" ∧ part ≠ "."

protected def toString (path : Path) : String :=
  if path.root = "" ∧ path.parts.isEmpty then "."
  else path.root ++ String.intercalate "/" path.parts

/-- The path with something added to its last part. -/
def extend (path : Path) (suffix : String) : Path :=
  match path.parts.getLast? with
  | some last => { path with parts := path.parts.dropLast ++ [last ++ suffix] }
  | none => { path with parts := [suffix] }

end Path

end YapLang.Command
