import YapLang.Text.Quoted

/-!
# Tokens

A token has a kind, a text and the place where it starts. Keywords of the older vocabulary carry the
text of the keyword that they stand for, so the grammar knows one word for each.
-/
namespace YapLang

/-- A place in source text: both numbers count from one, columns in characters. -/
structure Position where
  line : Nat
  column : Nat
  deriving DecidableEq, Repr

namespace Position

def start : Position := ⟨1, 1⟩

/-- The place after a character: only a line feed ends a line. -/
def after (p : Position) (c : Char) : Position :=
  if c = '\n' then ⟨p.line + 1, 1⟩ else ⟨p.line, p.column + 1⟩

def afterAll (p : Position) (cs : List Char) : Position :=
  cs.foldl after p

protected def toString (p : Position) : String :=
  toString p.line ++ ":" ++ toString p.column

end Position

namespace Token

/-- The kinds of tokens. A token that does not come from source text may be of any other kind. -/
inductive Kind where
  | keyword
  | identifier
  | number
  | string
  | punctuation
  | other (name : String)
  deriving DecidableEq, Repr

def Kind.name : Kind → String
  | keyword => "keyword"
  | identifier => "identifier"
  | number => "number"
  | string => "string"
  | punctuation => "punctuation"
  | other name => name

def Kind.ofName : String → Kind
  | "keyword" => keyword
  | "identifier" => identifier
  | "number" => number
  | "string" => string
  | "punctuation" => punctuation
  | name => other name

end Token

structure Token where
  kind : Token.Kind
  text : String
  position : Position
  deriving DecidableEq, Repr

namespace Token

/-- A token as messages show it. -/
def describe (t : Token) : String :=
  t.kind.name ++ " " ++ Text.quoted t.text

/-- The place just after a token of this text. -/
def endPosition (t : Token) : Position :=
  ⟨t.position.line, t.position.column + t.text.length⟩

/-- Whether the token is a keyword or a punctuation mark of the given text. -/
def isMark (text : String) (t : Token) : Bool :=
  t.text == text && (t.kind == .punctuation || t.kind == .keyword)

/-- Whether the token is a punctuation mark with one of the given texts. -/
def isOperator (texts : List String) (t : Token) : Bool :=
  t.kind == .punctuation && texts.contains t.text

end Token

end YapLang
