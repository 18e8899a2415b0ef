import YapLang.SourceError
import YapLang.Token.Lexeme

/-!
# Source text as tokens

Source text is cut into pieces from left to right; the pieces that are tokens are kept, with the
place where they start.
-/
namespace YapLang.Token

/-- The token that a piece at the given place is, in front of the tokens before it. -/
def keep (form : Lexeme.Form) (piece : List Char) (p : Position) (before : List Token) :
    List Token :=
  match Lexeme.token? form (String.ofList piece) with
  | some (kind, text) => ⟨kind, text, p⟩ :: before
  | none => before

/-- Cuts the text that starts at the given place, after tokens that are held in reverse. No piece is
empty, so the length of the text is fuel enough. -/
def scanFrom : (fuel : Nat) → Position → List Token → List Char → Except SourceError (List Token)
  | _, _, before, [] => .ok before.reverse
  | 0, p, _, c :: _ => .error (.noToken c p)
  | fuel + 1, p, before, c :: cs =>
    match Lexeme.first? (c :: cs) with
    | none => .error (.noToken c p)
    | some (form, piece, rest) => scanFrom fuel (p.afterAll piece) (keep form piece p before) rest

/-- The tokens of a source text. -/
def scan (source : String) : Except SourceError (List Token) :=
  scanFrom source.length Position.start [] source.toList

end YapLang.Token
