import LoxLang.Diagnostic
import LoxLang.Number.Layout
import LoxLang.Number.Reading
import LoxLang.Token.Piece

/-!
# Scanning

`scan` turns a source text into its tokens and the problems found on the way.  A problem never
stops it.  The line of a token or problem is one more than the count of line feeds before the end
of its text.
-/

namespace LoxLang

/-- The tokens of a source, the token that stands for its end, and the problems found. -/
structure Scanned where
  tokens : List Token
  stop : Token
  found : List Diagnostic

/-- All tokens, the end of the input last. -/
def Scanned.all (s : Scanned) : List Token := s.tokens ++ [s.stop]

/-- The value of a literal with this text. -/
def Literal.ofText : TokenKind → List Char → Literal
  | .string, text => .str (String.ofList (text.drop 1).dropLast)
  | .number, text => .num (Number.ofPlain text)
  | _, _ => .nil

/-- The count of line feeds in a text. -/
def lineFeeds (text : List Char) : Nat := text.count '\n'

/-- Reads pieces off, the first of which starts on line `line`. -/
def scanPieces (line : Nat) : List Piece → Scanned
  | [] => ⟨[], ⟨.endOfInput, "", .nil, line⟩, []⟩
  | piece :: rest =>
    let line := line + lineFeeds piece.text
    let after := scanPieces line rest
    match piece with
    | .token kind text =>
      { after with tokens := ⟨kind, String.ofList text, .ofText kind text, line⟩ :: after.tokens }
    | .unexpected _ =>
      { after with found := ⟨line, .unnamed, .unexpectedCharacter⟩ :: after.found }
    | .unterminated _ =>
      { after with found := ⟨line, .unnamed, .unterminatedString⟩ :: after.found }
    | .blank _ => after
    | .comment _ => after

/-- The tokens of a source text. -/
def scan (source : String) : Scanned := scanPieces 1 (Piece.all source.toList)

/-- A literal in a token listing. -/
def Literal.listing : Literal → String
  | .nil => "None"
  | .bool true => "True"
  | .bool false => "False"
  | .num x => Number.listed.write x
  | .str s => s

/-- A token in a token listing: class, text and literal. -/
def Token.listing (t : Token) : String :=
  t.kind.name ++ " " ++ t.lexeme ++ " " ++ t.literal.listing

end LoxLang
