/-!
# Tokens

The lexical classes of the language, its reserved words, and tokens: a class, the text as it
stands in the source, the value of a literal, and the line on which the text ends.
-/

namespace LoxLang

/-- The lexical classes. -/
inductive TokenKind where
  | leftParen | rightParen | leftBrace | rightBrace
  | comma | dot | minus | plus | semicolon | slash | star
  | bang | bangEqual | equal | equalEqual
  | greater | greaterEqual | less | lessEqual
  | identifier | string | number
  | kwAnd | kwClass | kwElse | kwFalse | kwFun | kwFor | kwIf | kwNil | kwOr | kwPrint
  | kwReturn | kwSuper | kwThis | kwTrue | kwVar | kwWhile
  | endOfInput
  deriving DecidableEq, Repr, Inhabited

/-- The reserved words. -/
def keywords : List (String × TokenKind) :=
  [("and", .kwAnd), ("class", .kwClass), ("else", .kwElse), ("false", .kwFalse),
   ("for", .kwFor), ("fun", .kwFun), ("if", .kwIf), ("nil", .kwNil), ("or", .kwOr),
   ("print", .kwPrint), ("return", .kwReturn), ("super", .kwSuper), ("this", .kwThis),
   ("true", .kwTrue), ("var", .kwVar), ("while", .kwWhile)]

/-- The class of a word: a reserved word's own, or that of identifiers. -/
def TokenKind.ofWord (word : String) : TokenKind := (keywords.lookup word).getD .identifier

/-- The name of a class in token listings. -/
def TokenKind.name : TokenKind → String
  | .leftParen => "LEFT_PAREN"
  | .rightParen => "RIGHT_PAREN"
  | .leftBrace => "LEFT_BRACE"
  | .rightBrace => "RIGHT_BRACE"
  | .comma => "COMMA"
  | .dot => "DOT"
  | .minus => "MINUS"
  | .plus => "PLUS"
  | .semicolon => "SEMICOLON"
  | .slash => "SLASH"
  | .star => "STAR"
  | .bang => "BANG"
  | .bangEqual => "BANG_EQUAL"
  | .equal => "EQUAL"
  | .equalEqual => "EQUAL_EQUAL"
  | .greater => "GREATER"
  | .greaterEqual => "GREATER_EQUAL"
  | .less => "LESS"
  | .lessEqual => "LESS_EQUAL"
  | .identifier => "IDENTIFIER"
  | .string => "STRING"
  | .number => "NUMBER"
  | .kwAnd => "AND"
  | .kwClass => "CLASS"
  | .kwElse => "ELSE"
  | .kwFalse => "FALSE"
  | .kwFun => "FUN"
  | .kwFor => "FOR"
  | .kwIf => "IF"
  | .kwNil => "NIL"
  | .kwOr => "OR"
  | .kwPrint => "PRINT"
  | .kwReturn => "RETURN"
  | .kwSuper => "SUPER"
  | .kwThis => "THIS"
  | .kwTrue => "TRUE"
  | .kwVar => "VAR"
  | .kwWhile => "WHILE"
  | .endOfInput => "EOF"

/-- The values that can be written in source code. -/
inductive Literal where
  | nil
  | bool (b : Bool)
  | num (x : Float)
  | str (s : String)
  deriving Inhabited

structure Token where
  kind : TokenKind
  /-- The text of the token as it stands in the source. -/
  lexeme : String
  /-- The value of a string or number, and `nil` for every other token. -/
  literal : Literal
  /-- The line, counted from one, on which the text ends. -/
  line : Nat
  deriving Inhabited

end LoxLang
