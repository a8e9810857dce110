/-!
Tokens: the pieces of source text that rules of the grammar look at. A token keeps the slice it was
cut from and where that slice stands, in UTF-8 bytes. Every token list ends in an end mark.
-/

namespace Scriptlet

inductive TokenKind where
  | leftParen | rightParen | leftBrace | rightBrace
  | comma | semicolon
  | equal | equalEqual | bang | bangEqual | greater | less
  | plus | minus | star | slash
  | identifier | integer
  | trueWord | falseWord | letWord | fnWord | ifWord | elseWord | returnWord
  | illegal
  | endMark
deriving DecidableEq, Repr

namespace TokenKind

def text : TokenKind → String
  | leftParen => "("
  | rightParen => ")"
  | leftBrace => "\x7b"
  | rightBrace => "\x7d"
  | comma => ","
  | semicolon => ";"
  | equal => "="
  | equalEqual => "=="
  | bang => "!"
  | bangEqual => "!="
  | greater => ">"
  | less => "<"
  | plus => "+"
  | minus => "-"
  | star => "*"
  | slash => "/"
  | identifier => "identifier"
  | integer => "integer"
  | trueWord => "true"
  | falseWord => "false"
  | letWord => "let"
  | fnWord => "fn"
  | ifWord => "if"
  | elseWord => "else"
  | returnWord => "return"
  | illegal => "illegal"
  | endMark => "end of input"

def keywords : List TokenKind :=
  [fnWord, letWord, trueWord, falseWord, ifWord, elseWord, returnWord]

def ofKeyword? (word : String) : Option TokenKind :=
  keywords.find? fun keyword => keyword.text == word

end TokenKind

/-- A stretch of source text, from `start` up to but not including `stop`. -/
structure Span where
  start : Nat
  stop : Nat
deriving DecidableEq, Repr

structure Token where
  kind : TokenKind
  slice : String
  span : Span
deriving DecidableEq, Repr

namespace Token

def endAt (offset : Nat) : Token := ⟨.endMark, "", ⟨offset, offset⟩⟩

def text (token : Token) : String :=
  if token.kind = .endMark then TokenKind.endMark.text else token.slice

end Token

end Scriptlet
