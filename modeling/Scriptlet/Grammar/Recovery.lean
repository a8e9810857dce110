import Scriptlet.Grammar.Rule

/-!
Recovery after a broken statement. What is left of the statement is skipped up to the next place
where a statement may end: a semicolon, or the last token before a closing brace or the end.
Braces that the statement opened are skipped together with all that stands between them, as long as
there are not more of them open than can be counted.
-/

namespace Scriptlet

namespace Recovery

def kindAt (tokens : List Token) : TokenKind :=
  match tokens with
  | [] => .endMark
  | token :: _ => token.kind

/-- Counts a token among the braces that are open. The count has 32 bits and wraps around. -/
def count (open_ : Int32) : TokenKind → Int32
  | .leftBrace => open_ + 1
  | .rightBrace => open_ - 1
  | _ => open_

def countAll (tokens : List Token) : Int32 :=
  tokens.foldl (fun open_ token => count open_ token.kind) 0

/-- Skips tokens, with `open_` braces counted up to and with the current token. The answer says
whether the skipping stopped on a brace that closes the block around the statement. -/
def skipFrom (open_ : Int32) : List Token → Bool × List Token
  | [] => (false, [])
  | token :: rest =>
      if token.kind = .rightBrace ∧ open_ < 0 then (true, token :: rest)
      else if token.kind = .endMark then (false, token :: rest)
      else if open_ ≤ 0 ∧ (token.kind = .semicolon ∨ kindAt rest = .rightBrace ∨
          kindAt rest = .endMark) then (false, token :: rest)
      else skipFrom (count open_ (kindAt rest)) rest

def upTo (start ahead : List Token) : List Token :=
  start.take (start.length - ahead.length + 1)

end Recovery

def recover (start : List Token) : Rule Bool := fun _ ahead =>
  let stop := Recovery.skipFrom (Recovery.countAll (Recovery.upTo start ahead)) ahead
  some ⟨some stop.1, [], stop.2⟩

end Scriptlet
