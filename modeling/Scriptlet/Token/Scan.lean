import Scriptlet.Text.Blank
import Scriptlet.Token

/-!
Source text as tokens. At each place the longest lexeme of its class is taken: a run of digits, a
word, an operator, or else one character that no token may start with. Blanks separate and leave
nothing.
-/

namespace Scriptlet

open Text

structure Lexeme where
  kind : TokenKind
  text : List Char
  rest : List Char
deriving DecidableEq, Repr

namespace Lexeme

def startsWord (char : Char) : Bool := char.isAlpha || char == '_'

def continuesWord (char : Char) : Bool := char.isAlphanum || char == '_'

def wordKind (word : List Char) : TokenKind :=
  (TokenKind.ofKeyword? (String.ofList word)).getD .identifier

def operatorKind? : Char → Option TokenKind
  | '=' => some .equal
  | '+' => some .plus
  | '-' => some .minus
  | '!' => some .bang
  | '*' => some .star
  | '/' => some .slash
  | '<' => some .less
  | '>' => some .greater
  | ',' => some .comma
  | ';' => some .semicolon
  | '(' => some .leftParen
  | ')' => some .rightParen
  | '{' => some .leftBrace
  | '}' => some .rightBrace
  | _ => none

def cut (first : Char) (rest : List Char) : Lexeme :=
  if first.isDigit then
    ⟨.integer, first :: rest.takeWhile Char.isDigit, rest.dropWhile Char.isDigit⟩
  else if startsWord first then
    let word := first :: rest.takeWhile continuesWord
    ⟨wordKind word, word, rest.dropWhile continuesWord⟩
  else
    match first, rest with
    | '=', '=' :: rest => ⟨.equalEqual, ['=', '='], rest⟩
    | '!', '=' :: rest => ⟨.bangEqual, ['!', '='], rest⟩
    | _, _ => ⟨(operatorKind? first).getD .illegal, [first], rest⟩

/-- A lexeme and what follows it make up the text it was cut from. -/
theorem cut_text_append_rest (first : Char) (rest : List Char) :
    (cut first rest).text ++ (cut first rest).rest = first :: rest := by
  unfold cut
  split
  · simp
  · split
    · simp
    · split <;> simp

theorem cut_text_ne_nil (first : Char) (rest : List Char) : (cut first rest).text ≠ [] := by
  unfold cut
  split
  · simp
  · split
    · simp
    · split <;> simp

theorem cut_rest_length (first : Char) (rest : List Char) :
    (cut first rest).rest.length < (first :: rest).length := by
  have whole := congrArg List.length (cut_text_append_rest first rest)
  have nonempty := List.length_pos_iff.mpr (cut_text_ne_nil first rest)
  rw [List.length_append] at whole
  omega

end Lexeme

namespace Token

def byteSize (text : List Char) : Nat :=
  text.foldr (fun character size => character.utf8Size + size) 0

def scanFrom (offset : Nat) : List Char → List Token
  | [] => [endAt offset]
  | first :: rest =>
      if isBlank first then scanFrom (offset + first.utf8Size) rest
      else
        let lexeme := Lexeme.cut first rest
        let stop := offset + byteSize lexeme.text
        ⟨lexeme.kind, String.ofList lexeme.text, ⟨offset, stop⟩⟩ ::
          scanFrom stop lexeme.rest
termination_by text => text.length
decreasing_by
  · simp
  · exact Lexeme.cut_rest_length first rest

/-- Splits a whole source into tokens; the end mark comes last and nowhere else. -/
def scan (source : String) : List Token := scanFrom 0 source.toList

end Token

end Scriptlet
