import Scriptlet.Grammar
import Scriptlet.Token.Scan

/-!
A reader holds the tokens that are still ahead and the reports made so far. It can be asked for an
expression or for a program any number of times, and goes on from where it stopped.
-/

namespace Scriptlet

structure Reader where
  endMark : EndMark
  ahead : List Token
  reports : List Report

namespace Reader

/-- A reader at the first of these tokens. If the last one is not an end mark, one is put behind
it. -/
def ofTokens (tokens : List Token) : Reader :=
  match tokens.getLast? with
  | none => ⟨⟨"", ⟨0, 0⟩⟩, [], []⟩
  | some last =>
      if last.kind = .endMark then ⟨⟨last.slice, last.span⟩, tokens.dropLast, []⟩
      else ⟨⟨"", ⟨last.span.stop, last.span.stop⟩⟩, tokens, []⟩

/-- How deep rules may have to call each other on this many tokens: at most two calls deeper for
each token that is used up, and four calls at the end mark. -/
def callDepth (count : Nat) : Nat := 2 * count + 4

def apply {Result : Type} (reader : Reader) (rule : Nat → Rule Result) :
    Option Result × Reader :=
  match rule (callDepth reader.ahead.length) reader.endMark reader.ahead with
  | none => (none, reader)
  | some outcome =>
      (outcome.result, { reader with
        ahead := outcome.ahead, reports := reader.reports ++ outcome.reports })

/-- Reads an expression whose links all bind more strongly than `least`. Its last token, or the one
where reading failed, is current afterwards. -/
def expression (reader : Reader) (least : Precedence) : Option Expr × Reader :=
  reader.apply (Grammar.expression least)

def program (reader : Reader) : Program × Reader :=
  let (read, reader) := reader.apply Grammar.program
  (read.getD [], reader)

def errors (reader : Reader) : List SyntaxError := reader.reports.map Report.error

end Reader

/-- The program that a list of tokens spells, and the reports on what could not be read. With no
reports the whole list has been read. -/
def readTokens (tokens : List Token) : Program × List Report :=
  let (program, reader) := (Reader.ofTokens tokens).program
  (program, reader.reports)

def readSource (source : String) : Program × List Report := readTokens (Token.scan source)

end Scriptlet
