import Scriptlet.Evaluation
import Scriptlet.Reader

/-!
Running source texts one after another over one store.
-/

namespace Scriptlet

/-- Reads a source text and runs it. With syntax errors nothing is run. -/
def interpret (depth : Nat) (scope : Handle) (source : String) :
    Run (Except (List SyntaxError) (Option Value)) :=
  match readSource source with
  | (program, []) => do
      let value ← Program.run depth scope program
      return .ok value
  | (_, reports) => return .error (reports.map Report.error)

end Scriptlet
