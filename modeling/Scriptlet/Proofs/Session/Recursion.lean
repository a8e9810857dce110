import Scriptlet.Proofs.Evaluation.Recursion
import Scriptlet.Proofs.Rendering.RoundTrip
import Scriptlet.Proofs.Session.Parts

/-!
Programs that define a recursive function and call it, from their source texts to their values.
-/

namespace Scriptlet

open Text Token Evaluation

section Reading

/-- A text that is scanned as statements can stand behind a source that ends in a semicolon. -/
theorem read_behind {first second : String} {before behind : Program}
    (read : readSource first = (before, []))
    (ended : ∀ last ∈ (Token.scan first).dropLast.getLast?, last.kind = .semicolon)
    (written : Written .statements second behind) :
    readSource (first ++ " " ++ second) = (before ++ behind, []) := by
  rcases scan_ended first with ⟨stop, front, scans, scanned, inside⟩
  rw [readSource, scanned] at read
  rw [scanned, List.dropLast_concat] at ended
  have spelled := spells_of_read inside rfl read
  have blank : isBlank ' ' = true := by decide
  have atEnd : Breaks [] := by simp [Breaks]
  rcases written (stop + ' '.utf8Size) [] atEnd with ⟨stopBehind, back, scansBack, spelledBack⟩
  rw [List.append_nil] at scansBack
  have scansFront := scans_before_blank blank second.toList scans
  have scansBoth := scans_append scansFront (.blank blank scansBack)
  have joined : (first ++ " " ++ second).toList = first.toList ++ ' ' :: second.toList := by
    simp
  rw [readSource, Token.scan, joined, scan_of_scans scansBoth, scanFrom]
  exact read_of_spells (spells_goes_on spelledBack spelled ended) rfl

theorem number_written {number : Nat} (fits : number < 2 ^ 63) :
    (Expr.int (.ofNat number)).render = toString number := by
  have same : (Int64.ofNat number).toInt = number := Int64.toInt_ofNat_of_lt fits
  have nonnegative : 0 ≤ (Int64.ofNat number).toInt := by
    rw [same]
    exact Int.natCast_nonneg number
  apply String.toList_inj.mp
  rw [Expr.render, write_of_nonnegative nonnegative, same, Int.natAbs_natCast, Decimal.digits]
  exact (Nat.toList_repr).symm

/-- A call with a number for its argument is read as the call. -/
theorem call_written {name : String} (named : isName name = true) {number : Nat}
    (fits : number < 2 ^ 63) : Written .statements (name ++ "(" ++ toString number ++ ")")
      [.expr (.call (.name name) [.int (.ofNat number)])] := by
  have same : (Int64.ofNat number).toInt = number := Int64.toInt_ofNat_of_lt fits
  have unambiguous : (Expr.call (.name name) [.int (.ofNat number)]).isUnambiguous = true := by
    simp [Expr.isUnambiguous, areUnambiguousArguments, named, same]
  have text : (Expr.call (.name name) [.int (.ofNat number)]).render =
      name ++ "(" ++ toString number ++ ")" := by
    change name ++ "(" ++ ", ".intercalate [(Expr.int (.ofNat number)).render] ++ ")" = _
    rw [String.intercalate_singleton, number_written fits]
  have written := written_looser .equality (by decide) (Expr.written _ unambiguous)
  rw [text] at written
  exact scanned_imp written fun _ => spells_alone

end Reading

def factorialDefinition : String :=
  "let fact = fn(n) \x7b if (n < 2) \x7b 1 \x7d else \x7b n * fact(n - 1) \x7d \x7d;"

def fibonacciDefinition : String :=
  "let fib = fn(n) \x7b if (n < 2) \x7b return n; \x7d fib(n - 1) + fib(n - 2) \x7d;"

def recursiveSource (definition name : String) (argument : Nat) : String :=
  definition ++ " " ++ (name ++ "(" ++ toString argument ++ ")")

/-- The source runs to this number, reduced to the width of integers, from some depth of calls
on. -/
def RunsTo (source : String) (scope : Handle) (store : Store) (number : Nat) : Prop :=
  ∃ value : Int64, value.toInt = (number : Int).bmod (2 ^ 64) ∧
    ∃ enough final, ∀ depth, enough ≤ depth →
      interpret depth scope source store = some (.ok (some (.int value)), final)

theorem recursive_source_runs {definition name : String} {body : Block} {argument result : Nat}
    (read : readSource definition = ([.bind name (.function ["n"] body)], []))
    (ended : ∀ last ∈ (Token.scan definition).dropLast.getLast?, last.kind = .semicolon)
    (named : isName name = true) (fits : argument < 2 ^ 63)
    (computes : Computes name body argument result) {scope : Handle} {store : Store}
    (present : scope < store.size) :
    RunsTo (recursiveSource definition name argument) scope store result := by
  have readWhole : readSource (recursiveSource definition name argument) =
      (definedAndCalled name body argument, []) :=
    read_behind read ended (call_written named fits)
  rcases defined_and_called_ends computes present with ⟨final, enough, ran⟩
  refine ⟨.ofNat result, Int64.toInt_ofNat', enough, final.store, ?_⟩
  intro depth deep
  have ranDeeper : Block.evaluateAfter none (definedAndCalled name body argument) depth
      ⟨store, scope⟩ = some (some (.int (.ofNat result)), final) :=
    outcome_deeper (block_deepens none _) deep _ _ ran
  rw [interpret_clean readWhole, program_run, ranDeeper]
  rfl

/-- The factorials and the Fibonacci numbers are computed by functions that call themselves, for
every argument that an integer can be, in every scope. -/
theorem recursion_computes {argument : Nat} (fits : argument < 2 ^ 63) {scope : Handle}
    {store : Store} (present : scope < store.size) :
    RunsTo (recursiveSource factorialDefinition "fact" argument) scope store argument.factorial ∧
      RunsTo (recursiveSource fibonacciDefinition "fib" argument) scope store
        (Nat.fib argument) := by
  have readFactorial : readSource factorialDefinition =
      ([.bind "fact" (.function ["n"] factorialBody)], []) := by decide +kernel
  have readFibonacci : readSource fibonacciDefinition =
      ([.bind "fib" (.function ["n"] fibonacciBody)], []) := by decide +kernel
  constructor
  · exact recursive_source_runs readFactorial (by decide +kernel) (by decide) fits
      (factorial_computes argument fits) present
  · exact recursive_source_runs readFibonacci (by decide +kernel) (by decide) fits
      (fibonacci_computes argument fits) present

/-- The factorial of 25 and the Fibonacci number 93 are out of range and wrap around. -/
theorem great_factorial_wraps :
    let store := Store.empty.addRoot.2
    25 < 2 ^ 63 ∧ 93 < 2 ^ 63 ∧ 0 < store.size ∧
      (∃ enough final, ∀ depth, enough ≤ depth →
        interpret depth 0 ("let fact = fn(n) \x7b if (n < 2) \x7b 1 \x7d else \x7b n * fact(n - 1) " ++
          "\x7d \x7d; fact(25)") store =
            some (.ok (some (.int 7034535277573963776)), final)) ∧
      ∃ enough final, ∀ depth, enough ≤ depth →
        interpret depth 0 ("let fib = fn(n) \x7b if (n < 2) \x7b return n; \x7d " ++
          "fib(n - 1) + fib(n - 2) \x7d; fib(93)") store =
            some (.ok (some (.int (-6246583658587674878))), final) := by
  intro store
  have first : 25 < 2 ^ 63 := by decide
  have second : 93 < 2 ^ 63 := by decide
  have present : 0 < store.size := by decide
  rcases (recursion_computes first present).1 with ⟨product, wrapped, runs⟩
  rcases (recursion_computes second present).2 with ⟨sum, wrappedSum, runsSum⟩
  have isProduct : product = 7034535277573963776 := by
    apply Int64.toInt_inj.mp
    rw [wrapped]
    decide +kernel
  have isSum : sum = -6246583658587674878 := by
    apply Int64.toInt_inj.mp
    rw [wrappedSum]
    decide +kernel
  subst isProduct isSum
  exact ⟨first, second, present, runs, runsSum⟩

end Scriptlet
