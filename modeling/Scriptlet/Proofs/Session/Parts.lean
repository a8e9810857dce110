import Scriptlet.Proofs.Evaluation.Frame
import Scriptlet.Proofs.Grammar.Completeness
import Scriptlet.Proofs.Grammar.Pieces
import Scriptlet.Proofs.Grammar.Places
import Scriptlet.Proofs.Session.Answer
import Scriptlet.Proofs.Token.Layout

/-!
A program can be given to a session in parts. Where the tokens of a source are none or end in a
semicolon, another source can be put on the lines behind it: together they are read as the one
program and then the other, and running both at once is running the one and then the other, unless
a signal ends the first one.
-/

namespace Scriptlet

open Text Token Evaluation

section Spelling

/-- There are tokens, and the last of them is no semicolon. -/
def EndsOpen (tokens : List Token) : Prop := ∃ last ∈ tokens.getLast?, last.kind ≠ .semicolon

theorem ends_open_behind {tokens : List Token} (openEnd : EndsOpen tokens) (front : List Token) :
    EndsOpen (front ++ tokens) := by
  obtain ⟨last, isLast, kind⟩ := openEnd
  refine ⟨last, ?_, kind⟩
  rw [List.getLast?_append, Option.mem_def.mp isLast]
  rfl

theorem ends_open_of_last (front : List Token) {last : Token} (kind : last.kind ≠ .semicolon) :
    EndsOpen (front ++ [last]) := ⟨last, by simp, kind⟩

def Phrase.endsOpen : Phrase → Bool
  | arguments | statements => false
  | _ => true

theorem spells_ends_open {phrase : Phrase} {tokens : List Token} {tree : phrase.Tree}
    (spelled : Spells phrase tokens tree) : phrase.endsOpen = true → EndsOpen tokens := by
  induction spelled with
  | name token kind | integer token _ kind | yes token kind | no token kind =>
      exact fun _ => ends_open_of_last [] (by simp [kind])
  | group opening closing _ _ closes | call opening closing _ _ _ closes
  | block opening closing _ _ closes => exact fun _ => ends_open_of_last _ (by simp [closes])
  | ifThen word opening closing _ _ _ _ _ _ block =>
      exact fun _ => ends_open_behind (ends_open_behind (block rfl) [closing]) _
  | ifElse word opening closing other _ _ _ _ _ _ _ _ _ block =>
      exact fun _ => ends_open_behind (ends_open_behind (block rfl) [other]) _
  | function word opening closing _ _ _ _ _ block =>
      exact fun _ => ends_open_behind (ends_open_behind (block rfl) [closing]) _
  | not token _ _ operand | negate token _ _ operand =>
      exact fun _ => ends_open_behind (operand rfl) [token]
  | binary token _ _ _ _ _ right =>
      exact fun _ => ends_open_behind (ends_open_behind (right rfl) [token]) _
  | looser _ _ _ inner | lastExpression _ inner => exact fun _ => inner rfl
  | moreExpressions comma _ _ _ _ others =>
      exact fun _ => ends_open_behind (ends_open_behind (others rfl) [comma]) _
  | noArguments | someArguments | noStatements | ended | unended => exact nofun
  | bind word name sign _ _ _ _ value =>
      exact fun _ => ends_open_behind (value rfl) [word, name, sign]
  | «return» word _ _ value => exact fun _ => ends_open_behind (value rfl) [word]
  | expr _ value => exact fun _ => value rfl

/-- Statements that end in a semicolon can have these statements behind them. -/
def GoesOn (back : List Token) (behind : Program) :
    (phrase : Phrase) → List Token → phrase.Tree → Prop
  | .statements, front, before => (∀ last ∈ front.getLast?, last.kind = .semicolon) →
      Spells .statements (front ++ back) (before ++ behind)
  | _, _, _ => True

theorem spells_goes_on {back : List Token} {behind : Program}
    (spelledBack : Spells .statements back behind) {phrase : Phrase} {front : List Token}
    {tree : phrase.Tree} (spelled : Spells phrase front tree) :
    GoesOn back behind phrase front tree := by
  induction spelled with
  | noStatements => exact fun _ => spelledBack
  | @ended semicolon tokens rest first others statement isSemicolon _ _ goesOn =>
      intro ended
      have endedRest : ∀ last ∈ rest.getLast?, last.kind = .semicolon := by
        intro last isLast
        apply ended last
        rw [List.getLast?_append, List.getLast?_cons, Option.mem_def.mp isLast]
        rfl
      rw [List.append_assoc]
      exact .ended semicolon statement isSemicolon (goesOn endedRest)
  | @unended tokens rest first others statement unlinked _ _ goesOn =>
      intro ended
      cases rest with
      | nil =>
          obtain ⟨last, isLast, kind⟩ := spells_ends_open statement rfl
          rw [List.append_nil] at ended
          exact absurd (ended last isLast) kind
      | cons next rest =>
          have endedRest : ∀ last ∈ (next :: rest).getLast?, last.kind = .semicolon := by
            intro last isLast
            apply ended last
            rw [List.getLast?_append, Option.mem_def.mp isLast]
            rfl
          rw [List.append_assoc]
          exact .unended statement unlinked (goesOn endedRest)
  | _ => trivial

end Spelling

section Joining

variable {first second : String} {before behind : Program}

/-- A source is scanned as tokens with no end mark among them, and one behind them. -/
theorem scan_ended (source : String) : ∃ stop tokens, Scans stop [] 0 source.toList tokens ∧
    Token.scan source = tokens ++ [endAt stop] ∧ ∀ token ∈ tokens, token.kind ≠ .endMark := by
  obtain ⟨tokens, scans⟩ := scans_whole 0 source.toList
  refine ⟨_, tokens, scans, ?_, (tokenization_of_scans scans).inside⟩
  rw [Token.scan, scan_of_scans scans, scanFrom]

theorem scan_joined {stop : Nat} {front : List Token}
    (scans : Scans stop [] 0 first.toList front) (second : String) :
    (Token.scan (first ++ "\n" ++ second)).map Token.bare =
      front.map Token.bare ++ (Token.scan second).map Token.bare := by
  have blank : isBlank '\n' = true := by decide
  have joined : (first ++ "\n" ++ second).toList = first.toList ++ '\n' :: second.toList := by
    simp
  have scansFront := scans_before_blank blank second.toList scans
  rw [Token.scan, joined, scan_of_scans scansFront, List.map_append, scan_from_blank blank,
    scan_anywhere _ 0]
  rfl

theorem read_joined (read : readSource first = (before, []))
    (readSecond : readSource second = (behind, []))
    (ended : ∀ last ∈ (Token.scan first).dropLast.getLast?, last.kind = .semicolon) :
    readSource (first ++ "\n" ++ second) = (before ++ behind, []) := by
  obtain ⟨stop, front, scans, scanned, inside⟩ := scan_ended first
  obtain ⟨stopSecond, back, _, scannedSecond, insideSecond⟩ := scan_ended second
  rw [readSource, scanned] at read
  rw [readSource, scannedSecond] at readSecond
  rw [scanned, List.dropLast_concat] at ended
  have spelled := spells_of_read inside rfl read
  have spelledSecond := spells_of_read insideSecond rfl readSecond
  have spelledBoth : Spells .statements (front ++ back) (before ++ behind) :=
    spells_goes_on spelledSecond spelled ended
  have whole := read_of_spells spelledBoth (show (endAt stopSecond).kind = .endMark from rfl)
  have same : (Token.scan (first ++ "\n" ++ second)).map Token.bare =
      (front ++ back ++ [endAt stopSecond]).map Token.bare := by
    rw [scan_joined scans, scannedSecond, ← List.map_append, List.append_assoc]
  obtain ⟨program, reports⟩ := read_alike same
  rw [whole] at program reports
  exact Prod.ext program (List.map_eq_nil_iff.mp reports)

end Joining

section Running

variable {depth : Nat} {before behind : Program} {start : Evaluator}

/-- Running the statements comes to one that yields an error or a returned value. -/
inductive Interrupted (depth : Nat) : Program → Evaluator → Prop where
  | here {first : Stmt} {rest : Program} {start final : Evaluator} {signal : Value} :
      first.evaluate depth start = some (some signal, final) → signal.isSignal = true →
      Interrupted depth (first :: rest) start
  | later {first : Stmt} {rest : Program} {start middle : Evaluator} {value : Option Value} :
      first.evaluate depth start = some (value, middle) → value.any Value.isSignal = false →
      Interrupted depth rest middle → Interrupted depth (first :: rest) start

theorem block_run (depth : Nat) (last : Option Value) (first : Stmt) (rest : Program)
    (start : Evaluator) :
    Block.evaluateAfter last (first :: rest) depth start =
      (first.evaluate depth start).bind fun (value, middle) =>
        if value.any Value.isSignal then some (value, middle)
        else Block.evaluateAfter value rest depth middle := by
  rw [Block.evaluateAfter, Evaluation.block, run_bind]
  congr 1
  funext ⟨value, middle⟩
  cases isSignal : value.any Value.isSignal <;> simp only [isSignal] <;> rfl

/-- Nothing behind a signal is run. -/
theorem interrupted_append (interrupted : Interrupted depth before start) (last : Option Value)
    (behind : Program) :
    Block.evaluateAfter last (before ++ behind) depth start =
      Block.evaluateAfter last before depth start := by
  induction interrupted generalizing last with
  | here ran isSignal => simp [block_run, ran, isSignal]
  | later ran plain _ induction => simp [block_run, ran, plain, induction]

theorem uninterrupted_append (through : ¬Interrupted depth before start) (last : Option Value)
    (behind : Program) :
    Block.evaluateAfter last (before ++ behind) depth start =
      (Block.evaluateAfter last before depth start).bind fun (value, middle) =>
        Block.evaluateAfter value behind depth middle := by
  induction before generalizing start last with
  | nil => rfl
  | cons first rest induction =>
      rw [List.cons_append, block_run, block_run, Option.bind_assoc]
      cases ran : first.evaluate depth start with
      | none => rfl
      | some reached =>
          obtain ⟨value, middle⟩ := reached
          cases isSignal : value.any Value.isSignal with
          | true =>
              obtain ⟨signal, rfl, signals⟩ := (Option.any_eq_true _ _).mp isSignal
              exact absurd (.here ran signals) through
          | false =>
              have throughRest : ¬Interrupted depth rest middle :=
                fun interrupted => through (.later ran isSignal interrupted)
              simpa [isSignal] using induction throughRest value

theorem program_run (depth : Nat) (scope : Handle) (program : Program) (store : Store) :
    Program.run depth scope program store =
      (Block.evaluateAfter none program depth ⟨store, scope⟩).map fun (value, final) =>
        (value.map Value.unwrap, final.store) := by
  change ((Block.evaluateAfter none program depth ⟨store, scope⟩).bind _).map _ = _
  cases Block.evaluateAfter none program depth ⟨store, scope⟩ <;> rfl

theorem program_run_append {scope : Handle} {store : Store}
    (through : ¬Interrupted depth before ⟨store, scope⟩) (behind : Program) :
    Program.run depth scope (before ++ behind) store =
      (Program.run depth scope before store).bind fun (value, middle) =>
        (Program.run depth scope behind middle).map fun (later, final) =>
          (if behind = [] then value else later, final) := by
  rw [program_run, program_run, uninterrupted_append through]
  cases ran : Block.evaluateAfter none before depth ⟨store, scope⟩ with
  | none => rfl
  | some reached =>
      obtain ⟨value, middle⟩ := reached
      -- The first program has come back to the scope where the second one starts.
      have back : middle.current = scope := (block_binds_only ⟨depth, ran⟩).1
      have there : middle = ⟨middle.store, scope⟩ := by rw [← back]
      simp only [Option.bind_some, Option.map_some, program_run, ← there]
      cases behind with
      | nil => rfl
      | cons first rest =>
          simp only [block_run, reduceCtorEq, if_false]
          cases (first.evaluate depth middle).bind _ <;> rfl

end Running

/-- Where a source ends in a semicolon, the program in it can be run before what stands on the lines
behind it, or together with that. A signal that ends the first program ends both of them. -/
theorem program_runs_in_parts {first second : String} {before behind : Program}
    (read : readSource first = (before, [])) (readSecond : readSource second = (behind, []))
    (ended : ∀ last ∈ (Token.scan first).dropLast.getLast?, last.kind = .semicolon) :
    readSource (first ++ "\n" ++ second) = (before ++ behind, []) ∧
      ∀ depth scope store,
        (Interrupted depth before ⟨store, scope⟩ →
          interpret depth scope (first ++ "\n" ++ second) store =
            interpret depth scope first store) ∧
        (¬Interrupted depth before ⟨store, scope⟩ →
          interpret depth scope (first ++ "\n" ++ second) store =
            (interpret depth scope first store).bind fun (answer, middle) =>
              (interpret depth scope second middle).map fun (later, final) =>
                (if behind = [] then answer else later, final)) := by
  have readBoth := read_joined read readSecond ended
  refine ⟨readBoth, fun depth scope store => ⟨fun interrupted => ?_, fun through => ?_⟩⟩
  · rw [interpret_clean readBoth, interpret_clean read, program_run, program_run,
      interrupted_append interrupted]
  · rw [interpret_clean readBoth, interpret_clean read, program_run_append through]
    cases Program.run depth scope before store with
    | none => rfl
    | some reached =>
        obtain ⟨value, middle⟩ := reached
        simp only [Option.bind_some, Option.map_some, interpret_clean readSecond, Option.map_map]
        congr 1
        funext ⟨later, final⟩
        simp only [Function.comp]
        split <;> rfl

/-- A name is squared on the line behind the one that binds it, but not behind a return. -/
theorem squared_name_runs_in_parts :
    let (scope, store) := Store.empty.addRoot
    (∃ middle final, interpret 0 scope "let x=2;" store = some (.ok none, middle) ∧
      interpret 0 scope "x*x" middle = some (.ok (some (.int 4)), final) ∧
      interpret 0 scope ("let x=2;" ++ "\n" ++ "x*x") store = some (.ok (some (.int 4)), final)) ∧
    interpret 0 scope ("return 1;" ++ "\n" ++ "x*x") store =
      interpret 0 scope "return 1;" store := by
  have read : readSource "let x=2;" = ([.bind "x" (.int 2)], []) := by decide +kernel
  have readReturn : readSource "return 1;" = ([.return (.int 1)], []) := by decide +kernel
  have readSquare : readSource "x*x" =
      ([.expr (.binary (.name "x") .multiply (.name "x"))], []) := by
    decide +kernel
  have joined := program_runs_in_parts read readSquare (by decide +kernel)
  have joinedReturn := program_runs_in_parts readReturn readSquare (by decide +kernel)
  have through : ¬Interrupted 0 [.bind "x" (.int 2)] ⟨Store.empty.addRoot.2, 0⟩ := by
    rintro (⟨ran, _⟩ | ⟨_, _, rest⟩)
    · cases ran
    · cases rest
  have ran := interpret_clean read 0 0 Store.empty.addRoot.2
  have value : (Program.run 0 0 [.expr (.binary (.name "x") .multiply (.name "x"))]
      (Store.empty.addRoot.2.bind 0 "x" (.int 2))).map Prod.fst = some (some (.int 4)) := by
    decide +kernel
  obtain ⟨⟨_, final⟩, ranSquare, rfl⟩ := Option.map_eq_some_iff.mp value
  have ranAfter := interpret_clean readSquare 0 0 (Store.empty.addRoot.2.bind 0 "x" (.int 2))
  rw [ranSquare] at ranAfter
  refine ⟨⟨_, final, ran, ranAfter, ?_⟩, ?_⟩
  · refine ((joined.2 0 0 Store.empty.addRoot.2).2 through).trans ?_
    rw [ran]
    change (interpret 0 0 "x*x" (Store.empty.addRoot.2.bind 0 "x" (.int 2))).map _ = _
    rw [ranAfter]
    rfl
  · exact (joinedReturn.2 0 _ _).1 (.here rfl rfl)

end Scriptlet
