import Scriptlet.Proofs.Grammar.Braces
import Scriptlet.Proofs.Grammar.Whole
import Scriptlet.Proofs.Grammar.Uniform

/-!
A list of statements whose braces are balanced is read by itself up to the token that ends it: the
brace that closes it, or a semicolon outside its braces. Whatever is wrong in the list, nothing that
stands behind that token changes what is read from it, and nothing behind it is read differently
because of the list. This holds of a semicolon however deep the braces before it are, and of a brace
as long as those before it can be counted.
-/

namespace Scriptlet

open Rule Grammar

theorem brace_step_of_plain {kind : TokenKind} (plain : kind.Plain) :
    Recovery.braceStep kind = 0 := by
  revert plain
  cases kind <;> decide

variable {Case : Type} (mark : Case → EndMark) (sample : Case)

/-- Inputs that share a list of tokens up to `stop` and differ in what stands behind it. In the list
at least `level` braces are to be closed wherever reading comes to, and just so many if the count of
braces is exact. -/
def barrier (behind : Case → List Token) (stop : Token) (stops : stop.Stops) (exact : Prop)
    (level : Nat) : Terrain Case where
  mark := mark
  sample := sample
  body _ := []
  errors _ := []
  Ready stage ahead := stage = .before ∧
    ∃ tokens, Amid stop exact level tokens ∧ ahead = fun case => tokens ++ behind case
  Onto stage ahead := stage = .before ∧ ∃ token tokens, token.kind ≠ .endMark ∧
    Amid stop exact level tokens ∧ ahead = fun case => token :: (tokens ++ behind case)
  look := by
    rintro stage ahead ⟨rfl, tokens, amid, rfl⟩
    obtain ⟨token, rest, rfl⟩ := amid_nonempty amid
    refine ⟨token, fun _ => rfl, fun plain => ⟨rfl, token, rest, ?_, ?_, rfl⟩⟩
    · rintro ended
      rw [ended] at plain
      exact absurd plain (by decide)
    · rcases amid_tail amid (brace_step_of_plain plain) with ⟨_, rfl, _⟩ | amidRest
      · rcases stops with isStop | isStop <;> rw [isStop] at plain <;>
          exact absurd plain (by decide)
      · exact amidRest
  used := by
    rintro stage ahead ⟨rfl, token, tokens, _, amid, rfl⟩
    exact ⟨token, _, ⟨rfl, tokens, amid, rfl⟩, rfl⟩

section Barrier

variable {behind : Case → List Token} {stop : Token} {stops : stop.Stops} {exact : Prop}
  {level : Nat} {errors : Case → List SyntaxError} {rest : Case → List Token}

theorem varied_here {terrain : Terrain Case} {stage : Stage} {shape : Shape}
    {value : Case → shape.Tree} (varied : terrain.Varied shape stage stage value) :
    ∃ tree, value = fun _ => tree := by
  rcases varied with fixed | ⟨spans, _⟩
  · exact fixed
  · exact absurd spans (Stage.not_spans_refl stage)

theorem reported_here {terrain : Terrain Case} {stage : Stage}
    (reported : terrain.Reported stage stage errors) : ∃ all, errors = fun _ => all := by
  rcases reported with ⟨_, fixed⟩ | ⟨spans, _⟩
  · exact fixed
  · exact absurd spans (Stage.not_spans_refl stage)

theorem barrier_fails
    (fails : (barrier mark sample behind stop stops exact level).Fails .before errors rest) :
    ∃ all later, errors = (fun _ => all) ∧ rest = (fun case => later ++ behind case) ∧
      Outside stop exact level later := by
  obtain ⟨stage, _, reported, place⟩ := fails
  rcases place with ⟨rfl, later, amid, rfl⟩ | ⟨rfl, token, later, inside, amid, rfl⟩
  · obtain ⟨all, rfl⟩ := reported_here reported
    exact ⟨all, later, rfl, rfl, .inl amid⟩
  · obtain ⟨all, rfl⟩ := reported_here reported
    exact ⟨all, token :: later, rfl, rfl, .inr ⟨token, later, rfl, inside, amid⟩⟩

/-- A statement is the same in all cases, and the list goes on behind it or has ended with it. -/
theorem barrier_ended {value : Case → Stmt}
    (arrives : (barrier mark sample behind stop stops exact level).Arrives
      ((barrier mark sample behind stop stops exact level).Varied .statement .before) .before
      (barrier mark sample behind stop stops exact level).Ended value errors rest) :
    ∃ tree all later, value = (fun _ => tree) ∧ errors = (fun _ => all) ∧
      (fun case => (rest case).tail) = (fun case => later ++ behind case) ∧
      (Amid stop exact level later ∨ later = [] ∧ stop.kind = .semicolon ∧ level = 0) := by
  obtain ⟨stage, _, varied, reported, place⟩ := arrives
  rcases place with ⟨rfl, token, later, _, amid, rfl⟩ | ⟨⟨rfl, tokens, amid, rfl⟩, isSemicolon⟩
  · obtain ⟨tree, rfl⟩ := varied_here varied
    obtain ⟨all, rfl⟩ := reported_here reported
    exact ⟨tree, all, later, rfl, rfl, rfl, .inl amid⟩
  · obtain ⟨tree, rfl⟩ := varied_here varied
    obtain ⟨all, rfl⟩ := reported_here reported
    obtain ⟨semicolon, later, rfl⟩ := amid_nonempty amid
    have kind : semicolon.kind = .semicolon := isSemicolon sample
    refine ⟨tree, all, later, rfl, rfl, rfl, ?_⟩
    rcases amid_tail amid (by rw [kind]; rfl) with ⟨rfl, rfl, none⟩ | amidLater
    · exact .inr ⟨rfl, kind, none⟩
    · exact .inl amidLater

end Barrier

/-- Statements inside a block of the list, or in a list that a closing brace ends, are the same in
all cases up to a closing brace, and are always read. -/
def ReadsClosed (depth : Nat) : Prop :=
  ∀ (behind : Case → List Token) (stop : Token) (stops : stop.Stops) (exact : Prop) (level : Nat)
    (tokens : List Token), 0 < level ∨ stop.kind = .rightBrace → Amid stop exact level tokens →
      (barrier mark sample behind stop stops exact level).Settles depth (fun _ => blockStatements)
        (fun case => tokens ++ behind case)
        (fun body errors rest => (∃ same, body = fun _ => same) ∧ (∃ all, errors = fun _ => all) ∧
          ∃ brace later, brace.kind = .rightBrace ∧ Amid stop exact level (brace :: later) ∧
            rest = fun case => brace :: later ++ behind case)
        fun _ _ => False

/-- A block is passed together with the brace that closes it. -/
theorem barrier_block {depth : Nat} (reads : ReadsClosed mark sample depth)
    {behind : Case → List Token} {stop : Token} {stops : stop.Stops} {exact : Prop} {level : Nat}
    {now : Stage} {ahead : Case → List Token}
    (ready : (barrier mark sample behind stop stops exact level).ReadyAt .leftBrace now ahead) :
    (barrier mark sample behind stop stops exact level).Passes (depth + 1)
      ((barrier mark sample behind stop stops exact level).Varied .block now) now (fun _ => block)
      ahead (barrier mark sample behind stop stops exact level).Onto := by
  obtain ⟨⟨rfl, tokens, amid, rfl⟩, isBrace⟩ := ready
  obtain ⟨first, rest, rfl⟩ := amid_nonempty amid
  have isBrace : first.kind = .leftBrace := isBrace sample
  refine settles_deeper (fun _ => block.eq_1) (fun _ => block.eq_2) (settles_advance ?_)
  have settles := reads behind stop stops exact (level + 1) rest (.inl (Nat.succ_pos level))
    (amid_opening stops amid isBrace)
  refine settles_mono settles ?_ fun _ _ impossible => impossible.elim
  rintro _ _ _ ⟨⟨body, rfl⟩, ⟨all, rfl⟩, brace, later, closes, amidBrace, rfl⟩
  have inside : brace.kind ≠ .endMark := by
    rw [closes]
    decide
  exact ⟨.before, Stage.reaches_refl _, .inl ⟨body, rfl⟩, reported_fixed _ all, rfl, brace,
    later, inside, amid_closing amidBrace closes, rfl⟩

theorem suffix_of_append {later tokens behind : List Token}
    (within : later ++ behind <:+ tokens ++ behind) : later <:+ tokens := by
  obtain ⟨front, same⟩ := within
  rw [← List.append_assoc] at same
  exact ⟨front, List.append_cancel_right same⟩

def BarrierUniform (depth : Nat) : Prop :=
  ∀ (behind : Case → List Token) (stop : Token) (stops : stop.Stops) (exact : Prop) (level : Nat),
    (barrier mark sample behind stop stops exact level).Uniform depth

theorem closed_step {depth : Nat} (reads : ReadsClosed mark sample depth)
    (uniform : BarrierUniform mark sample depth) : ReadsClosed mark sample (depth + 1) := by
  intro behind stop stops exact level tokens open_ amid
  obtain ⟨first, rest, rfl⟩ := amid_nonempty amid
  by_cases isClosing : first.kind = .rightBrace
  · intro _
    exact .inl ⟨fun _ => [], fun _ => [], _, ⟨⟨[], rfl⟩, ⟨[], rfl⟩, first, rest, isClosing, amid,
      rfl⟩, fun _ => always_block_end isClosing⟩
  · -- Where the statement starts, `now` braces are to be closed; recovery counts from there.
    obtain ⟨now, above, same, ends, here⟩ := amid_here amid
    have inside (case : Case) : first.kind ≠ .endMark := ends_in_inside stops ends (behind case)
    have again (later : List Token) (amidLater : Amid stop exact now later) :=
      reads behind stop stops exact level later open_ (amid_weaken amidLater above same)
    have openNow : 0 < now ∨ stop.kind = .rightBrace := open_.imp_left fun open_ => by omega
    refine settles_step passBrokenInBlock blockStatements.eq_1
      (fun case depth => block_step depth isClosing (inside case)) (fun _ _ _ _ => rfl)
      (fun _ _ _ => rfl)
      ((uniform behind stop stops exact now).statement ⟨rfl, _, here, rfl⟩) ?_ ?_
    · intro value errors place arrives
      obtain ⟨tree, all, later, rfl, rfl, sameRest, goesOn⟩ := barrier_ended mark sample arrives
      rw [sameRest]
      rcases goesOn with amidLater | ⟨_, isSemicolon, none⟩
      · refine settles_mono (again later amidLater) ?_ fun _ _ impossible => impossible
        rintro _ _ _ ⟨⟨body, rfl⟩, ⟨more, rfl⟩, closed⟩
        exact ⟨⟨tree :: body, rfl⟩, ⟨all ++ more, rfl⟩, closed⟩
      · rcases openNow with positive | isBrace
        · omega
        · rw [isBrace] at isSemicolon
          cases isSemicolon
    · intro errors place fails within
      obtain ⟨all, later, rfl, rfl, outside⟩ := barrier_fails mark sample fails
      obtain ⟨onward, amidOnward, passed⟩ := block_passes_broken ends (amid_shallow amid) outside
        (suffix_of_append within) stops openNow
      simp only [passed]
      refine settles_mono (again onward amidOnward) ?_ fun _ _ impossible => impossible
      rintro _ _ _ ⟨⟨body, rfl⟩, ⟨more, rfl⟩, closed⟩
      exact ⟨⟨body, rfl⟩, ⟨all ++ more, rfl⟩, closed⟩

theorem barrier_uniform (depth : Nat) :
    BarrierUniform mark sample depth ∧ ReadsClosed mark sample depth := by
  induction depth with
  | zero =>
      exact ⟨fun _ _ _ _ _ => uniform_bottom _,
        fun _ _ _ _ _ _ _ _ => settles_bottom blockStatements.eq_1⟩
  | succ depth induction =>
      obtain ⟨uniform, reads⟩ := induction
      exact ⟨fun behind stop stops exact level =>
        uniform_deeper (uniform behind stop stops exact level) (barrier_block mark sample reads),
        closed_step mark sample reads uniform⟩

/-- Statements up to the brace that closes them are read up to just this brace if the list is
shallow. -/
theorem closed_list_settles (behind : Case → List Token) {closing : Token}
    (closes : closing.kind = .rightBrace) {tokens : List Token} (balanced : BracesBalanced tokens)
    (inside : ∀ token ∈ tokens, token.kind ≠ .endMark) (few : Shallow tokens)
    (depth : Nat) :
    (barrier mark sample behind closing (.inr closes) True 0).Settles depth
      (fun _ => blockStatements) (fun case => tokens ++ closing :: behind case)
      (fun body errors rest => (∃ same, body = fun _ => same) ∧ (∃ all, errors = fun _ => all) ∧
        rest = fun case => closing :: behind case)
      fun _ _ => False := by
  have ends := ends_in_of_balanced balanced inside closing
  have settles := (barrier_uniform mark sample depth).2 behind closing (.inr closes) True 0
    (tokens ++ [closing]) (.inr closes)
    ⟨0, Nat.le_refl 0, fun _ => ⟨rfl, shallow_closing few closes⟩, ends⟩
  simp only [List.append_assoc, List.singleton_append] at settles
  refine settles_mono settles ?_ fun _ _ impossible => impossible
  rintro _ _ _ ⟨body, errors, brace, later, isBrace, ⟨now, _, exactly, endsBrace⟩, rfl⟩
  obtain ⟨rfl, _⟩ := exactly trivial
  rcases ends_in_brace endsBrace isBrace with ⟨rfl, rfl, _⟩ | ⟨_, impossible, _⟩
  · exact ⟨body, errors, rfl⟩
  · cases impossible

/-- A program up to a semicolon outside its braces is the same in all cases, and goes before what
each case reads behind it. -/
theorem program_settles {stop : Token} (isSemicolon : stop.kind = .semicolon) (depth : Nat)
    (behind : Case → List Token) {tokens : List Token}
    (place : Amid stop False 0 tokens ∨ tokens = []) :
    (barrier mark sample behind stop (.inl isSemicolon) False 0).Settles depth (fun _ => program)
      (fun case => tokens ++ behind case)
      (fun value errors _ => ∃ statements all,
        value = (fun case => statements ++ (readFrom (mark case) (behind case)).1) ∧
        errors = fun case => all ++ (readFrom (mark case) (behind case)).2)
      fun _ _ => False := by
  induction depth generalizing tokens with
  | zero => exact settles_bottom program.eq_1
  | succ depth induction =>
      rcases place with amid | rfl
      · obtain ⟨first, rest, rfl⟩ := amid_nonempty amid
        obtain ⟨now, above, same, ends, here⟩ := amid_here amid
        have stops : stop.Stops := .inl isSemicolon
        have inside (case : Case) : first.kind ≠ .endMark := ends_in_inside stops ends (behind case)
        have uniform := (barrier_uniform mark sample depth).1 behind stop stops False now
        refine settles_step passBroken program.eq_1
          (fun case depth => program_step depth (inside case)) (fun _ _ _ _ => rfl)
          (fun _ _ _ => rfl) (uniform.statement ⟨rfl, _, here, rfl⟩) ?_ ?_
        · intro value errors stopped arrives
          obtain ⟨tree, all, later, rfl, rfl, sameRest, goesOn⟩ := barrier_ended mark sample arrives
          rw [sameRest]
          have placeLater : Amid stop False 0 later ∨ later = [] := by
            rcases goesOn with amidLater | ⟨none, _⟩
            · exact .inl (amid_weaken amidLater above same)
            · exact .inr none
          refine settles_mono (induction placeLater) ?_ fun _ _ impossible => impossible
          rintro _ _ _ ⟨statements, more, rfl, rfl⟩
          refine ⟨tree :: statements, all ++ more, rfl, ?_⟩
          simp only [List.append_assoc]
        · intro errors stopped fails within
          obtain ⟨all, later, rfl, rfl, outside⟩ := barrier_fails mark sample fails
          obtain ⟨onward, placeOnward, passed⟩ := program_passes_broken ends False.elim outside
            (suffix_of_append within) isSemicolon
          simp only [passed]
          refine settles_mono (induction placeOnward) ?_ fun _ _ impossible => impossible
          rintro _ _ _ ⟨statements, more, rfl, rfl⟩
          refine ⟨statements, all ++ more, rfl, ?_⟩
          simp only [List.append_assoc]
      · intro _
        choose rest always using fun case => reads_from (mark case) (behind case)
        exact .inl ⟨_, _, rest, ⟨[], [], rfl, rfl⟩, always⟩

/-- What is read up to a semicolon outside braces does not depend on what stands behind it. -/
theorem read_up_to_semicolon {stop : Token} (isSemicolon : stop.kind = .semicolon)
    {tokens : List Token} (ends : EndsIn stop 0 tokens) :
    ∃ statements errors, ∀ mark behind, readFrom mark (tokens ++ behind) =
      (statements ++ (readFrom mark behind).1, errors ++ (readFrom mark behind).2) := by
  let nothing : EndMark × List Token := (⟨"", ⟨0, 0⟩⟩, [])
  have answers := program_answers _ nothing.1 (tokens ++ nothing.2) (Nat.le_refl _)
  have settles := program_settles Prod.fst nothing isSemicolon _ Prod.snd
    (.inl ⟨0, Nat.le_refl 0, False.elim, ends⟩) answers
  rcases settles with ⟨_, _, _, ⟨statements, errors, rfl, rfl⟩, always⟩ | ⟨_, _, impossible, _⟩
  · exact ⟨statements, errors, fun mark behind => read_from_of_always (always (mark, behind))⟩
  · exact impossible.elim

/-- A semicolon outside braces keeps apart what stands before it and what stands behind it: the
statements and the errors are those of the two parts, one after the other. -/
theorem semicolon_is_barrier {before : List Token} (balanced : BracesBalanced before)
    (inside : ∀ token ∈ before, token.kind ≠ .endMark) {stop : Token}
    (isSemicolon : stop.kind = .semicolon) (behind : List Token) :
    (readTokens (before ++ [stop] ++ behind)).1 =
        (readTokens (before ++ [stop])).1 ++ (readTokens behind).1 ∧
      (readTokens (before ++ [stop] ++ behind)).2.map Report.error =
        (readTokens (before ++ [stop])).2.map Report.error ++
          (readTokens behind).2.map Report.error := by
  obtain ⟨statements, errors, read⟩ :=
    read_up_to_semicolon isSemicolon (ends_in_of_balanced balanced inside stop)
  have readBefore : readFrom (Reader.ofTokens (before ++ [stop])).endMark
      (Reader.ofTokens (before ++ [stop])).ahead = (statements, errors) := by
    have ahead : (Reader.ofTokens (before ++ [stop])).ahead = before ++ [stop] ++ [] := by
      have notEnd : stop.kind ≠ .endMark := by
        rw [isSemicolon]
        decide
      simp [Reader.ofTokens, notEnd]
    rw [ahead, read, read_from_end, List.append_nil, List.append_nil]
  have readAll : readFrom (Reader.ofTokens (before ++ [stop] ++ behind)).endMark
      (Reader.ofTokens (before ++ [stop] ++ behind)).ahead = (statements ++ (readTokens behind).1,
        errors ++ (readTokens behind).2.map Report.error) := by
    by_cases nothing : behind = []
    · subst nothing
      have empty := (read_tokens_eq []).trans (read_from_end _)
      obtain ⟨noStatements, noErrors⟩ := Prod.mk.inj empty
      rw [List.append_nil, readBefore, noStatements, noErrors, List.append_nil, List.append_nil]
    · rw [Reader.of_tokens_append _ nothing, read, ← read_tokens_eq]
  rw [← read_tokens_eq] at readBefore readAll
  obtain ⟨sameBefore, sameErrorsBefore⟩ := Prod.mk.inj readBefore
  obtain ⟨sameAll, sameErrorsAll⟩ := Prod.mk.inj readAll
  rw [sameBefore, sameErrorsBefore, sameAll, sameErrorsAll]
  exact ⟨rfl, rfl⟩

/-- Of `);a` the part behind the semicolon is read as it is read alone. -/
theorem stray_parenthesis_stops_at_semicolon :
    (readTokens [⟨.rightParen, ")", ⟨0, 1⟩⟩, ⟨.semicolon, ";", ⟨1, 2⟩⟩,
        ⟨.identifier, "a", ⟨2, 3⟩⟩]).1 = (readTokens [⟨.identifier, "a", ⟨2, 3⟩⟩]).1 := by
  have balanced : BracesBalanced [⟨.rightParen, ")", ⟨0, 1⟩⟩] := by decide
  have apart := semicolon_is_barrier balanced (by decide)
    (show Token.kind ⟨.semicolon, ";", ⟨1, 2⟩⟩ = .semicolon from rfl)
    [⟨.identifier, "a", ⟨2, 3⟩⟩]
  have nothing : (readTokens [⟨.rightParen, ")", ⟨0, 1⟩⟩, ⟨.semicolon, ";", ⟨1, 2⟩⟩]).1 = [] :=
    List.length_eq_zero_iff.mp (by decide +kernel)
  exact apart.1.trans (congrArg (· ++ _) nothing)

end Scriptlet
