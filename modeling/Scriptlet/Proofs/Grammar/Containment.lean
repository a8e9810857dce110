import Scriptlet.Proofs.Grammar.Deep
import Scriptlet.Proofs.Grammar.Surroundings

/-!
What stands between the braces of a block has no effect outside of them. Two lists of tokens that
differ in the interior of one pair of braces, both balanced there, are read alike everywhere else:
either the braces are skipped in both, or both interiors are read as the body of the same block.
-/

namespace Scriptlet

open Rule Grammar

namespace Braces

variable {Case : Type} {braces : Braces Case} {level : Int} {depth : Nat} {now : Stage}
  {ahead : Case → List Token}

/-- Behind the braces the number of open ones does not matter. -/
theorem ready_past (ready : braces.Ready level now ahead) (past : now ≠ .before) (other : Int) :
    braces.Ready other now ahead := by
  cases ready with
  | front => exact absurd rfl past
  | behind rest _ within => exact .behind rest past within

/-- A closing brace at which reading may start is the last token of the block that it closes. -/
theorem onto_of_brace (ready : (braces.hole (level - 1)).ReadyAt .rightBrace now ahead) :
    braces.Onto level now ahead := by
  obtain ⟨place, isBrace⟩ := ready
  cases place with
  | front front before depth =>
      cases front with
      | nil =>
          have isBrace : braces.opening.kind = .rightBrace := isBrace braces.sample
          rw [braces.opens] at isBrace
          cases isBrace
      | cons token front =>
          have isBrace : token.kind = .rightBrace := isBrace braces.sample
          rw [Recovery.brace_depth_cons, isBrace, Recovery.braceStep] at depth
          exact .front token front before (by omega)
  | behind rest past within =>
      cases rest with
      | nil => cases isBrace braces.sample
      | cons token rest => exact .behind token rest past within

theorem ready_after_end (ended : (braces.hole level).Ended now ahead) :
    braces.Ready level now fun case => (ahead case).tail := by
  rcases ended with onto | ⟨place, isSemicolon⟩
  · obtain ⟨token, rest, ready, rfl⟩ := (braces.hole level).used onto
    exact ready
  · cases place with
    | front front before depth =>
        cases front with
        | nil =>
            have isSemicolon : braces.opening.kind = .semicolon := isSemicolon braces.sample
            rw [braces.opens] at isSemicolon
            cases isSemicolon
        | cons token front =>
            have isSemicolon : token.kind = .semicolon := isSemicolon braces.sample
            have neutral : Recovery.braceStep token.kind = 0 := by
              rw [isSemicolon]
              rfl
            rw [Recovery.brace_depth_cons, neutral, Int.zero_add] at depth
            exact .front front (before_tail before) depth
    | behind rest past within =>
        exact .behind rest.tail past ((List.tail_suffix rest).trans within)

/-- Only behind the braces can the end be reached. -/
theorem past_at_end (ready : braces.Ready level now ahead) {token : Token}
    (looked : ∀ case, (ahead case).headD braces.mark.token = token)
    (ended : token.kind = .endMark) : now ≠ .before := by
  cases ready with
  | behind _ past _ => exact past
  | front front before _ =>
      have isFirst := looked braces.sample
      cases front with
      | nil =>
          have isOpening : braces.opening = token := isFirst
          rw [← isOpening, braces.opens] at ended
          cases ended
      | cons first rest =>
          have isFirst : first = token := isFirst
          rw [← isFirst] at ended
          exact absurd ended (before.inside first List.mem_cons_self)

/-- Statements of a block around the braces are read to the brace that closes it, or up to an end
mark behind the braces. -/
def ReadsBodies (braces : Braces Case) (depth : Nat) : Prop :=
  ∀ (level : Int) (now : Stage) (ahead : Case → List Token), braces.Ready level now ahead →
    (braces.hole level).Lists depth blockStatements now ahead
      ((braces.hole level).ReadyAt .rightBrace)
      fun later rest => later ≠ .before ∧ braces.Ready level later rest

theorem varied_body {later : Stage} {value : Case → List Stmt}
    (varied : (braces.hole level).Varied .statements now later value) :
    (braces.hole level).Varied .block now later value := by
  rcases varied with ⟨statements, rfl⟩ | ⟨spans, context, rfl⟩
  · exact Or.inl ⟨statements, rfl⟩
  · exact Or.inr ⟨spans, .inBlock context, rfl⟩

/-- The body of a block around the braces or away from them. -/
theorem body_passes (reads : braces.ReadsBodies depth)
    (ready : braces.Ready (level - 1) now ahead) :
    (braces.hole level).Passes depth ((braces.hole level).Varied .block now) now
      (fun _ => blockStatements) ahead (braces.hole level).Onto := by
  refine settles_mono (reads (level - 1) now ahead ready) ?_ ?_
  · rintro value errors rest ⟨later, reaches, varied, reported, place⟩
    exact ⟨later, reaches, varied_body varied, reported, onto_of_brace place⟩
  · rintro errors rest ⟨later, reaches, reported, past, place⟩
    exact ⟨later, reaches, reported, Or.inl (ready_past place past level)⟩

/-- The body between the braces themselves. -/
theorem interior_passes (before : braces.Before []) :
    (braces.hole level).Passes depth ((braces.hole level).Varied .block .before) .before
      (fun _ => blockStatements) (fun case => (braces.around [] case).tail)
      (braces.hole level).Onto := by
  have few (case : Case) : Shallow (braces.interior case).tokens := shallow_tail (before.few case)
  intro _
  refine .inl ⟨fun case => (readInterior braces.closing (braces.interior case).tokens).1,
    fun case => (readInterior braces.closing (braces.interior case).tokens).2,
    fun _ => braces.closing :: braces.behind, ?_, fun case =>
      interior_always braces.closes (braces.interior case) (few case) braces.mark braces.behind⟩
  have spans : Stage.Spans .before .through := ⟨rfl, rfl⟩
  refine ⟨.through, .inr rfl, .inr ⟨spans, .hole, rfl⟩, .inr ⟨spans, [], [], ?_⟩,
    .behind _ _ (by decide) List.suffix_rfl⟩
  funext case
  rw [List.nil_append, List.append_nil]
  rfl

theorem block_passes (reads : braces.ReadsBodies depth)
    (ready : (braces.hole level).ReadyAt .leftBrace now ahead) :
    (braces.hole level).Passes (depth + 1) ((braces.hole level).Varied .block now) now
      (fun _ => block) ahead (braces.hole level).Onto := by
  refine settles_deeper (fun _ => block.eq_1) (fun _ => block.eq_2) (settles_advance ?_)
  obtain ⟨place, isBrace⟩ := ready
  cases place with
  | front front before open_ =>
      cases front with
      | nil => exact interior_passes before
      | cons token front =>
          have isBrace : token.kind = .leftBrace := isBrace braces.sample
          rw [Recovery.brace_depth_cons, isBrace, Recovery.braceStep] at open_
          exact body_passes reads (.front front (before_tail before) (by omega))
  | behind rest past within =>
      exact body_passes reads (.behind rest.tail past ((List.tail_suffix rest).trans within))

/-- The errors of a broken statement, at the stage where recovery from it stops. -/
theorem reported_broken {later next : Stage} {errors : Case → List SyntaxError}
    (reaches : now.Reaches later) (reachesNext : later.Reaches next) (unread : ¬later.Spans next)
    (reported : (braces.hole level).Reported now later errors) :
    (braces.hole level).Reported now next errors := by
  have none : (braces.hole level).Reported later next fun _ => [] := Or.inl ⟨unread, [], rfl⟩
  simpa only [List.append_nil] using reported_append reaches reachesNext reported none

theorem bodies_deeper (uniform : ∀ level, (braces.hole level).Uniform depth)
    (reads : braces.ReadsBodies depth) : braces.ReadsBodies (depth + 1) := by
  intro level now ahead ready
  obtain ⟨token, looked, _⟩ := (braces.hole level).look ready
  by_cases closes : token.kind = .rightBrace
  · have closed (case : Case) : ((ahead case).headD braces.mark.token).kind =
        .rightBrace := (congrArg Token.kind (looked case)).trans closes
    intro _
    exact Or.inl ⟨fun _ => [], fun _ => [], ahead, ⟨now, Stage.reaches_refl now, Or.inl ⟨[], rfl⟩,
      reported_fixed now [], ready, closed⟩, fun case => always_block_end (closed case)⟩
  · by_cases ended : token.kind = .endMark
    · have unclosed (case : Case) : Always blockStatements braces.mark (ahead case) none
          [.unexpected .rightBrace token] (ahead case) := by
        rw [← looked case] at ended ⊢
        exact always_unclosed ended
      have stuck := And.intro (past_at_end ready looked ended) ready
      intro _
      exact Or.inr ⟨_, ahead, ⟨now, Stage.reaches_refl now, reported_fixed now _, stuck⟩, unclosed⟩
    · have open_ (case : Case) : ((ahead case).headD braces.mark.token).kind ≠
          .rightBrace := looked case ▸ closes
      have inside (case : Case) : ((ahead case).headD braces.mark.token).kind ≠
          .endMark := looked case ▸ ended
      refine settles_step passBrokenInBlock blockStatements.eq_1
        (fun case depth => block_step depth (open_ case) (inside case))
        (fun _ _ _ _ => rfl) (fun _ _ _ => rfl) ((uniform level).statement ready) ?_ ?_
      · rintro value errors stop ⟨later, reaches, varied, reported, ended⟩
        exact lists_behind reaches varied reported (reads level later _ (ready_after_end ended))
      · rintro errors stop ⟨later, reaches, reported, place⟩ within
        obtain ⟨next, onward, reachesNext, unread, readyOnward, same⟩ :=
          block_passes_around (recovers_around reaches ready place within)
        have passed : (fun case => passBrokenInBlock (ahead case) (stop case)) =
            onward := funext same
        rw [passed]
        exact lists_past (Stage.reaches_trans reaches reachesNext)
          (reported_broken reaches reachesNext unread reported) (reads level next _ readyOnward)

theorem hole_uniform (depth : Nat) :
    (∀ level, (braces.hole level).Uniform depth) ∧ braces.ReadsBodies depth := by
  induction depth with
  | zero =>
      exact ⟨fun _ => uniform_bottom _, fun _ _ _ _ => settles_bottom blockStatements.eq_1⟩
  | succ depth induction =>
      obtain ⟨uniform, reads⟩ := induction
      exact ⟨fun level => uniform_deeper (uniform level) (block_passes reads),
        bodies_deeper uniform reads⟩

/-- A program around the braces is read in all cases. -/
theorem program_lists (depth : Nat) (ready : braces.Ready level now ahead) :
    (braces.hole level).Lists depth program now ahead (fun _ _ => True) fun _ _ => False := by
  induction depth generalizing level now ahead with
  | zero => exact settles_bottom program.eq_1
  | succ depth induction =>
      obtain ⟨token, looked, _⟩ := (braces.hole level).look ready
      by_cases ended : token.kind = .endMark
      · have atEnd (case : Case) : ((ahead case).headD braces.mark.token).kind =
            .endMark := (congrArg Token.kind (looked case)).trans ended
        intro _
        exact Or.inl ⟨fun _ => [], fun _ => [], ahead, ⟨now, Stage.reaches_refl now,
          Or.inl ⟨[], rfl⟩, reported_fixed now [], trivial⟩,
          fun case => always_program_end (atEnd case)⟩
      · have inside (case : Case) : ((ahead case).headD braces.mark.token).kind ≠
            .endMark := looked case ▸ ended
        refine settles_step passBroken program.eq_1
          (fun case depth => program_step depth (inside case)) (fun _ _ _ _ => rfl)
          (fun _ _ _ => rfl) (((hole_uniform depth).1 level).statement ready) ?_ ?_
        · rintro value errors stop ⟨later, reaches, varied, reported, ended⟩
          exact lists_behind reaches varied reported (induction (ready_after_end ended))
        · rintro errors stop ⟨later, reaches, reported, place⟩ within
          obtain ⟨next, other, onward, reachesNext, unread, readyOnward, same⟩ :=
            program_passes_around (recovers_around reaches ready place within)
          have passed : (fun case => passBroken (ahead case) (stop case)) = onward :=
            funext same
          have lists := induction readyOnward
          rw [passed]
          exact lists_past (Stage.reaches_trans reaches reachesNext)
            (reported_broken reaches reachesNext unread reported) lists

/-- A list around the braces is read alike in all cases: no interior is read, or each is read as the
body of a block, with its errors among those of the list. -/
theorem read_from_around (front : List Token) (before : braces.Before front) :
    (∃ statements errors, ∀ case,
        readFrom braces.mark (braces.around front case) = (statements, errors)) ∨
      ∃ (context : Context .statements) (first last : List SyntaxError), ∀ case,
        readFrom braces.mark (braces.around front case) =
          (context.fill (readInterior braces.closing (braces.interior case).tokens).1,
            first ++ (readInterior braces.closing (braces.interior case).tokens).2 ++ last) := by
  have answers := program_answers _ braces.mark (braces.around front braces.sample) (Nat.le_refl _)
  rcases program_lists _ (Ready.front front before rfl) answers with
    ⟨value, errors, rest, ⟨later, _, varied, reported, _⟩, always⟩ |
    ⟨_, _, ⟨_, _, _, impossible⟩, _⟩
  · have read (case : Case) := read_from_of_always (always case)
    rcases reported with ⟨unread, all, rfl⟩ | ⟨spans, first, last, rfl⟩
    · rcases varied with ⟨statements, rfl⟩ | ⟨spans, _⟩
      · exact .inl ⟨statements, all, read⟩
      · exact absurd spans unread
    · rcases varied with ⟨statements, rfl⟩ | ⟨_, context, rfl⟩
      · exact .inr ⟨.whole statements, first, last, read⟩
      · exact .inr ⟨context, first, last, read⟩
  · exact impossible.elim

end Braces

/-- Whichever fitting interior the braces have, the tokens are read alike outside of them. Either
the braces are skipped with each of these interiors between them, or each is read as a block in the
same place of the same program, and the errors in the interior stand between the same errors. What
is read from an interior depends on the interior and its closing brace. -/
def ReadAlikeAround (front : List Token) (opening closing : Token) (behind : List Token)
    (Fits : Interior → Prop) : Prop :=
  (∃ statements errors, ∀ interior, Fits interior →
      (readTokens (front ++ [opening] ++ interior.tokens ++ [closing] ++ behind)).1 = statements ∧
        (readTokens (front ++ [opening] ++ interior.tokens ++ [closing] ++ behind)).2.map
          Report.error = errors) ∨
    ∃ (context : Context .statements) (first last : List SyntaxError), ∀ interior, Fits interior →
      (readTokens (front ++ [opening] ++ interior.tokens ++ [closing] ++ behind)).1 =
          context.fill (readInterior closing interior.tokens).1 ∧
        (readTokens (front ++ [opening] ++ interior.tokens ++ [closing] ++ behind)).2.map
          Report.error = first ++ (readInterior closing interior.tokens).2 ++ last

/-- However wrong the interior of a pair of braces is, it changes nothing of what is read outside of
them, as long as no brace in it is too deep to be counted. -/
theorem braces_contain_errors {front : List Token} (inside : ∀ token ∈ front, token.kind ≠ .endMark)
    {opening closing : Token} (opens : opening.kind = .leftBrace)
    (closes : closing.kind = .rightBrace) (behind : List Token) :
    ReadAlikeAround front opening closing behind fun interior =>
      Shallow (front ++ [opening] ++ interior.tokens) := by
  have notEnd : closing.kind ≠ .endMark := by
    rw [closes]
    decide
  obtain ⟨rest, ahead⟩ := Reader.of_tokens_cons notEnd behind
  let Fitting := { interior : Interior // Shallow (front ++ [opening] ++ interior.tokens) }
  by_cases some_ : Nonempty Fitting
  · obtain ⟨sample⟩ := some_
    let braces : Braces Fitting := ⟨(Reader.ofTokens (closing :: behind)).endMark, opening, closing,
      rest, opens, closes, Subtype.val, sample⟩
    have few (interior : Fitting) : Shallow (braces.into front interior) := by
      rw [Braces.into, List.append_cons]
      exact interior.2
    have read (interior : Fitting) :
        ((readTokens (front ++ [opening] ++ interior.1.tokens ++ [closing] ++ behind)).1,
          (readTokens (front ++ [opening] ++ interior.1.tokens ++ [closing] ++ behind)).2.map
            Report.error) = readFrom braces.mark (braces.around front interior) := by
      have cut : front ++ [opening] ++ interior.1.tokens ++ [closing] ++ behind =
          (front ++ opening :: interior.1.tokens) ++ closing :: behind := by
        simp
      rw [read_tokens_eq, cut, Reader.of_tokens_append _ (List.cons_ne_nil closing behind), ahead,
        List.append_assoc]
      rfl
    rcases braces.read_from_around front ⟨inside, few⟩ with
      ⟨statements, errors, same⟩ | ⟨context, first, last, same⟩
    · exact .inl ⟨statements, errors, fun interior fits =>
        Prod.mk.inj ((read ⟨interior, fits⟩).trans (same ⟨interior, fits⟩))⟩
    · exact .inr ⟨context, first, last, fun interior fits =>
        Prod.mk.inj ((read ⟨interior, fits⟩).trans (same ⟨interior, fits⟩))⟩
  · exact .inl ⟨[], [], fun interior fits => absurd ⟨interior, fits⟩ some_⟩

/-- The body of `fn()` is read with any interior of its braces that is not too long. -/
theorem function_body_contains_errors :
    ∃ (context : Context .statements) (first last : List SyntaxError), ∀ interior : Interior,
      interior.tokens.length < 2 ^ 30 →
        (readTokens ([⟨.fnWord, "fn", ⟨0, 2⟩⟩, ⟨.leftParen, "(", ⟨2, 3⟩⟩,
          ⟨.rightParen, ")", ⟨3, 4⟩⟩, ⟨.leftBrace, "\x7b", ⟨4, 5⟩⟩] ++ interior.tokens ++
          [⟨.rightBrace, "\x7d", ⟨6, 7⟩⟩])).1 =
            context.fill (readInterior ⟨.rightBrace, "\x7d", ⟨6, 7⟩⟩ interior.tokens).1 ∧
        (readTokens ([⟨.fnWord, "fn", ⟨0, 2⟩⟩, ⟨.leftParen, "(", ⟨2, 3⟩⟩,
          ⟨.rightParen, ")", ⟨3, 4⟩⟩, ⟨.leftBrace, "\x7b", ⟨4, 5⟩⟩] ++ interior.tokens ++
          [⟨.rightBrace, "\x7d", ⟨6, 7⟩⟩])).2.map Report.error =
            first ++ (readInterior ⟨.rightBrace, "\x7d", ⟨6, 7⟩⟩ interior.tokens).2 ++ last := by
  let front : List Token :=
    [⟨.fnWord, "fn", ⟨0, 2⟩⟩, ⟨.leftParen, "(", ⟨2, 3⟩⟩, ⟨.rightParen, ")", ⟨3, 4⟩⟩]
  let opening : Token := ⟨.leftBrace, "\x7b", ⟨4, 5⟩⟩
  let closing : Token := ⟨.rightBrace, "\x7d", ⟨6, 7⟩⟩
  let comma : Interior := ⟨[⟨.comma, ",", ⟨5, 6⟩⟩], by decide, by decide⟩
  have fits (interior : Interior) (short : interior.tokens.length < 2 ^ 30) :
      Shallow (front ++ [opening] ++ interior.tokens) := by
    refine shallow_of_short ?_
    simp only [List.length_append, front, List.length_cons, List.length_nil]
    omega
  have inside : ∀ token ∈ front, token.kind ≠ .endMark := by decide
  have opens : opening.kind = .leftBrace := rfl
  have closes : closing.kind = .rightBrace := rfl
  rcases braces_contain_errors inside opens closes [] with
    ⟨_, errors, skipped⟩ | ⟨context, first, last, read⟩
  · -- What is skipped adds no error, but a comma between the braces does.
    have silent : (readTokens (front ++ [opening] ++ [] ++ [closing] ++ [])).2.map Report.error =
        [] := by
      decide +kernel
    have loud : (readTokens (front ++ [opening] ++ comma.tokens ++ [closing] ++ [])).2.map
        Report.error ≠ [] := by
      decide +kernel
    rw [(skipped comma (fits comma (by decide))).2,
      ← (skipped .empty (fits .empty (by decide))).2] at loud
    exact absurd silent loud
  · refine ⟨context, first, last, fun interior short => ?_⟩
    have same := read interior (fits interior short)
    rw [List.append_nil] at same
    exact same

section Leak

def nestedStatement (opening semicolon name closing : Token) (count : Nat) : List Token :=
  List.replicate count opening ++ [semicolon, name] ++ List.replicate count closing

variable {opening semicolon name closing : Token} (opens : opening.kind = .leftBrace)
  (isSemicolon : semicolon.kind = .semicolon) (isName : name.kind = .identifier)
  (closes : closing.kind = .rightBrace)

include opens isSemicolon isName closes

theorem nested_balanced (count : Nat) :
    BracesBalanced (nestedStatement opening semicolon name closing count) := by
  induction count with
  | zero =>
      have flat (tokens : List Token) (isFront : tokens <+: [semicolon, name]) :
          Recovery.braceDepth tokens = 0 := by
        rcases List.prefix_cons_iff.mp isFront with rfl | ⟨later, rfl, isLater⟩
        · rfl
        · rcases List.prefix_cons_iff.mp isLater with rfl | ⟨last, rfl, isLast⟩
          · simp [Recovery.braceDepth, Recovery.braceStep, isSemicolon]
          · obtain rfl := List.prefix_nil.mp isLast
            simp [Recovery.braceDepth, Recovery.braceStep, isSemicolon, isName]
      exact ⟨fun front isFront => (flat front isFront).ge, flat _ List.prefix_rfl⟩
  | succ count induction =>
      have wrapped := balanced_wrap opens closes induction
      simp only [nestedStatement, List.append_assoc] at wrapped
      rw [nestedStatement, List.replicate_succ, List.replicate_succ']
      simpa using wrapped

theorem nested_inside (count : Nat) :
    ∀ token ∈ nestedStatement opening semicolon name closing count, token.kind ≠ .endMark := by
  intro token member ended
  simp only [nestedStatement, List.mem_append, List.mem_replicate, List.mem_cons,
    List.not_mem_nil, or_false] at member
  rcases member with (⟨_, rfl⟩ | rfl | rfl) | ⟨_, rfl⟩ <;> simp_all

/-- With just so many braces that the count of them wraps around, the statement is read as one of
the program around them. -/
theorem nested_statement_leaks {word : Token} (isLet : word.kind = .letWord) {count : Nat}
    (deep : count + 1 = 2 ^ 31) : ∃ rest,
    (readTokens ([word] ++ [opening] ++ nestedStatement opening semicolon name closing count ++
      [closing] ++ [])).1 = .expr (.name name.slice) :: rest := by
  have wraps : WrapsAround (opening :: List.replicate count opening) :=
    ⟨List.forall_mem_cons.mpr ⟨opens, fun _ member => List.eq_of_mem_replicate member ▸ opens⟩,
      by rw [List.length_cons, List.length_replicate, deep]⟩
  have notEnd : closing.kind ≠ .endMark := by
    rw [closes]
    decide
  have ahead : (Reader.ofTokens [closing]).ahead = [closing] := by simp [Reader.ofTokens, notEnd]
  have cut : [word] ++ [opening] ++ nestedStatement opening semicolon name closing count ++
      [closing] ++ [] = word :: (opening :: List.replicate count opening ++ semicolon :: name ::
        List.replicate count closing) ++ [closing] := by
    simp [nestedStatement]
  have same : word :: (opening :: List.replicate count opening ++ semicolon :: name ::
      List.replicate count closing) ++ [closing] = word :: (opening :: List.replicate count opening
        ++ semicolon :: name :: closing :: List.replicate count closing) := by
    simp [← List.replicate_succ', List.replicate_succ]
  refine ⟨(readFrom (Reader.ofTokens [closing]).endMark
    (closing :: List.replicate count closing)).1, (congrArg Prod.fst (read_tokens_eq _)).trans ?_⟩
  rw [cut, Reader.of_tokens_append _ (List.cons_ne_nil closing []), ahead, same]
  exact program_reads_between isLet wraps isSemicolon isName closes _

end Leak

theorem fill_nil {context : Context .statements} {body : Block} (empty : context.fill body = [])
    (other : Block) : context.fill other = [] := by
  cases context with
  | whole tree => exact empty
  | firstStatement first rest | laterStatements first rest => cases empty

/-- Deeper braces leak: between those of `let \x7b \x7d`, which are skipped, a statement behind
2 ^ 31 - 1 more of them is read as a statement of the program. -/
theorem deep_interior_leaks :
    ¬ReadAlikeAround [⟨.letWord, "let", ⟨0, 3⟩⟩] ⟨.leftBrace, "\x7b", ⟨4, 5⟩⟩
      ⟨.rightBrace, "\x7d", ⟨6, 7⟩⟩ [] fun _ => True := by
  let word : Token := ⟨.letWord, "let", ⟨0, 3⟩⟩
  let opening : Token := ⟨.leftBrace, "\x7b", ⟨4, 5⟩⟩
  let closing : Token := ⟨.rightBrace, "\x7d", ⟨6, 7⟩⟩
  let semicolon : Token := ⟨.semicolon, ";", ⟨5, 6⟩⟩
  let name : Token := ⟨.identifier, "x", ⟨5, 6⟩⟩
  have isLet : word.kind = .letWord := rfl
  have opens : opening.kind = .leftBrace := rfl
  have isSemicolon : semicolon.kind = .semicolon := rfl
  have isName : name.kind = .identifier := rfl
  have closes : closing.kind = .rightBrace := rfl
  obtain ⟨count, deep⟩ : ∃ count, count + 1 = 2 ^ 31 := ⟨2 ^ 31 - 1, by decide⟩
  let interior : Interior := ⟨nestedStatement opening semicolon name closing count,
    nested_balanced opens isSemicolon isName closes count,
    nested_inside opens isSemicolon isName closes count⟩
  have skipped : (readTokens ([word] ++ [opening] ++ [] ++ [closing] ++ [])).1 = [] :=
    List.length_eq_zero_iff.mp (by decide +kernel)
  obtain ⟨rest, leaks⟩ := nested_statement_leaks opens isSemicolon isName closes isLet deep
  rintro (⟨statements, errors, same⟩ | ⟨context, first, last, same⟩)
  · have none : statements = [] := (same .empty trivial).1.symm.trans skipped
    have some_ : statements = _ :: rest := (same interior trivial).1.symm.trans leaks
    rw [none] at some_
    cases some_
  · have none := (same .empty trivial).1.symm.trans skipped
    have some_ := (same interior trivial).1.symm.trans leaks
    rw [fill_nil none] at some_
    cases some_

end Scriptlet
