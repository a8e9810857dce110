import Scriptlet.Proofs.Grammar.Cursor
import Scriptlet.Proofs.Grammar.Deep

/-!
Blocks and the braces that close them. Behind an opening brace the tokens either come to the brace
that closes it, or no closing brace among them belongs to an opening one before them. In the first
case the block is read up to that brace, in the second to the end mark, whatever was wrong with the
statements inside.
-/

namespace Scriptlet

open Rule Grammar

/-- Behind an opening brace, `inner` stands up to the brace that closes it. -/
structure ClosesWith (tokens inner : List Token) (closing : Token) (behind : List Token) :
    Prop where
  split : tokens = inner ++ closing :: behind
  balanced : BracesBalanced inner
  closes : closing.kind = .rightBrace

/-- Shallow tokens before the end mark in which every closing brace has its opening one before it.
Other opening braces may be left without a closing one. -/
structure Unclosed (tokens : List Token) : Prop where
  inside : ∀ token ∈ tokens, token.kind ≠ .endMark
  level : ∀ front, front <+: tokens → 0 ≤ Recovery.braceDepth front
  few : Shallow tokens

/-- The tokens are shallow as far as every closing brace has its opening one before it. Behind the
opening brace of a block that is as far as the block goes. -/
def ShallowInside (tokens : List Token) : Prop :=
  ∀ inner, inner <+: tokens → (∀ front, front <+: inner → 0 ≤ Recovery.braceDepth front) →
    Shallow inner

section Unclosed

variable {tokens : List Token}

theorem shallow_inside (shallow : Shallow tokens) : ShallowInside tokens :=
  fun _ isPrefix _ => shallow_infix shallow isPrefix.isInfix

theorem unclosed_nil : Unclosed [] where
  inside _ member := nomatch member
  level front isFront := by rw [List.prefix_nil.mp isFront, Recovery.brace_depth_nil]
  few := shallow_of_short (by decide)

/-- What is known of the level behind a token is known of the level from the token on. -/
theorem level_cons {level : Int} {token : Token} (open_ : 0 ≤ level)
    (bounded : ∀ front, front <+: tokens →
      -(level + Recovery.braceStep token.kind) ≤ Recovery.braceDepth front)
    (front : List Token) (isFront : front <+: token :: tokens) :
    -level ≤ Recovery.braceDepth front := by
  rcases List.prefix_cons_iff.mp isFront with rfl | ⟨later, rfl, isLater⟩
  · rw [Recovery.brace_depth_nil]
    omega
  · have here := bounded later isLater
    rw [Recovery.brace_depth_cons]
    omega

/-- With so many braces open before the tokens, one of them is the first to close more than that, or
none does. -/
theorem closes_or_stays_open (tokens : List Token) (level : Int) (open_ : 0 ≤ level) :
    (∃ inner closing behind, tokens = inner ++ closing :: behind ∧ closing.kind = .rightBrace ∧
      (∀ front, front <+: inner → -level ≤ Recovery.braceDepth front) ∧
      Recovery.braceDepth inner = -level) ∨
    ∀ front, front <+: tokens → -level ≤ Recovery.braceDepth front := by
  induction tokens generalizing level with
  | nil =>
      refine .inr fun front isFront => ?_
      rw [List.prefix_nil.mp isFront, Recovery.brace_depth_nil]
      omega
  | cons token rest induction =>
      by_cases closes : token.kind = .rightBrace ∧ level = 0
      · refine .inl ⟨[], token, rest, rfl, closes.1, fun front isFront => ?_, ?_⟩
        · rw [List.prefix_nil.mp isFront, Recovery.brace_depth_nil]
          omega
        · rw [Recovery.brace_depth_nil, closes.2, Int.neg_zero]
      · -- Otherwise the token leaves no fewer than no braces open, and the rest decides.
        have later : 0 ≤ level + Recovery.braceStep token.kind := by
          by_cases isBrace : token.kind = .rightBrace
          · have positive : level ≠ 0 := fun none => closes ⟨isBrace, none⟩
            rw [isBrace, Recovery.braceStep]
            omega
          · have grows := Recovery.brace_step_nonneg isBrace
            omega
        rcases induction _ later with
          ⟨inner, closing, behind, rfl, isBrace, bounded, total⟩ | bounded
        · refine .inl ⟨token :: inner, closing, behind, rfl, isBrace, level_cons open_ bounded, ?_⟩
          rw [Recovery.brace_depth_cons, total]
          omega
        · exact .inr (level_cons open_ bounded)

theorem closes_or_unclosed (inside : ∀ token ∈ tokens, token.kind ≠ .endMark)
    (few : ShallowInside tokens) :
    (∃ inner closing behind, ClosesWith tokens inner closing behind) ∨ Unclosed tokens := by
  rcases closes_or_stays_open tokens 0 (Int.le_refl 0) with
    ⟨inner, closing, behind, split, closes, bounded, total⟩ | bounded
  · exact .inl ⟨inner, closing, behind, split, ⟨bounded, total⟩, closes⟩
  · exact .inr ⟨inside, bounded, few tokens List.prefix_rfl bounded⟩

/-- Not both: the closing brace has no opening one before it. -/
theorem not_closes_of_unclosed (unclosed : Unclosed tokens) {inner behind : List Token}
    {closing : Token} : ¬ClosesWith tokens inner closing behind := by
  rintro ⟨rfl, balanced, closes⟩
  have level := unclosed.level (inner ++ [closing]) ⟨behind, by simp⟩
  rw [Recovery.brace_depth_append, balanced.2, Recovery.brace_depth_cons, closes] at level
  exact absurd level (by decide)

/-- What follows balanced braces is unclosed if the whole is. -/
theorem unclosed_behind {front : List Token} (unclosed : Unclosed (front ++ tokens))
    (balanced : Recovery.braceDepth front = 0) : Unclosed tokens where
  inside token member := unclosed.inside token (List.mem_append_right front member)
  level later isFront := by
    have level := unclosed.level (front ++ later)
      ((List.prefix_append_right_inj front).mpr isFront)
    rwa [Recovery.brace_depth_append, balanced, Int.zero_add] at level
  few := shallow_suffix unclosed.few (List.suffix_append front tokens)

theorem unclosed_tail {token : Token} (unclosed : Unclosed (token :: tokens))
    (neutral : Recovery.braceStep token.kind = 0) : Unclosed tokens := by
  have level : Recovery.braceDepth [token] = 0 := by
    rw [Recovery.brace_depth_cons, neutral, Recovery.brace_depth_nil]
    rfl
  exact unclosed_behind (show Unclosed ([token] ++ tokens) from unclosed) level

/-- No closing brace stands first. -/
theorem unclosed_first {token : Token} (unclosed : Unclosed (token :: tokens)) :
    token.kind ≠ .rightBrace ∧ token.kind ≠ .endMark := by
  refine ⟨fun closes => ?_, unclosed.inside token List.mem_cons_self⟩
  have level := unclosed.level [token] ⟨tokens, rfl⟩
  rw [Recovery.brace_depth_cons, closes] at level
  exact absurd level (by decide)

/-- Skipping stops in front of unclosed tokens, and on no brace that closes the block around it. -/
theorem skip_unclosed {front ahead : List Token} (unclosed : Unclosed (front ++ ahead)) :
    (Recovery.skipInto (Recovery.braceDepth front) ahead).1 = false ∧
      Unclosed (Recovery.skipInto (Recovery.braceDepth front) ahead).2.tail := by
  induction ahead generalizing front with
  | nil => exact ⟨rfl, unclosed_nil⟩
  | cons token rest induction =>
      -- The depth that skipping counts is that of the tokens up to the current one.
      have level := unclosed.level (front ++ [token]) ⟨rest, by simp⟩
      have inside := unclosed.inside token (by simp)
      rw [List.append_cons] at unclosed
      have bounded := shallow_front unclosed.few
      rw [Recovery.skip_into_front, Recovery.skipFrom,
        if_neg (fun closed => Recovery.count_not_neg level bounded closed.2), if_neg inside]
      split
      · next boundary =>
          have none : Recovery.braceDepth (front ++ [token]) = 0 := by
            by_contra some_
            exact Recovery.count_positive (by omega) bounded boundary.1
          exact ⟨rfl, unclosed_behind unclosed none⟩
      · rw [Recovery.count_of_int]
        exact induction unclosed

theorem passes_broken_unclosed {start stop : List Token} (unclosed : Unclosed start)
    (within : stop <:+ start) : Unclosed (passBrokenInBlock start stop) := by
  obtain ⟨front, rfl⟩ := within
  obtain ⟨closed, behind⟩ := skip_unclosed unclosed
  rw [passBrokenInBlock, Recovery.recovered_append, closed]
  exact behind

end Unclosed

variable (mark : EndMark)

def openGround : Terrain Unit where
  mark _ := mark
  sample := ()
  body _ := []
  errors _ := []
  Ready stage ahead := stage = .before ∧ Unclosed (ahead ())
  Onto stage ahead := stage = .before ∧
    ∃ token rest, Unclosed rest ∧ ahead = fun _ => token :: rest
  look := by
    rintro stage ahead ⟨rfl, unclosed⟩
    refine ⟨(ahead ()).headD mark.token, fun _ => rfl, fun plain => ⟨rfl, ?_⟩⟩
    cases here : ahead () with
    | nil =>
        rw [here] at plain
        exact absurd plain (show ¬TokenKind.Plain .endMark by decide)
    | cons token rest =>
        rw [here] at unclosed plain
        exact ⟨token, rest, unclosed_tail unclosed (brace_step_of_plain plain),
          funext fun _ => here⟩
  used := by
    rintro stage ahead ⟨rfl, token, rest, unclosed, rfl⟩
    exact ⟨token, fun _ => rest, ⟨rfl, unclosed⟩, rfl⟩

def MissesBrace (errors : Unit → List SyntaxError) (rest : Unit → List Token) : Prop :=
  rest () = [] ∧ ∃ front, errors () = front ++ [.unexpected .rightBrace mark.token]

def ReadsUnclosed (depth : Nat) : Prop :=
  ∀ tokens, Unclosed tokens →
    (openGround mark).Settles depth (fun _ => blockStatements) (fun _ => tokens)
      (fun _ _ _ => False) (MissesBrace mark)

variable {mark}

theorem misses_brace_later (errors : Unit → List SyntaxError) {more : Unit → List SyntaxError}
    {rest : Unit → List Token} (misses : MissesBrace mark more rest) :
    MissesBrace mark (fun case => errors case ++ more case) rest := by
  obtain ⟨ended, front, same⟩ := misses
  exact ⟨ended, errors () ++ front, by simp only [same, List.append_assoc]⟩

/-- Behind a statement the tokens are unclosed again. -/
theorem unclosed_after_statement {stage : Stage} {ahead : Unit → List Token}
    (ended : (openGround mark).Ended stage ahead) : Unclosed (ahead ()).tail := by
  rcases ended with ⟨_, token, rest, unclosed, rfl⟩ | ⟨⟨_, unclosed⟩, isSemicolon⟩
  · exact unclosed
  · have isSemicolon : ((ahead ()).headD mark.token).kind = .semicolon := isSemicolon ()
    cases here : ahead () with
    | nil => exact unclosed_nil
    | cons token rest =>
        rw [here] at unclosed isSemicolon
        exact unclosed_tail unclosed (by rw [show token.kind = .semicolon from isSemicolon]; rfl)

theorem unclosed_step {depth : Nat} (reads : ReadsUnclosed mark depth)
    (uniform : (openGround mark).Uniform depth) : ReadsUnclosed mark (depth + 1) := by
  intro tokens unclosed
  cases tokens with
  | nil =>
      exact fun _ => .inr ⟨fun _ => [.unexpected .rightBrace mark.token], fun _ => [],
        ⟨rfl, [], rfl⟩, fun _ => always_unclosed rfl⟩
  | cons first rest =>
      obtain ⟨noBrace, inside⟩ := unclosed_first unclosed
      refine settles_step passBrokenInBlock blockStatements.eq_1
        (fun _ depth => block_step depth noBrace inside) (fun _ _ _ _ => rfl) (fun _ _ _ => rfl)
        (uniform.statement ⟨rfl, unclosed⟩) ?_ ?_
      · rintro value errors stop ⟨stage, _, _, _, ended⟩
        exact settles_mono (reads _ (unclosed_after_statement ended))
          (fun _ _ _ impossible => impossible) fun _ _ => misses_brace_later errors
      · intro errors stop _ within
        exact settles_mono (reads _ (passes_broken_unclosed unclosed within))
          (fun _ _ _ impossible => impossible) fun _ _ => misses_brace_later errors

theorem misses_brace_fails {errors : Unit → List SyntaxError} {rest : Unit → List Token}
    (misses : MissesBrace mark errors rest) : (openGround mark).Fails .before errors rest := by
  refine ⟨.before, Stage.reaches_refl _, reported_fixed .before (errors ()), .inl ⟨rfl, ?_⟩⟩
  rw [misses.1]
  exact unclosed_nil

section Closed

variable {tokens inner behind : List Token} {closing : Token}
  (closes : ClosesWith tokens inner closing behind)

include closes

/-- Statements up to the brace that closes them are read up to this brace. -/
theorem settles_closed (inside : ∀ token ∈ tokens, token.kind ≠ .endMark)
    (few : ShallowInside tokens) (depth : Nat) :
    (openGround mark).Settles depth (fun _ => blockStatements) (fun _ => tokens)
      (fun _ _ stop => stop = fun _ => closing :: behind) fun _ _ => False := by
  obtain ⟨rfl, balanced, isBrace⟩ := closes
  have insideInner (token : Token) (member : token ∈ inner) : token.kind ≠ .endMark :=
    inside token (List.mem_append_left _ member)
  have fewInner := few inner (List.prefix_append inner _) balanced.1
  have settles := closed_list_settles (fun _ => mark) () (fun _ => behind) isBrace balanced
    insideInner fewInner depth
  exact settles_mono settles (fun _ _ _ read => read.2.2) fun _ _ impossible => impossible

theorem unclosed_behind_block {opening : Token} (opens : opening.kind = .leftBrace)
    (unclosed : Unclosed (opening :: tokens)) : Unclosed behind := by
  obtain ⟨rfl, balanced, isBrace⟩ := closes
  have same : opening :: (inner ++ closing :: behind) =
      (opening :: (inner ++ [closing])) ++ behind := by simp
  rw [same] at unclosed
  refine unclosed_behind unclosed ?_
  rw [Recovery.brace_depth_cons, Recovery.brace_depth_append, balanced.2,
    Recovery.brace_depth_cons, opens, isBrace]
  rfl

end Closed

/-- In open ground, a block that is closed is passed, and one that is not ends at the end mark. -/
theorem open_block {depth : Nat} (reads : ReadsUnclosed mark depth) {now : Stage}
    {ahead : Unit → List Token} (ready : (openGround mark).ReadyAt .leftBrace now ahead) :
    (openGround mark).Passes (depth + 1) ((openGround mark).Varied .block now) now (fun _ => block)
      ahead (openGround mark).Onto := by
  obtain ⟨⟨rfl, unclosed⟩, isBrace⟩ := ready
  have isBrace : ((ahead ()).headD mark.token).kind = .leftBrace := isBrace ()
  refine settles_deeper (fun _ => block.eq_1) (fun _ => block.eq_2) (settles_advance ?_)
  cases here : ahead () with
  | nil =>
      rw [here] at isBrace
      cases isBrace
  | cons opening rest =>
      obtain rfl : ahead = fun _ => opening :: rest := funext fun _ => here
      have inside (token : Token) (member : token ∈ rest) : token.kind ≠ .endMark :=
        unclosed.inside token (List.mem_cons_of_mem _ member)
      have few := shallow_inside (shallow_tail unclosed.few)
      rcases closes_or_unclosed inside few with ⟨inner, closing, behind, closes⟩ | unclosedRest
      · refine settles_mono (settles_closed closes inside few depth) ?_
          fun _ _ impossible => impossible.elim
        rintro body errors _ rfl
        exact ⟨.before, Stage.reaches_refl _, .inl ⟨body (), rfl⟩,
          reported_fixed .before (errors ()), rfl, closing, behind,
          unclosed_behind_block closes isBrace unclosed, rfl⟩
      · exact settles_mono (reads rest unclosedRest) (fun _ _ _ impossible => impossible.elim)
          fun _ _ => misses_brace_fails

theorem open_uniform (mark : EndMark) (depth : Nat) :
    (openGround mark).Uniform depth ∧ ReadsUnclosed mark depth := by
  induction depth with
  | zero => exact ⟨uniform_bottom _, fun _ _ => settles_bottom blockStatements.eq_1⟩
  | succ depth induction =>
      obtain ⟨uniform, reads⟩ := induction
      exact ⟨uniform_deeper uniform (open_block reads), unclosed_step reads uniform⟩

section Block

variable {opening : Token} {rest : List Token} {depth : Nat} {outcome : Outcome Block}
  (ran : block depth mark (opening :: rest) = some outcome)

include ran

/-- A block with a closing brace is read up to this brace. -/
theorem block_closes {inner behind : List Token} {closing : Token}
    (inside : ∀ token ∈ rest, token.kind ≠ .endMark) (few : ShallowInside rest)
    (closes : ClosesWith rest inner closing behind) :
    outcome.result.isSome ∧ outcome.ahead = closing :: behind := by
  cases depth with
  | zero => cases ran
  | succ depth =>
      rw [block, run_advance_bind] at ran
      rcases settles_closed closes inside few depth ⟨outcome, ran⟩ with
        ⟨body, errors, stop, rfl, always⟩ | ⟨_, _, impossible, _⟩
      · obtain ⟨result, _, stopped⟩ := always () depth outcome ran
        rw [result]
        exact ⟨rfl, stopped⟩
      · exact impossible.elim

/-- A block without one is read to the end mark, and the last report misses the brace there. -/
theorem block_stays_open (unclosed : Unclosed rest) :
    outcome.result = none ∧ outcome.ahead = [] ∧
      (outcome.reports.map Report.error).getLast? = some (.unexpected .rightBrace mark.token) := by
  cases depth with
  | zero => cases ran
  | succ depth =>
      rw [block, run_advance_bind] at ran
      rcases (open_uniform mark depth).2 rest unclosed ⟨outcome, ran⟩ with
        ⟨_, _, _, impossible, _⟩ | ⟨errors, stop, ⟨ended, front, last⟩, always⟩
      · exact impossible.elim
      · obtain ⟨result, reported, stopped⟩ := always () depth outcome ran
        refine ⟨result, stopped.trans ended, ?_⟩
        rw [reported, last, List.getLast?_concat]

end Block

/-- A block ends as the braces among the tokens behind its opening brace say: it is read exactly if
one of them closes it, and then up to that brace; else reading fails on the end mark, and the last
report misses the brace there. -/
structure EndsAsBraced (mark : EndMark) (rest : List Token) (outcome : Outcome Block) : Prop where
  read_iff : outcome.result.isSome ↔ ∃ inner closing behind, ClosesWith rest inner closing behind
  closed : ∀ inner closing behind, ClosesWith rest inner closing behind →
    outcome.ahead = closing :: behind
  unclosed : outcome.result = none → outcome.ahead = [] ∧
    (outcome.reports.map Report.error).getLast? = some (.unexpected .rightBrace mark.token)

theorem ends_as_braced {mark : EndMark} {opening : Token} {rest : List Token} {depth : Nat}
    {outcome : Outcome Block} (inside : ∀ token ∈ rest, token.kind ≠ .endMark)
    (few : ShallowInside rest) (ran : block depth mark (opening :: rest) = some outcome) :
    EndsAsBraced mark rest outcome := by
  rcases closes_or_unclosed inside few with ⟨inner, closing, behind, closes⟩ | unclosed
  · obtain ⟨read, _⟩ := block_closes ran inside few closes
    refine ⟨iff_of_true read ⟨inner, closing, behind, closes⟩,
      fun _ _ _ closes => (block_closes ran inside few closes).2, fun failed => ?_⟩
    rw [failed] at read
    cases read
  · obtain ⟨failed, ended, last⟩ := block_stays_open ran unclosed
    refine ⟨iff_of_false (by rw [failed]; decide) ?_, fun _ _ _ closes => ?_,
      fun _ => ⟨ended, last⟩⟩
    · rintro ⟨_, _, _, closes⟩
      exact not_closes_of_unclosed unclosed closes
    · exact absurd closes (not_closes_of_unclosed unclosed)

/-- A block has an outcome, which no greater depth changes. -/
theorem block_terminates (mark : EndMark) (ahead : List Token) : ∃ outcome, ∀ depth,
    Reader.callDepth ahead.length ≤ depth → block depth mark ahead = some outcome := by
  have enough : 2 * ahead.length + 3 ≤ Reader.callDepth ahead.length := by
    rw [Reader.callDepth]
    omega
  obtain ⟨outcome, ran⟩ := (rules_suffice _).block mark ahead enough
  exact ⟨outcome, fun depth deeper =>
    extends_deeper (fun depth => (rules_deepen depth).block) deeper mark ahead outcome ran⟩

/-- Where a block is called for while a reader answers a request, an opening brace is current. -/
theorem called_on_brace {reader : Reader} {request : Request} {moment : Moment request.call}
    {caller : Call} {next : Block → Script caller.Result} {pending : Pending request.call caller}
    (reaches : Moment.Reaches reader.endMark (reader.begin request) moment)
    (calls : moment.control = .run (.call .block next) pending) :
    ∃ opening rest, moment.ahead = opening :: rest ∧ opening.kind = .leftBrace ∧
      opening :: rest <:+ reader.ahead := by
  have placed := reaches_placed (reader.begin_placed request (List.suffix_refl _)) reaches
  have within := placed.within
  have inPlace := placed.control
  rw [calls] at inPlace
  have opens : (moment.ahead.headD reader.endMark.token).kind = .leftBrace := inPlace.1.1 rfl
  cases here : moment.ahead with
  | nil =>
      rw [here] at opens
      cases opens
  | cons opening rest =>
      rw [here] at opens within
      exact ⟨opening, rest, rfl, opens, within⟩

/-- A reader of `fn ( ) \x7b` comes to call for the block. -/
theorem calls_for_body (mark : EndMark) (rest : List Token) :
    let ahead : List Token := ⟨.fnWord, "fn", ⟨0, 2⟩⟩ :: ⟨.leftParen, "(", ⟨2, 3⟩⟩ ::
      ⟨.rightParen, ")", ⟨3, 4⟩⟩ :: ⟨.leftBrace, "\x7b", ⟨5, 6⟩⟩ :: rest
    let reader : Reader := ⟨mark, ahead, []⟩
    ∃ (caller : Call) (next : Block → Script caller.Result) (pending : Pending .program caller),
      Moment.Reaches mark (reader.begin .program)
        ⟨.run (.call .block next) pending, ⟨.leftBrace, "\x7b", ⟨5, 6⟩⟩ :: rest, []⟩ := by
  intro ahead reader
  have called : ∃ (caller : Call) (next : Block → Script caller.Result)
      (pending : Pending .program caller), (reader.begin .program).steps mark 13 =
        some ⟨.run (.call .block next) pending, ⟨.leftBrace, "\x7b", ⟨5, 6⟩⟩ :: rest, []⟩ :=
    ⟨_, _, _, rfl⟩
  obtain ⟨caller, next, pending, ran⟩ := called
  exact ⟨caller, next, pending, Moment.reaches_of_steps ran⟩

/-- Each block that is called for while a reader answers a request is called for on an opening brace
and comes back; if what stands behind the brace fits, it comes back as the braces there say. -/
def BlocksEndAsBraced (Fits : List Token → Prop) (reader : Reader) (request : Request) : Prop :=
  ∀ (moment : Moment request.call) (caller : Call) (next : Block → Script caller.Result)
    (pending : Pending request.call caller),
    Moment.Reaches reader.endMark (reader.begin request) moment →
    moment.control = .run (.call .block next) pending →
    let waiting : Pending request.call .block := .call next pending
    ∃ opening rest outcome, moment.ahead = opening :: rest ∧ opening.kind = .leftBrace ∧
      (∀ depth, Reader.callDepth moment.ahead.length ≤ depth →
        block depth reader.endMark moment.ahead = some outcome) ∧
      Moment.Reaches reader.endMark
        ⟨.run Call.block.script waiting, moment.ahead, moment.reports⟩
        ⟨.back outcome.result waiting, outcome.ahead, moment.reports ++ outcome.reports⟩ ∧
      (Fits rest → EndsAsBraced reader.endMark rest outcome)

/-- Whatever a reader was asked for before, and is asked for now: if the end mark of its tokens
stands last only, then its blocks end as the braces say, whatever was wrong inside, as long as no
brace in a block is too deep to be counted. -/
theorem blocks_close_at_their_brace (tokens : List Token) (requests : List Request)
    (inside : ∀ token ∈ (Token.ended tokens).dropLast, token.kind ≠ .endMark) (request : Request) :
    BlocksEndAsBraced ShallowInside (requests.foldl Reader.after (Reader.ofTokens tokens))
      request := by
  intro moment caller next pending reaches calls waiting
  obtain ⟨opening, rest, here, opens, within⟩ := called_on_brace reaches calls
  have insideRest (token : Token) (member : token ∈ rest) : token.kind ≠ .endMark := by
    rw [ended_eq, List.dropLast_concat] at inside
    exact inside token ((within.trans (Reader.ahead_after_all _ requests)).subset
      (List.mem_cons_of_mem opening member))
  let reader := requests.foldl Reader.after (Reader.ofTokens tokens)
  obtain ⟨outcome, terminates⟩ := block_terminates reader.endMark moment.ahead
  have ran := terminates _ (Nat.le_refl _)
  have ranCall : Call.block.rule (Reader.callDepth moment.ahead.length) reader.endMark
      moment.ahead = some outcome := ran
  refine ⟨opening, rest, outcome, here, opens, terminates, Moment.reaches_outcome ranCall,
    fun few => ?_⟩
  rw [here] at ran
  exact ends_as_braced insideRest few ran

/-- The body in `fn() \x7b return \x7d` breaks on the brace that closes it, and is read up to it. -/
theorem broken_body_closes_at_its_brace :
    let closing : Token := ⟨.rightBrace, "\x7d", ⟨14, 15⟩⟩
    let tokens : List Token := [⟨.fnWord, "fn", ⟨0, 2⟩⟩, ⟨.leftParen, "(", ⟨2, 3⟩⟩,
      ⟨.rightParen, ")", ⟨3, 4⟩⟩, ⟨.leftBrace, "\x7b", ⟨5, 6⟩⟩, ⟨.returnWord, "return", ⟨7, 13⟩⟩,
      closing]
    let reader := Reader.ofTokens tokens
    ∃ (moment : Moment .program) (caller : Call) (next : Block → Script caller.Result)
      (pending : Pending .program caller) (outcome : Outcome Block),
      Moment.Reaches reader.endMark (reader.begin .program) moment ∧
      moment.control = .run (.call .block next) pending ∧ cursor tokens moment.ahead = 3 ∧
      (∀ depth, 10 ≤ depth → block depth reader.endMark moment.ahead = some outcome) ∧
      outcome.result.isSome ∧ outcome.ahead = [closing] := by
  intro closing tokens reader
  obtain ⟨caller, next, pending, reaches⟩ := calls_for_body reader.endMark (tokens.drop 4)
  obtain ⟨opening, rest, outcome, here, _, terminates, _, ends⟩ :=
    blocks_close_at_their_brace tokens [] (by decide) .program _ caller next pending reaches rfl
  obtain rfl : rest = tokens.drop 4 := (List.cons.inj here).2.symm
  have closes : ClosesWith (tokens.drop 4) [⟨.returnWord, "return", ⟨7, 13⟩⟩] closing [] :=
    ⟨rfl, by decide, rfl⟩
  have ends := ends (shallow_inside (shallow_of_short (by decide)))
  exact ⟨_, caller, next, pending, outcome, reaches, rfl, rfl, terminates,
    ends.read_iff.mpr ⟨_, _, _, closes⟩, ends.closed _ _ _ closes⟩

section Early

variable {word semicolon name closing : Token} {braces : List Token}
  (isLet : word.kind = .letWord) (wraps : WrapsAround braces)
  (isSemicolon : semicolon.kind = .semicolon) (isName : name.kind = .identifier)
  (closes : closing.kind = .rightBrace)

include isLet wraps isSemicolon isName closes

/-- One closing brace behind so many opening ones closes none before them. -/
theorem opening_run_stays_open {inner behind : List Token} {brace : Token} :
    ¬ClosesWith (word :: (braces ++ [semicolon, name, closing])) inner brace behind := by
  rintro ⟨split, balanced, isBrace⟩
  have closed : Recovery.braceDepth (inner ++ [brace]) = -1 := by
    rw [Recovery.brace_depth_concat, balanced.2, isBrace]
    rfl
  have within : inner ++ [brace] <+: word :: (braces ++ [semicolon, name]) ++ [closing] :=
    ⟨behind, by simp [← split]⟩
  have noBrace : ∀ token ∈ word :: (braces ++ [semicolon, name]), token.kind ≠ .rightBrace := by
    intro token member
    simp only [List.mem_cons, List.mem_append, List.not_mem_nil, or_false] at member
    rcases member with rfl | inRun | rfl | rfl
    · rw [isLet]; decide
    · rw [wraps.opens token inRun]; decide
    · rw [isSemicolon]; decide
    · rw [isName]; decide
  rcases List.prefix_concat_iff.mp within with whole | inFront
  · have deep : Recovery.braceDepth (word :: (braces ++ [semicolon, name])) = 2 ^ 31 := by
      rw [Recovery.brace_depth_cons, Recovery.brace_depth_append,
        Recovery.brace_depth_opening wraps.opens, wraps.many, isLet]
      simp [Recovery.braceDepth, Recovery.braceStep, isSemicolon, isName]
    rw [whole, Recovery.brace_depth_concat, deep, closes] at closed
    exact absurd closed (by decide)
  · exact noBrace brace (inFront.subset (List.mem_append_right inner List.mem_cons_self)) isBrace

/-- The body of a function is closed by that brace nevertheless. -/
theorem deep_body_closes_early_of :
    ¬BlocksEndAsBraced (fun _ => True) (Reader.ofTokens ([⟨.fnWord, "fn", ⟨0, 2⟩⟩,
      ⟨.leftParen, "(", ⟨2, 3⟩⟩, ⟨.rightParen, ")", ⟨3, 4⟩⟩, ⟨.leftBrace, "\x7b", ⟨5, 6⟩⟩,
      word] ++ braces ++ [semicolon, name, closing])) .program := by
  intro ends
  have notEnd : closing.kind ≠ .endMark := by
    rw [closes]
    decide
  have last : (Reader.ofTokens [semicolon, name, closing]).ahead = [semicolon, name, closing] := by
    simp [Reader.ofTokens, notEnd]
  rw [Reader.of_tokens_append _ (List.cons_ne_nil semicolon _), last] at ends
  let mark := (Reader.ofTokens [semicolon, name, closing]).endMark
  let body := word :: (braces ++ [semicolon, name, closing])
  obtain ⟨caller, next, pending, reaches⟩ := calls_for_body mark body
  have sameAhead : [⟨.fnWord, "fn", ⟨0, 2⟩⟩, ⟨.leftParen, "(", ⟨2, 3⟩⟩, ⟨.rightParen, ")", ⟨3, 4⟩⟩,
      ⟨.leftBrace, "\x7b", ⟨5, 6⟩⟩, word] ++ braces ++ [semicolon, name, closing] =
      ⟨.fnWord, "fn", ⟨0, 2⟩⟩ :: ⟨.leftParen, "(", ⟨2, 3⟩⟩ :: ⟨.rightParen, ")", ⟨3, 4⟩⟩ ::
        ⟨.leftBrace, "\x7b", ⟨5, 6⟩⟩ :: body := by
    simp [body]
  rw [sameAhead] at ends
  obtain ⟨opening, rest, outcome, here, _, terminates, _, braced⟩ :=
    ends _ caller next pending reaches rfl
  obtain rfl : rest = body := (List.cons.inj here).2.symm
  obtain ⟨errors, always⟩ := block_closes_between isLet wraps isSemicolon isName closes mark
  have read : outcome.result.isSome := by
    have ran := terminates (Reader.callDepth _ + 1) (Nat.le_succ _)
    rw [block, run_advance_bind] at ran
    rw [(always _ outcome ran).1]
    rfl
  obtain ⟨inner, brace, behind, closesWith⟩ := (braced trivial).read_iff.mp read
  exact opening_run_stays_open isLet wraps isSemicolon isName closes closesWith

end Early

/-- Deeper braces close too early: in `fn ( ) \x7b let` with 2 ^ 31 more opening braces and
`; x \x7d` behind them, the one closing brace closes the body. -/
theorem deep_body_closes_early :
    ¬BlocksEndAsBraced (fun _ => True) (Reader.ofTokens ([⟨.fnWord, "fn", ⟨0, 2⟩⟩,
      ⟨.leftParen, "(", ⟨2, 3⟩⟩, ⟨.rightParen, ")", ⟨3, 4⟩⟩, ⟨.leftBrace, "\x7b", ⟨5, 6⟩⟩,
      ⟨.letWord, "let", ⟨7, 10⟩⟩] ++ List.replicate (2 ^ 31) ⟨.leftBrace, "\x7b", ⟨10, 11⟩⟩ ++
      [⟨.semicolon, ";", ⟨11, 12⟩⟩, ⟨.identifier, "x", ⟨12, 13⟩⟩,
        ⟨.rightBrace, "\x7d", ⟨13, 14⟩⟩])) .program :=
  deep_body_closes_early_of rfl (wraps_around_replicate rfl) rfl rfl rfl

end Scriptlet
