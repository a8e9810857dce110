import Scriptlet.Proofs.Grammar.Barrier

/-!
Lists of tokens that differ only between one pair of braces. Recovery takes the braces and their
interior as one, so it stops at the same place whatever the interior is: before the braces, or
behind them. The lists are shallow up to the end of the interior; in deeper ones recovery may stop
between the braces.
-/

namespace Scriptlet

open Rule Grammar

structure Interior where
  tokens : List Token
  balanced : BracesBalanced tokens
  inside : ∀ token ∈ tokens, token.kind ≠ .endMark

def Interior.empty : Interior where
  tokens := []
  balanced := by decide
  inside := nofun

/-- The statements and the errors that are read from the interior of a block and the brace that
closes it. -/
def readInterior (closing : Token) (tokens : List Token) : Block × List SyntaxError :=
  let depth := Reader.callDepth (tokens.length + 1)
  match blockStatements depth ⟨"", ⟨0, 0⟩⟩ (tokens ++ [closing]) with
  | some outcome => (outcome.result.getD [], outcome.reports.map Report.error)
  | none => ([], [])

theorem interior_always {closing : Token} (closes : closing.kind = .rightBrace)
    (interior : Interior) (few : Shallow interior.tokens) (mark : EndMark) (behind : List Token) :
    Always blockStatements mark (interior.tokens ++ closing :: behind)
      (some (readInterior closing interior.tokens).1) (readInterior closing interior.tokens).2
      (closing :: behind) := by
  let nothing : EndMark × List Token := (⟨"", ⟨0, 0⟩⟩, [])
  have answers : Answers (blockStatements (Reader.callDepth (interior.tokens.length + 1))) nothing.1
      (interior.tokens ++ closing :: nothing.2) := by
    refine (rules_suffice _).blockStatements _ _ (fun _ => ?_) ?_
    · simp [nothing, Reader.callDepth]
    · simp [Reader.callDepth]
  have settles := closed_list_settles Prod.fst nothing Prod.snd closes interior.balanced
    interior.inside few (Reader.callDepth (interior.tokens.length + 1))
  rcases settles answers with ⟨_, _, _, ⟨⟨body, rfl⟩, ⟨errors, rfl⟩, rfl⟩, always⟩ |
    ⟨_, _, impossible, _⟩
  · have read : readInterior closing interior.tokens = (body, errors) := by
      obtain ⟨outcome, ran⟩ := answers
      obtain ⟨result, sameErrors, _⟩ := always nothing _ outcome ran
      have ran : blockStatements (Reader.callDepth (interior.tokens.length + 1)) ⟨"", ⟨0, 0⟩⟩
          (interior.tokens ++ [closing]) = some outcome := ran
      rw [readInterior, ran]
      simp only [result, sameErrors, Option.getD_some]
    rw [read]
    exact always (mark, behind)
  · exact impossible.elim

structure Braces (Case : Type) where
  mark : EndMark
  opening : Token
  closing : Token
  behind : List Token
  opens : opening.kind = .leftBrace
  closes : closing.kind = .rightBrace
  interior : Case → Interior
  sample : Case

namespace Braces

variable {Case : Type} (braces : Braces Case)

def around (front : List Token) (case : Case) : List Token :=
  front ++ braces.opening :: ((braces.interior case).tokens ++ braces.closing :: braces.behind)

def into (front : List Token) (case : Case) : List Token :=
  front ++ braces.opening :: (braces.interior case).tokens

structure Before (front : List Token) : Prop where
  inside : ∀ token ∈ front, token.kind ≠ .endMark
  few : ∀ case, Shallow (braces.into front case)

/-- Places before the braces and behind their interior. The tokens up to the braces leave open so
many more braces than they close. -/
inductive Ready (level : Int) : Stage → (Case → List Token) → Prop where
  | front (front : List Token) : braces.Before front → Recovery.braceDepth front = level →
      Ready level .before (braces.around front)
  | behind {stage : Stage} (rest : List Token) : stage ≠ .before →
      rest <:+ braces.closing :: braces.behind → Ready level stage fun _ => rest

inductive Onto (level : Int) : Stage → (Case → List Token) → Prop where
  | front (token : Token) (front : List Token) : braces.Before (token :: front) →
      Recovery.braceDepth front = level → Onto level .before (braces.around (token :: front))
  | behind {stage : Stage} (token : Token) (rest : List Token) : stage ≠ .before →
      token :: rest <:+ braces.closing :: braces.behind →
      Onto level stage fun _ => token :: rest

section Places

variable {braces} {level : Int} {stage : Stage} {ahead : Case → List Token}

theorem before_tail {token : Token} {front : List Token} (before : braces.Before (token :: front)) :
    braces.Before front where
  inside other member := before.inside other (List.mem_cons_of_mem token member)
  few case := shallow_tail (before.few case)

theorem look_around (ready : braces.Ready level stage ahead) :
    ∃ token, (∀ case, (ahead case).headD braces.mark.token = token) ∧
      (token.kind.Plain → braces.Onto level stage ahead) := by
  cases ready with
  | front front before depth =>
      cases front with
      | nil =>
          refine ⟨braces.opening, fun _ => rfl, fun plain => ?_⟩
          rw [braces.opens] at plain
          exact absurd plain (by decide)
      | cons token front =>
          refine ⟨token, fun _ => rfl, fun plain => .front token front before ?_⟩
          rwa [Recovery.brace_depth_cons, brace_step_of_plain plain, Int.zero_add] at depth
  | behind rest past within =>
      refine ⟨rest.headD braces.mark.token, fun _ => rfl, fun plain => ?_⟩
      cases rest with
      | nil =>
          have ended : braces.mark.token.kind = .endMark := rfl
          rw [List.headD_nil, ended] at plain
          exact absurd plain (by decide)
      | cons token rest => exact .behind token rest past within

theorem ready_behind_used (onto : braces.Onto level stage ahead) :
    ∃ token rest, braces.Ready level stage rest ∧ ahead = fun case => token :: rest case := by
  cases onto with
  | front token front before depth =>
      exact ⟨token, _, .front front (before_tail before) depth, rfl⟩
  | behind token rest past within =>
      exact ⟨token, _, .behind rest past ((List.suffix_cons token rest).trans within), rfl⟩

end Places

def hole (level : Int) : Terrain Case where
  mark _ := braces.mark
  sample := braces.sample
  body case := (readInterior braces.closing (braces.interior case).tokens).1
  errors case := (readInterior braces.closing (braces.interior case).tokens).2
  Ready := braces.Ready level
  Onto := braces.Onto level
  look := look_around
  used := ready_behind_used

variable {braces}

theorem kind_at_front (front : List Token) (case : Case) :
    Recovery.kindAt (braces.around front case) =
      Recovery.kindAt (front ++ [braces.opening]) := by
  cases front <;> rfl

variable (braces)

/-- Where skipping stops: before the braces, on a brace that closes one more than `level` or on a
token with this level behind it, or somewhere past the braces and their interior. -/
inductive Lands (level : Int) : Stage → Bool → (Case → List Token) → Prop where
  | closed (token : Token) (front : List Token) : braces.Before (token :: front) →
      Recovery.braceDepth (token :: front) = level →
      Lands level .before true (braces.around (token :: front))
  | next (token : Token) (front : List Token) : braces.Before (token :: front) →
      Recovery.braceDepth front = level →
      Lands level .before false (braces.around (token :: front))
  | past {stage : Stage} (closed : Bool) (rest : List Token) : stage ≠ .before →
      rest <:+ braces.closing :: braces.behind → Lands level stage closed fun _ => rest

/-- Skipping stops at the same place in all cases, and reads no interior. -/
def Skips (level : Int) (now : Stage) (skipped : Case → Bool × List Token) : Prop :=
  ∃ later closed stop, now.Reaches later ∧ ¬now.Spans later ∧
    braces.Lands level later closed stop ∧ ∀ case, skipped case = (closed, stop case)

theorem skips_same {level : Int} {now : Stage} {skipped other : Case → Bool × List Token}
    (same : ∀ case, skipped case = other case)
    (skips : braces.Skips level now other) : braces.Skips level now skipped := by
  obtain ⟨later, closed, stop, reaches, unread, lands, stops⟩ := skips
  exact ⟨later, closed, stop, reaches, unread, lands, fun case => (same case).trans (stops case)⟩

/-- On a token that leaves no more braces closed than opened, skipping stops or goes on. -/
theorem skip_around_token {depth : Int} (positive : 0 ≤ depth) (bounded : depth < 2 ^ 31)
    (token : Token) (front : List Token) (before : braces.Before (token :: front))
    (later : braces.Skips (depth + Recovery.braceDepth front) .before fun case =>
      Recovery.skipInto depth (braces.around front case)) :
    braces.Skips (depth + Recovery.braceDepth front) .before fun case =>
      Recovery.skipFrom (Int32.ofInt depth) (braces.around (token :: front) case) := by
  have level : ¬(token.kind = .rightBrace ∧ Int32.ofInt depth < 0) :=
    fun closed => Recovery.count_not_neg positive bounded closed.2
  have notEnd := before.inside token List.mem_cons_self
  by_cases stops : Int32.ofInt depth ≤ 0 ∧ (token.kind = .semicolon ∨
      Recovery.kindAt (front ++ [braces.opening]) = .rightBrace ∨
      Recovery.kindAt (front ++ [braces.opening]) = .endMark)
  · have none : depth = 0 := by
      by_contra some_
      exact Recovery.count_positive (by omega) bounded stops.1
    refine ⟨.before, false, _, Stage.reaches_refl _, Stage.not_spans_refl _,
      .next token front before (by omega), fun case => ?_⟩
    rw [← kind_at_front front case] at stops
    change Recovery.skipFrom _ (token :: braces.around front case) = _
    rw [Recovery.skipFrom, if_neg level, if_neg notEnd, if_pos stops]
    rfl
  · refine skips_same braces (fun case => ?_) later
    rw [← kind_at_front front case] at stops
    change Recovery.skipFrom _ (token :: braces.around front case) = _
    rw [Recovery.skipFrom, if_neg level, if_neg notEnd, if_neg stops, Recovery.count_of_int,
      Recovery.skipInto]

/-- Skipping takes the braces and their interior as one. -/
theorem skip_over {past : List Token} (positive : 0 ≤ Recovery.braceDepth past) (case : Case)
    (few : Shallow (past ++ braces.into [] case)) :
    Recovery.skipInto (Recovery.braceDepth past) (braces.around [] case) =
      Recovery.skipFrom (Int32.ofInt (Recovery.braceDepth past))
        (braces.closing :: braces.behind) := by
  have ends := ends_in_of_balanced (braces.interior case).balanced (braces.interior case).inside
    braces.closing
  have notEnd : braces.opening.kind ≠ .endMark := by
    rw [braces.opens]
    decide
  have same : braces.around [] case = braces.opening ::
      ((braces.interior case).tokens ++ [braces.closing] ++ braces.behind) := by
    simp [around]
  have more : Recovery.braceDepth (past ++ [braces.opening]) = Recovery.braceDepth past + 1 := by
    rw [Recovery.brace_depth_concat, braces.opens, Recovery.braceStep]
  have fewInterior : Shallow (past ++ [braces.opening] ++
      ((braces.interior case).tokens ++ [braces.closing])) := by
    have closed := shallow_closing few braces.closes
    simpa [into] using closed
  rw [same, Recovery.skip_into_front,
    Recovery.skip_on (by omega) (shallow_front fewInterior) notEnd,
    Recovery.skip_braces ends braces.closes (by omega) fewInterior, more]
  congr 2
  omega

/-- Skipping from a place before the braces, with no brace closed that was not opened. -/
theorem skip_around (front : List Token) (before : braces.Before front) {past : List Token}
    (positive : 0 ≤ Recovery.braceDepth past)
    (few : ∀ case, Shallow (past ++ braces.into front case)) :
    braces.Skips (Recovery.braceDepth past + Recovery.braceDepth front) .before fun case =>
      Recovery.skipInto (Recovery.braceDepth past) (braces.around front case) := by
  induction front generalizing past with
  | nil =>
      have unread : ¬Stage.Spans .before .skipped := fun spans => by cases spans.2
      exact ⟨.skipped, _, _, .inr rfl, unread, .past _ _ nofun (Recovery.skip_from_suffix
        (Int32.ofInt (Recovery.braceDepth past)) (braces.closing :: braces.behind)),
        fun case => skip_over braces positive case (few case)⟩
  | cons token front induction =>
      have counted (case : Case) : Recovery.skipInto (Recovery.braceDepth past)
          (braces.around (token :: front) case) =
          Recovery.skipFrom (Int32.ofInt (Recovery.braceDepth (past ++ [token])))
            (braces.around (token :: front) case) :=
        Recovery.skip_into_front past token (braces.around front case)
      have step := Recovery.brace_depth_concat past token
      refine skips_same braces counted ?_
      by_cases closed : token.kind = .rightBrace ∧ Recovery.braceDepth past = 0
      · obtain ⟨isBrace, none⟩ := closed
        rw [none, Int.zero_add]
        refine ⟨.before, true, _, Stage.reaches_refl _, Stage.not_spans_refl _,
          .closed token front before rfl, fun case => ?_⟩
        change Recovery.skipFrom _ (token :: braces.around front case) = _
        rw [Recovery.skipFrom, step, none, isBrace, if_pos ⟨rfl, by decide⟩]
        rfl
      · have positiveHere : 0 ≤ Recovery.braceDepth (past ++ [token]) := by
          by_cases isBrace : token.kind = .rightBrace
          · have more : Recovery.braceDepth past ≠ 0 := fun none => closed ⟨isBrace, none⟩
            rw [step, isBrace, Recovery.braceStep]
            omega
          · have grows := Recovery.brace_step_nonneg isBrace
            omega
        have fewLater (case : Case) : Shallow (past ++ [token] ++ braces.into front case) :=
          List.append_cons past token _ ▸ few case
        have bounded := shallow_front (fewLater braces.sample)
        have skips := skip_around_token braces positiveHere bounded token front before
          (induction (before_tail before) positiveHere fewLater)
        rw [step, Int.add_assoc, ← Recovery.brace_depth_cons] at skips
        rw [step]
        exact skips

section Recovers

variable {braces} {level : Int} {now later : Stage} {start stop : Case → List Token}

/-- Recovery behind the braces does not depend on their interior, though it counts its braces. -/
theorem recovers_past (ready : braces.Ready level now start) (past : later ≠ .before)
    {rest : List Token} (within : rest <:+ braces.closing :: braces.behind) :
    braces.Skips level later fun case => recovered (start case) rest := by
  cases ready with
  | behind first _ _ =>
      exact ⟨later, _, _, Stage.reaches_refl _, Stage.not_spans_refl _,
        .past _ _ past ((Recovery.skip_from_suffix _ rest).trans within), fun _ => rfl⟩
  | front front before depth =>
      obtain ⟨between, same⟩ := within
      let open_ := Int32.ofInt (Recovery.braceDepth front + (1 + Recovery.braceDepth between) +
        Recovery.braceStep (Recovery.kindAt rest))
      refine ⟨later, _, _, Stage.reaches_refl _, Stage.not_spans_refl _,
        .past (Recovery.skipFrom open_ rest).1 (Recovery.skipFrom open_ rest).2 past
          ((Recovery.skip_from_suffix _ rest).trans ⟨between, same⟩), fun case => ?_⟩
      have cut : braces.around front case =
          front ++ braces.opening :: ((braces.interior case).tokens ++ between) ++ rest := by
        simp [around, ← same]
      have counted : Recovery.braceDepth
          (front ++ braces.opening :: ((braces.interior case).tokens ++ between)) =
          Recovery.braceDepth front + (1 + Recovery.braceDepth between) := by
        rw [Recovery.brace_depth_append, Recovery.brace_depth_cons, Recovery.brace_depth_append,
          (braces.interior case).balanced.2, Int.zero_add, braces.opens]
        rfl
      simp only [cut, Recovery.recovered_append, counted]
      rfl

theorem around_append (between later : List Token) (case : Case) :
    braces.around (between ++ later) case = between ++ braces.around later case :=
  List.append_assoc _ _ _

theorem into_append (between later : List Token) (case : Case) :
    braces.into (between ++ later) case = between ++ braces.into later case :=
  List.append_assoc _ _ _

theorem recovered_between (between later : List Token) (case : Case) :
    recovered (braces.around (between ++ later) case) (braces.around later case) =
      Recovery.skipInto (Recovery.braceDepth between) (braces.around later case) := by
  rw [around_append, Recovery.recovered_append]

theorem recovers_before (ready : braces.Ready level .before start)
    (place : braces.Ready level .before stop ∨ braces.Onto level .before stop)
    (within : stop braces.sample <:+ start braces.sample) :
    braces.Skips level .before fun case => recovered (start case) (stop case) := by
  cases ready with
  | behind _ past _ => exact absurd rfl past
  | front front before depth =>
      rcases place with ready | onto
      · cases ready with
        | behind _ past _ => exact absurd rfl past
        | front later beforeLater depthLater =>
            obtain ⟨between, rfl⟩ := suffix_of_append within
            rw [Recovery.brace_depth_append] at depth
            have none : Recovery.braceDepth between = 0 := by omega
            have few (case : Case) : Shallow (between ++ braces.into later case) :=
              into_append between later case ▸ before.few case
            have skips := skip_around braces later beforeLater (by omega) few
            rw [none, Int.zero_add, depthLater] at skips
            refine skips_same braces (fun case => ?_) skips
            rw [recovered_between, none]
      · cases onto with
        | behind _ _ past _ => exact absurd rfl past
        | front token later beforeLater depthLater =>
            obtain ⟨between, rfl⟩ := suffix_of_append within
            rw [Recovery.brace_depth_append, Recovery.brace_depth_cons] at depth
            have none : Recovery.braceDepth (between ++ [token]) = 0 := by
              rw [Recovery.brace_depth_concat]
              omega
            have few (case : Case) : Shallow (between ++ [token] ++ braces.into later case) := by
              rw [← List.append_cons]
              exact into_append between (token :: later) case ▸ before.few case
            have skips := skip_around_token braces (Int.le_refl 0) (by decide) token later
              beforeLater (none ▸ skip_around braces later (before_tail beforeLater) (by omega) few)
            rw [depthLater, Int.zero_add] at skips
            refine skips_same braces (fun case => ?_) skips
            rw [recovered_between]
            exact (Recovery.skip_into_front between token (braces.around later case)).trans
              (by rw [none]; rfl)

theorem recovers_around (reaches : now.Reaches later) (ready : braces.Ready level now start)
    (place : braces.Ready level later stop ∨ braces.Onto level later stop)
    (within : stop braces.sample <:+ start braces.sample) :
    braces.Skips level later fun case => recovered (start case) (stop case) := by
  by_cases isBefore : later = .before
  · subst isBefore
    have isBefore : now = .before := by
      rcases reaches with same | start
      · exact same
      · exact start
    subst isBefore
    exact recovers_before ready place within
  · rcases place with readyStop | onto
    · cases readyStop with
      | front => exact absurd rfl isBefore
      | behind rest past withinRest => exact recovers_past ready past withinRest
    · cases onto with
      | front => exact absurd rfl isBefore
      | behind token rest past withinRest => exact recovers_past ready past withinRest

/-- A block goes on at the same place in all cases. -/
theorem block_passes_around
    (recovers : braces.Skips level now fun case =>
      recovered (start case) (stop case)) :
    ∃ later onward, now.Reaches later ∧ ¬now.Spans later ∧
      braces.Ready level later onward ∧
      ∀ case, passBrokenInBlock (start case) (stop case) = onward case := by
  obtain ⟨later, closed, landed, reaches, unread, lands, stops⟩ := recovers
  simp only at stops
  cases lands with
  | closed token front before depth =>
      refine ⟨.before, _, reaches, unread, .front _ before depth, fun case => ?_⟩
      rw [passBrokenInBlock, stops, if_pos rfl]
  | next token front before depth =>
      refine ⟨.before, _, reaches, unread, .front front (before_tail before) depth,
        fun case => ?_⟩
      rw [passBrokenInBlock, stops, if_neg Bool.false_ne_true]
      rfl
  | past closed rest past within =>
      have withinOnward : (if closed then rest else rest.tail) <:+
          braces.closing :: braces.behind := by
        split
        · exact within
        · exact (List.tail_suffix rest).trans within
      refine ⟨later, _, reaches, unread, .behind _ past withinOnward, fun case => ?_⟩
      rw [passBrokenInBlock, stops]

/-- A program goes on at the same place in all cases. -/
theorem program_passes_around
    (recovers : braces.Skips level now fun case =>
      recovered (start case) (stop case)) :
    ∃ later next onward, now.Reaches later ∧ ¬now.Spans later ∧
      braces.Ready next later onward ∧
      ∀ case, passBroken (start case) (stop case) = onward case := by
  obtain ⟨later, closed, landed, reaches, unread, lands, stops⟩ := recovers
  simp only at stops
  cases lands with
  | closed token front before depth | next token front before depth =>
      refine ⟨.before, _, _, reaches, unread, .front front (before_tail before) rfl,
        fun case => ?_⟩
      rw [passBroken, stops]
      rfl
  | past closed rest past within =>
      refine ⟨later, level, _, reaches, unread,
        .behind _ past ((List.tail_suffix rest).trans within), fun case => ?_⟩
      rw [passBroken, stops]

end Recovers

end Braces

end Scriptlet
