import Scriptlet.Proofs.Grammar.Barrier

/-!
Braces too deep to be counted. Where so many braces open one behind the other that the count of them
wraps around, recovery takes itself to be outside of them and stops at the next semicolon. The
statement behind it is then read as if it stood where the broken one does.
-/

namespace Scriptlet

open Rule Grammar

/-- Opening braces in a row, just so many that the count of them wraps around. -/
structure WrapsAround (braces : List Token) : Prop where
  opens : ∀ brace ∈ braces, brace.kind = .leftBrace
  many : braces.length = 2 ^ 31

theorem wraps_around_nonempty {braces : List Token} (wraps : WrapsAround braces) :
    ∃ brace rest, braces = brace :: rest := by
  refine List.exists_cons_of_length_pos ?_
  rw [wraps.many]
  decide

theorem wraps_around_replicate {brace : Token} (opens : brace.kind = .leftBrace) :
    WrapsAround (List.replicate (2 ^ 31) brace) where
  opens _ member := List.eq_of_mem_replicate member ▸ opens
  many := List.length_replicate

namespace Recovery

variable {braces behind : List Token} {semicolon : Token}

theorem brace_depth_opening (opens : ∀ brace ∈ braces, brace.kind = .leftBrace) :
    braceDepth braces = braces.length := by
  induction braces with
  | nil => rfl
  | cons brace braces induction =>
      obtain ⟨isBrace, opensRest⟩ := List.forall_mem_cons.mp opens
      rw [brace_depth_cons, isBrace, induction opensRest, braceStep, List.length_cons]
      omega

theorem skip_from_inside {token : Token} (noBrace : token.kind ≠ .rightBrace)
    (inside : token.kind ≠ .endMark) (open_ : Int32) (rest : List Token) :
    skipFrom open_ (token :: rest) =
      if open_ ≤ 0 ∧ (token.kind = .semicolon ∨ kindAt rest = .rightBrace ∨
        kindAt rest = .endMark) then (false, token :: rest)
      else skipFrom (count open_ (kindAt rest)) rest := by
  rw [skipFrom, if_neg (fun closed => noBrace closed.1), if_neg inside]

/-- Skipping never stops between opening braces, however they are counted. -/
theorem skip_opening (opens : ∀ brace ∈ braces, brace.kind = .leftBrace) (depth : Int)
    (isSemicolon : semicolon.kind = .semicolon) :
    skipInto depth (braces ++ semicolon :: behind) =
      skipInto (depth + braces.length) (semicolon :: behind) := by
  induction braces generalizing depth with
  | nil => rw [List.nil_append, List.length_nil, Int.ofNat_zero, Int.add_zero]
  | cons brace braces induction =>
      obtain ⟨isBrace, opensRest⟩ := List.forall_mem_cons.mp opens
      have inside : kindAt (braces ++ semicolon :: behind) ≠ .rightBrace ∧
          kindAt (braces ++ semicolon :: behind) ≠ .endMark := by
        cases braces with
        | nil => rw [List.nil_append, kindAt, isSemicolon]; decide
        | cons next braces =>
            rw [List.cons_append, kindAt, opensRest next List.mem_cons_self]
            decide
      have noBrace : brace.kind ≠ .rightBrace ∧ brace.kind ≠ .endMark := by
        rw [isBrace]
        decide
      rw [List.cons_append, skip_into_cons, skip_from_inside noBrace.1 noBrace.2, if_neg,
        count_of_int, List.length_cons]
      · have next := induction opensRest (depth + 1)
        rw [skipInto] at next
        rw [isBrace, braceStep, next]
        congr 1
        omega
      · rintro ⟨_, isSemicolon | closes | ended⟩
        · cases isBrace.symm.trans isSemicolon
        · exact inside.1 closes
        · exact inside.2 ended

/-- Behind so many braces skipping stops at the first semicolon. -/
theorem skip_wraps (wraps : WrapsAround braces) (isSemicolon : semicolon.kind = .semicolon)
    (behind : List Token) :
    skipInto 0 (braces ++ semicolon :: behind) = (false, semicolon :: behind) := by
  have wrapped : Int32.ofInt (2 ^ 31) ≤ 0 := by decide
  have inside : semicolon.kind ≠ .rightBrace ∧ semicolon.kind ≠ .endMark := by
    rw [isSemicolon]
    decide
  rw [skip_opening wraps.opens 0 isSemicolon, wraps.many, skip_into_cons,
    skip_from_inside inside.1 inside.2, if_pos]
  rw [isSemicolon]
  exact ⟨wrapped, .inl rfl⟩

end Recovery

section Statement

variable {mark : EndMark} {word brace name : Token} {rest : List Token}

/-- A statement that binds no name breaks on its first word. -/
theorem bind_fails (isLet : word.kind = .letWord) (opens : brace.kind = .leftBrace) :
    Always statement mark (word :: brace :: rest) none [.unexpected .identifier brace]
      (word :: brace :: rest) := by
  intro depth outcome ran
  cases depth with
  | zero => cases ran
  | succ depth =>
      have noName : brace.kind ≠ .identifier := by
        rw [opens]
        decide
      have failed : expect .identifier mark (word :: brace :: rest) =
          some ⟨none, [⟨.unexpected .identifier brace, (brace :: rest).length⟩],
            word :: brace :: rest⟩ := by
        rw [run_expect, List.tail_cons, List.headD_cons, if_neg noName]
        rfl
      rw [statement, run_current_bind, List.headD_cons, isLet] at ran
      simp only at ran
      rw [bind_eq_and_then, and_then_failed _ _ _ _ _ _ failed] at ran
      cases ran
      exact ⟨rfl, rfl, rfl⟩

/-- A name in front of a closing brace is an expression. -/
theorem run_name (isName : name.kind = .identifier) (closes : brace.kind = .rightBrace)
    (depth : Nat) : expression .lowest (depth + 2) mark (name :: brace :: rest) =
      some ⟨some (.name name.slice), [], name :: brace :: rest⟩ := by
  have operandRan : operand (depth + 1) mark (name :: brace :: rest) =
      some ⟨some (.name name.slice), [], name :: brace :: rest⟩ := by
    rw [operand, run_current_bind, List.headD_cons, isName]
    rfl
  have noLink : ¬Precedence.lowest < Precedence.ofKind brace.kind := by
    rw [closes]
    decide
  rw [expression, bind_eq_and_then, and_then_result _ _ _ _ _ _ _ operandRan, links, run_peek_bind,
    List.tail_cons, List.headD_cons, if_neg noLink]
  rfl

theorem name_is_statement (isName : name.kind = .identifier) (closes : brace.kind = .rightBrace) :
    Always statement mark (name :: brace :: rest) (some (.expr (.name name.slice))) []
      (name :: brace :: rest) := by
  have noSemicolon : brace.kind ≠ .semicolon := by
    rw [closes]
    decide
  rintro (_ | _ | _ | depth) outcome ran
  -- Less depth than this does not suffice for the name.
  case zero => cases ran
  case succ.zero | succ.succ.zero =>
    rw [statement, run_current_bind, List.headD_cons, isName] at ran
    cases ran
  case succ.succ.succ =>
    rw [statement, run_current_bind, List.headD_cons, isName] at ran
    simp only at ran
    rw [bind_eq_and_then, and_then_result _ _ _ _ _ _ _ (run_name isName closes depth),
      run_skip_bind, List.tail_cons, List.headD_cons, if_neg noSemicolon] at ran
    cases ran
    exact ⟨rfl, rfl, rfl⟩

end Statement

section Broken

variable {word semicolon name closing : Token} {braces behind : List Token}
  (isLet : word.kind = .letWord) (wraps : WrapsAround braces)
  (isSemicolon : semicolon.kind = .semicolon)

include isLet wraps isSemicolon

/-- From a statement that breaks in front of the braces, recovery stops between them. -/
theorem recovered_between_braces :
    recovered (word :: (braces ++ semicolon :: behind))
      (word :: (braces ++ semicolon :: behind)) = (false, semicolon :: behind) := by
  have first := Recovery.recovered_append [] (word :: (braces ++ semicolon :: behind))
  rw [List.nil_append] at first
  obtain ⟨brace, rest, rfl⟩ := wraps_around_nonempty wraps
  have opens := wraps.opens brace List.mem_cons_self
  have inside : word.kind ≠ .rightBrace ∧ word.kind ≠ .endMark := by
    rw [isLet]
    decide
  rw [first, Recovery.skip_into_cons, Recovery.skip_from_inside inside.1 inside.2, isLet,
    List.cons_append, Recovery.kindAt, opens, if_neg, Recovery.count_of_int]
  · have stops := Recovery.skip_wraps wraps isSemicolon behind
    rw [Recovery.skipInto, List.cons_append, Recovery.kindAt, opens] at stops
    exact stops
  · rintro ⟨_, ended | ended | ended⟩ <;> cases ended

omit isSemicolon in
theorem statement_breaks (mark : EndMark) : ∃ errors,
    Always statement mark (word :: (braces ++ semicolon :: behind)) none errors
      (word :: (braces ++ semicolon :: behind)) := by
  obtain ⟨brace, rest, rfl⟩ := wraps_around_nonempty wraps
  exact ⟨_, bind_fails isLet (wraps.opens brace List.mem_cons_self)⟩

variable (isName : name.kind = .identifier) (closes : closing.kind = .rightBrace)

include isName closes

/-- A program reads the name between the braces as a statement of its own. -/
theorem program_reads_between (mark : EndMark) :
    (readFrom mark (word :: (braces ++ semicolon :: name :: closing :: behind))).1 =
      .expr (.name name.slice) :: (readFrom mark (closing :: behind)).1 := by
  have inside : word.kind ≠ .endMark ∧ name.kind ≠ .endMark := by
    rw [isLet, isName]
    decide
  obtain ⟨rest, always⟩ := reads_from mark (closing :: behind)
  have named : Always program mark (name :: closing :: behind)
      (some (.expr (.name name.slice) :: (readFrom mark (closing :: behind)).1))
      ([] ++ (readFrom mark (closing :: behind)).2) rest := by
    refine always_step program.eq_1 (fun depth => program_step depth ?_)
      (name_is_statement isName closes) (fun _ => rfl) always
    exact inside.2
  obtain ⟨errors, breaks⟩ := statement_breaks isLet wraps mark
  have goesOn : passBroken (word :: (braces ++ semicolon :: name :: closing :: behind))
      (word :: (braces ++ semicolon :: name :: closing :: behind)) = name :: closing :: behind := by
    rw [passBroken, recovered_between_braces isLet wraps isSemicolon, List.tail_cons]
  have whole : Always program mark (word :: (braces ++ semicolon :: name :: closing :: behind))
      (some (.expr (.name name.slice) :: (readFrom mark (closing :: behind)).1))
      (errors ++ ([] ++ (readFrom mark (closing :: behind)).2)) rest := by
    refine always_step program.eq_1 (fun depth => program_step depth ?_) breaks (fun _ => goesOn)
      named
    exact inside.1
  rw [read_from_of_always whole]

/-- A block reads the name between the braces as a statement of its own, and the first closing brace
behind it closes the block. -/
theorem block_closes_between (mark : EndMark) : ∃ errors,
    Always blockStatements mark (word :: (braces ++ semicolon :: name :: closing :: behind))
      (some [.expr (.name name.slice)]) errors (closing :: behind) := by
  have inside : (word.kind ≠ .rightBrace ∧ word.kind ≠ .endMark) ∧
      name.kind ≠ .rightBrace ∧ name.kind ≠ .endMark := by
    rw [isLet, isName]
    decide
  have closed : Always blockStatements mark (closing :: behind) (some []) [] (closing :: behind) :=
    always_block_end closes
  have named : Always blockStatements mark (name :: closing :: behind)
      (some [.expr (.name name.slice)]) [] (closing :: behind) := by
    refine always_step blockStatements.eq_1 (fun depth => block_step depth ?_ ?_)
      (name_is_statement isName closes) (fun _ => rfl) closed
    · exact inside.2.1
    · exact inside.2.2
  obtain ⟨errors, breaks⟩ := statement_breaks isLet wraps mark
  have goesOn : passBrokenInBlock (word :: (braces ++ semicolon :: name :: closing :: behind))
      (word :: (braces ++ semicolon :: name :: closing :: behind)) = name :: closing :: behind := by
    rw [passBrokenInBlock, recovered_between_braces isLet wraps isSemicolon,
      if_neg Bool.false_ne_true, List.tail_cons]
  refine ⟨errors ++ [], always_step blockStatements.eq_1
    (fun depth => block_step depth ?_ ?_) breaks (fun _ => goesOn) named⟩
  · exact inside.1.1
  · exact inside.1.2

end Broken

end Scriptlet
