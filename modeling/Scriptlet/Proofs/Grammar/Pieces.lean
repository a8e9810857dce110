import Scriptlet.Proofs.Grammar.Sequence
import Scriptlet.Proofs.Grammar.Soundness

/-!
The pieces of a program as it is read: for each statement, and for each attempt at one that was
given up, the tokens from its start to where reading goes on. The pieces make up the whole list of
tokens, and a piece without a report is a statement that the grammar derives from its tokens.
-/

namespace Scriptlet

/-- What was read in one place of a program. No statement means that the attempt was given up. -/
structure Piece where
  tokens : List Token
  statement : Option Stmt
  reports : List Report

structure Piece.Faithful (piece : Piece) : Prop where
  nonempty : piece.tokens ≠ []
  reported : piece.statement = none → piece.reports ≠ []
  spelled {statement : Stmt} : piece.statement = some statement → piece.reports = [] →
    SpellsEnded piece.tokens statement

namespace Grammar

open Rule

/-- The tokens are read as these pieces, one behind the other: each is what reading a statement
yields there, and the next begins where a program goes on. -/
inductive ReadPieces (mark : EndMark) : List Token → List Piece → Prop where
  | done : ReadPieces mark [] []
  | next {depth : Nat} {piece : Piece} {behind stop : List Token} {pieces : List Piece} :
      statement depth mark (piece.tokens ++ behind) =
        some ⟨piece.statement, piece.reports, stop⟩ →
      resume (piece.tokens ++ behind) ⟨piece.statement, piece.reports, stop⟩ = behind →
      piece.tokens ≠ [] → ReadPieces mark behind pieces →
      ReadPieces mark (piece.tokens ++ behind) (piece :: pieces)

section ReadPieces

variable {mark : EndMark} {ahead : List Token} {pieces : List Piece}

theorem pieces_concatenate (pieced : ReadPieces mark ahead pieces) :
    ahead = pieces.flatMap Piece.tokens := by
  induction pieced with
  | done => rfl
  | next _ _ _ _ induction => rw [List.flatMap_cons, ← induction]

theorem resume_suffix {depth : Nat} {start : List Token} {read : Outcome Stmt}
    (ran : statement depth mark start = some read) : ∃ stop, stop <:+ start ∧
      resume start read = stop.tail := by
  have within := ((rules_account depth).statement mark start read ran).1
  rw [resume]
  split
  · exact ⟨read.ahead, within, rfl⟩
  · exact ⟨_, (Recovery.skip_from_suffix _ read.ahead).trans within, rfl⟩

/-- A list of tokens is cut in two before what is left when a later part of it loses its first
token. -/
theorem cut_before_tail {start stop : List Token} (within : stop <:+ start) (more : start ≠ []) :
    ∃ tokens, tokens ≠ [] ∧ start = tokens ++ stop.tail := by
  obtain ⟨front, rfl⟩ := within
  cases stop with
  | nil => exact ⟨front, by simpa using more, rfl⟩
  | cons token rest => exact ⟨front ++ [token], by simp, by simp⟩

/-- A program is read in pieces, and is made of what was read in each of them. -/
theorem program_in_pieces (depth : Nat) (inside : ∀ token ∈ ahead, token.kind ≠ .endMark)
    {outcome : Outcome Program} (ran : program depth mark ahead = some outcome) :
    ∃ pieces, ReadPieces mark ahead pieces ∧
      outcome.result = some (pieces.filterMap Piece.statement) ∧
      outcome.reports = pieces.flatMap Piece.reports := by
  induction depth generalizing ahead outcome with
  | zero => cases ran
  | succ depth induction =>
      cases ahead with
      | nil =>
          rw [program_end depth rfl] at ran
          cases ran
          exact ⟨[], .done, rfl, rfl⟩
      | cons token rest =>
          have insideHere : ((token :: rest).headD mark.token).kind ≠ .endMark :=
            inside token List.mem_cons_self
          rw [program_step depth insideHere] at ran
          have more := List.cons_ne_nil token rest
          generalize token :: rest = start at ran inside more ⊢
          obtain ⟨read, later, ranRead, ranLater, rfl⟩ := runs_of_step ran
          obtain ⟨stop, within, resumed⟩ := resume_suffix ranRead
          obtain ⟨tokens, nonempty, same⟩ := cut_before_tail within more
          have insideLater : ∀ token ∈ resume start read, token.kind ≠ .endMark := by
            intro token member
            rw [resumed] at member
            apply inside token
            rw [same]
            exact List.mem_append_right tokens member
          obtain ⟨pieces, pieced, result, reports⟩ := induction insideLater ranLater
          refine ⟨⟨tokens, read.result, read.reports⟩ :: pieces, ?_, ?_, ?_⟩
          · rw [resumed] at pieced
            rw [same] at ranRead resumed ⊢
            exact @ReadPieces.next mark depth ⟨tokens, read.result, read.reports⟩ _ _ _ ranRead
              resumed nonempty pieced
          · simp only [precede, result, Option.map_some, List.filterMap_cons]
            cases read.result <;> rfl
          · simp only [precede, reports, List.flatMap_cons]

theorem covers_exactly {rest tokens others : List Token} (covers : Covers ahead rest others)
    (same : ahead = tokens ++ rest.tail) : others = tokens := by
  obtain ⟨front, last, behind, rfl, rfl, rfl⟩ := covers
  have cut : front ++ [last] ++ behind = tokens ++ behind := by simpa using same
  exact List.append_cancel_right cut

section Piece

variable {piece : Piece} {depth : Nat} {behind stop : List Token}

theorem silent_piece_spells {read : Stmt}
    (ran : statement depth mark (piece.tokens ++ behind) =
      some ⟨piece.statement, piece.reports, stop⟩)
    (resumed : resume (piece.tokens ++ behind) ⟨piece.statement, piece.reports, stop⟩ = behind)
    (isRead : piece.statement = some read) (silent : piece.reports = []) :
    stop.tail = behind ∧ SpellsBefore mark stop piece.tokens read := by
  rw [isRead, silent] at ran resumed
  obtain ⟨tokens, covers, ends⟩ := (rules_sound depth).statement ran
  have same := covers_exactly covers (congrArg (piece.tokens ++ ·) resumed.symm)
  subst same
  exact ⟨resumed, ends⟩

theorem piece_faithful
    (ran : statement depth mark (piece.tokens ++ behind) =
      some ⟨piece.statement, piece.reports, stop⟩)
    (resumed : resume (piece.tokens ++ behind) ⟨piece.statement, piece.reports, stop⟩ = behind)
    (nonempty : piece.tokens ≠ []) : piece.Faithful := by
  refine ⟨nonempty, ((rules_account depth).statement mark _ _ ran).2, fun isRead silent => ?_⟩
  rcases (silent_piece_spells ran resumed isRead silent).2 with ended | ⟨spelled, _⟩
  · exact Or.inr ended
  · exact Or.inl spelled

end Piece

theorem pieces_faithful (pieced : ReadPieces mark ahead pieces) :
    ∀ piece ∈ pieces, piece.Faithful := by
  induction pieced with
  | done => nofun
  | next ran resumed nonempty _ induction =>
      intro piece member
      rcases List.mem_cons.mp member with rfl | later
      · exact piece_faithful ran resumed nonempty
      · exact induction piece later

/-- Pieces without reports are together a sentence of the grammar. -/
theorem silent_pieces_spell (pieced : ReadPieces mark ahead pieces)
    (silent : pieces.flatMap Piece.reports = []) :
    Spells .statements ahead (pieces.filterMap Piece.statement) := by
  induction pieced with
  | done => exact .noStatements
  | @next depth piece behind stop pieces ran resumed nonempty pieced induction =>
      rw [List.flatMap_cons] at silent
      obtain ⟨silentPiece, silentLater⟩ := List.append_eq_nil_iff.mp silent
      have faithful := piece_faithful ran resumed nonempty
      cases read : piece.statement with
      | none => exact absurd silentPiece (faithful.reported read)
      | some statement =>
          obtain ⟨rfl, ends⟩ := silent_piece_spells ran resumed read silentPiece
          rw [List.filterMap_cons, read]
          exact spells_first ends (Or.inr rfl) (induction silentLater)

end ReadPieces

end Grammar

/-- Tokens that are read without a report spell what is read. -/
theorem spells_of_read {tokens : List Token} {program : Program}
    (inside : ∀ token ∈ tokens, token.kind ≠ .endMark) {ended : Token}
    (isMark : ended.kind = .endMark) (read : readTokens (tokens ++ [ended]) = (program, [])) :
    Spells .statements tokens program := by
  have reader := Reader.of_tokens_ended tokens ended isMark
  obtain ⟨outcome, ran⟩ :=
    Grammar.program_answers _ ⟨ended.slice, ended.span⟩ tokens (Nat.le_refl _)
  obtain ⟨pieces, pieced, result, reports⟩ := Grammar.program_in_pieces _ inside ran
  rw [Reader.read_tokens_of_outcome (by rw [reader]; exact ran), result] at read
  obtain ⟨rfl, silent⟩ := Prod.mk.inj read
  exact Grammar.silent_pieces_spell pieced (reports.symm.trans silent)

/-- A program is read in pieces that follow each other through the whole list of tokens. A piece
that is read without a report spells its statement, a piece that is not read has a report, and when
there is no report at all, the tokens are a sentence of the grammar that spells the program. -/
theorem read_in_faithful_pieces {tokens : List Token}
    (inside : ∀ token ∈ tokens, token.kind ≠ .endMark) {ended : Token}
    (isMark : ended.kind = .endMark) :
    ∃ pieces, Grammar.ReadPieces ⟨ended.slice, ended.span⟩ tokens pieces ∧
      tokens = pieces.flatMap Piece.tokens ∧
      readTokens (tokens ++ [ended]) =
        (pieces.filterMap Piece.statement, pieces.flatMap Piece.reports) ∧
      (∀ piece ∈ pieces, piece.Faithful) ∧
      ((readTokens (tokens ++ [ended])).2 = [] → (∀ piece ∈ pieces, piece.statement ≠ none) ∧
        Spells .statements tokens (readTokens (tokens ++ [ended])).1) := by
  have reader := Reader.of_tokens_ended tokens ended isMark
  obtain ⟨outcome, ran⟩ :=
    Grammar.program_answers _ ⟨ended.slice, ended.span⟩ tokens (Nat.le_refl _)
  obtain ⟨pieces, pieced, result, reports⟩ := Grammar.program_in_pieces _ inside ran
  have read : readTokens (tokens ++ [ended]) =
      (pieces.filterMap Piece.statement, pieces.flatMap Piece.reports) := by
    rw [Reader.read_tokens_of_outcome (by rw [reader]; exact ran), result, reports]
    rfl
  have faithful := Grammar.pieces_faithful pieced
  refine ⟨pieces, pieced, Grammar.pieces_concatenate pieced, read, faithful, fun silent => ?_⟩
  rw [read] at silent ⊢
  refine ⟨fun piece member unread => ?_, Grammar.silent_pieces_spell pieced silent⟩
  exact (faithful piece member).reported unread (List.flatMap_eq_nil_iff.mp silent piece member)

/-- `let;a` is read in pieces, with one report. -/
theorem broken_binding_is_a_piece :
    ∃ pieces : List Piece, [⟨.letWord, "let", ⟨0, 3⟩⟩, ⟨.semicolon, ";", ⟨3, 4⟩⟩,
          ⟨.identifier, "a", ⟨4, 5⟩⟩] = pieces.flatMap Piece.tokens ∧
      pieces.flatMap Piece.reports =
        [⟨.unexpected .identifier ⟨.semicolon, ";", ⟨3, 4⟩⟩, 2⟩] ∧
      ∀ piece ∈ pieces, piece.Faithful := by
  let tokens : List Token := [⟨.letWord, "let", ⟨0, 3⟩⟩, ⟨.semicolon, ";", ⟨3, 4⟩⟩,
    ⟨.identifier, "a", ⟨4, 5⟩⟩]
  have inside : ∀ token ∈ tokens, token.kind ≠ .endMark := by decide
  obtain ⟨pieces, _, cut, read, faithful, _⟩ :=
    read_in_faithful_pieces inside (show (Token.endAt 5).kind = .endMark from rfl)
  have reports : (readTokens (tokens ++ [Token.endAt 5])).2 =
      [⟨.unexpected .identifier ⟨.semicolon, ";", ⟨3, 4⟩⟩, 2⟩] := by decide +kernel
  rw [read] at reports
  exact ⟨pieces, cut, reports, faithful⟩

end Scriptlet
