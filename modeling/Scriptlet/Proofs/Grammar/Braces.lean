import Mathlib.Algebra.Ring.Int.Defs
import Mathlib.Algebra.Ring.Nat
import Mathlib.Data.List.Infix
import Scriptlet.Proofs.Grammar.Sequence

/-!
Tokens with their braces, and how recovery moves over them. It takes a pair of braces with all that
is in it, so it stops inside the innermost braces around the statement, on the token that ends them
or before it. What stands behind that token has no part in it. Where more braces stand open than
can be counted, recovery stops inside of them, but it never gets further than that token either.
-/

namespace Scriptlet

namespace Recovery

def braceStep : TokenKind → Int
  | .leftBrace => 1
  | .rightBrace => -1
  | _ => 0

def braceDepth (tokens : List Token) : Int :=
  tokens.foldr (fun token depth => braceStep token.kind + depth) 0

end Recovery

/-- No closing brace comes before its opening one, and every brace has its other. -/
def BracesBalanced (tokens : List Token) : Prop :=
  (∀ front, front <+: tokens → 0 ≤ Recovery.braceDepth front) ∧ Recovery.braceDepth tokens = 0

instance (tokens : List Token) : Decidable (BracesBalanced tokens) :=
  decidable_of_iff ((∀ front ∈ tokens.inits, 0 ≤ Recovery.braceDepth front) ∧
    Recovery.braceDepth tokens = 0) (by simp only [List.mem_inits, BracesBalanced])

/-- From wherever the braces among the tokens are counted, never are so many of them open at once
that the count wraps around. -/
def Shallow (tokens : List Token) : Prop :=
  ∀ part, part <:+: tokens → Recovery.braceDepth part < 2 ^ 31

/-- Tokens without an end mark up to `stop`, before which they close so many braces more than they
open, and at no place more than that. -/
inductive EndsIn (stop : Token) : Nat → List Token → Prop where
  | last : EndsIn stop 0 [stop]
  | token {level : Nat} (token : Token) {rest : List Token} :
      Recovery.braceStep token.kind = 0 → token.kind ≠ .endMark → EndsIn stop level rest →
      EndsIn stop level (token :: rest)
  | opening {level : Nat} (brace : Token) {rest : List Token} : brace.kind = .leftBrace →
      EndsIn stop (level + 1) rest → EndsIn stop level (brace :: rest)
  | closing {level : Nat} (brace : Token) {rest : List Token} : brace.kind = .rightBrace →
      EndsIn stop level rest → EndsIn stop (level + 1) (brace :: rest)

def Token.Stops (stop : Token) : Prop := stop.kind = .semicolon ∨ stop.kind = .rightBrace

/-- A place in the list that `stop` ends where at least so many braces are to be closed. Counts that
are exact are those of a shallow list, and there just so many are to be closed. -/
def Amid (stop : Token) (exact : Prop) (level : Nat) (tokens : List Token) : Prop :=
  ∃ now, level ≤ now ∧ (exact → now = level ∧ Shallow tokens) ∧ EndsIn stop now tokens

namespace Recovery

theorem brace_depth_nil : braceDepth [] = 0 := rfl

theorem brace_depth_cons (token : Token) (tokens : List Token) :
    braceDepth (token :: tokens) = braceStep token.kind + braceDepth tokens := rfl

theorem brace_depth_append (front back : List Token) :
    braceDepth (front ++ back) = braceDepth front + braceDepth back := by
  induction front with
  | nil => exact (Int.zero_add _).symm
  | cons token front induction =>
      rw [List.cons_append, brace_depth_cons, brace_depth_cons, induction, Int.add_assoc]

theorem brace_depth_concat (front : List Token) (token : Token) :
    braceDepth (front ++ [token]) = braceDepth front + braceStep token.kind := by
  rw [brace_depth_append, brace_depth_cons, brace_depth_nil, Int.add_zero]

theorem brace_step_zero {kind : TokenKind} (neutral : braceStep kind = 0) :
    kind ≠ .leftBrace ∧ kind ≠ .rightBrace := by
  revert neutral
  cases kind <;> decide

theorem brace_step_nonneg {kind : TokenKind} (open_ : kind ≠ .rightBrace) : 0 ≤ braceStep kind := by
  revert open_
  cases kind <;> decide

theorem brace_step_le_one (kind : TokenKind) : braceStep kind ≤ 1 := by
  cases kind <;> decide

theorem brace_depth_le_length (tokens : List Token) : braceDepth tokens ≤ tokens.length := by
  induction tokens with
  | nil => exact Int.le_refl 0
  | cons token tokens induction =>
      have step := brace_step_le_one token.kind
      rw [brace_depth_cons, List.length_cons]
      omega

end Recovery

/-- A pair of braces around balanced tokens is balanced. -/
theorem balanced_wrap {opening closing : Token} (opens : opening.kind = .leftBrace)
    (closes : closing.kind = .rightBrace) {tokens : List Token} (balanced : BracesBalanced tokens) :
    BracesBalanced (opening :: (tokens ++ [closing])) := by
  obtain ⟨level, total⟩ := balanced
  have closed : Recovery.braceDepth (tokens ++ [closing]) = -1 := by
    rw [Recovery.brace_depth_concat, total, closes]
    rfl
  refine ⟨fun front isFront => ?_, by rw [Recovery.brace_depth_cons, opens, closed]; rfl⟩
  rcases List.prefix_cons_iff.mp isFront with rfl | ⟨later, rfl, isLater⟩
  · exact Int.le_refl 0
  · rw [Recovery.brace_depth_cons, opens, Recovery.braceStep]
    rcases List.prefix_concat_iff.mp isLater with rfl | within
    · omega
    · have here := level later within
      omega

section Shallow

variable {front tokens : List Token}

/-- So many braces cannot stand open among fewer tokens. -/
theorem shallow_of_short (short : tokens.length < 2 ^ 31) : Shallow tokens := by
  intro part within
  have bounded := Recovery.brace_depth_le_length part
  have length := within.length_le
  omega

theorem shallow_infix (shallow : Shallow tokens) (within : front <:+: tokens) : Shallow front :=
  fun part inner => shallow part (inner.trans within)

theorem shallow_suffix (shallow : Shallow tokens) (within : front <:+ tokens) : Shallow front :=
  shallow_infix shallow within.isInfix

theorem shallow_tail {token : Token} (shallow : Shallow (token :: tokens)) : Shallow tokens :=
  shallow_suffix shallow (List.suffix_cons token tokens)

/-- The braces open behind the first of the tokens. -/
theorem shallow_front (shallow : Shallow (front ++ tokens)) : Recovery.braceDepth front < 2 ^ 31 :=
  shallow front (List.prefix_append front tokens).isInfix

/-- A closing brace behind the tokens opens nothing. -/
theorem shallow_closing {closing : Token} (shallow : Shallow tokens)
    (closes : closing.kind = .rightBrace) : Shallow (tokens ++ [closing]) := by
  intro part within
  rcases List.infix_concat_iff.mp within with ends | inner
  · rcases List.suffix_concat_iff.mp ends with rfl | ⟨front, rfl, isSuffix⟩
    · decide
    · have open_ := shallow front isSuffix.isInfix
      rw [Recovery.brace_depth_concat, closes, Recovery.braceStep]
      omega
  · exact shallow part inner

end Shallow

section EndsIn

variable {stop : Token} {level : Nat} {tokens : List Token}

theorem ends_in_nonempty (ends : EndsIn stop level tokens) :
    ∃ first rest, tokens = first :: rest := by
  cases ends <;> exact ⟨_, _, rfl⟩

theorem ends_in_depth (ends : EndsIn stop level tokens) :
    Recovery.braceDepth tokens = Recovery.braceStep stop.kind - level := by
  induction ends with
  | last =>
      rw [Recovery.brace_depth_cons, Recovery.brace_depth_nil]
      omega
  | token token neutral _ _ induction =>
      rw [Recovery.brace_depth_cons, neutral, induction, Int.zero_add]
  | opening brace opens _ induction =>
      rw [Recovery.brace_depth_cons, opens, induction, Recovery.braceStep]
      omega
  | closing brace closes _ induction =>
      rw [Recovery.brace_depth_cons, closes, induction, Recovery.braceStep]
      omega

/-- A closing brace among the tokens ends them, or is one of those that they close. -/
theorem ends_in_brace {first : Token} {rest : List Token}
    (ends : EndsIn stop level (first :: rest)) (closes : first.kind = .rightBrace) :
    (first = stop ∧ rest = [] ∧ level = 0) ∨
      ∃ outer, level = outer + 1 ∧ EndsIn stop outer rest := by
  cases ends with
  | last => exact .inl ⟨rfl, rfl, rfl⟩
  | token _ neutral => exact absurd closes (Recovery.brace_step_zero neutral).2
  | opening _ opens =>
      rw [closes] at opens
      cases opens
  | closing _ _ ends => exact .inr ⟨_, rfl, ends⟩

theorem ends_in_tail {first : Token} {rest : List Token} (ends : EndsIn stop level (first :: rest))
    (neutral : Recovery.braceStep first.kind = 0) :
    (rest = [] ∧ first = stop ∧ level = 0) ∨ EndsIn stop level rest := by
  cases ends with
  | last => exact .inl ⟨rfl, rfl, rfl⟩
  | token _ _ _ ends => exact .inr ends
  | opening _ opens => exact absurd opens (Recovery.brace_step_zero neutral).1
  | closing _ closes => exact absurd closes (Recovery.brace_step_zero neutral).2

theorem ends_in_opening {opening : Token} {rest : List Token} (stops : stop.Stops)
    (ends : EndsIn stop level (opening :: rest)) (opens : opening.kind = .leftBrace) :
    EndsIn stop (level + 1) rest := by
  cases ends with
  | last => rcases stops with isStop | isStop <;> rw [opens] at isStop <;> cases isStop
  | token _ neutral => exact absurd opens (Recovery.brace_step_zero neutral).1
  | opening _ _ ends => exact ends
  | closing _ closes =>
      rw [opens] at closes
      cases closes

theorem ends_in_inside (stops : stop.Stops) (ends : EndsIn stop level tokens)
    (behind : List Token) : Recovery.kindAt (tokens ++ behind) ≠ .endMark := by
  cases ends with
  | last =>
      rw [List.singleton_append, Recovery.kindAt]
      rcases stops with isStop | isStop <;> rw [isStop] <;> decide
  | token _ _ inside => exact inside
  | opening _ isBrace | closing _ isBrace =>
      rw [List.cons_append, Recovery.kindAt, isBrace]
      decide

/-- What the braces among the tokens say of a place in front of them. -/
theorem ends_in_of_depth (stop : Token) (tokens : List Token)
    (inside : ∀ token ∈ tokens, token.kind ≠ .endMark) (level : Nat)
    (bounded : ∀ front, front <+: tokens → -level ≤ Recovery.braceDepth front)
    (total : Recovery.braceDepth tokens = -level) : EndsIn stop level (tokens ++ [stop]) := by
  induction tokens generalizing level with
  | nil =>
      have none : level = 0 := by
        rw [Recovery.brace_depth_nil] at total
        omega
      subst none
      exact .last
  | cons token tokens induction =>
      rw [Recovery.brace_depth_cons] at total
      have insideRest : ∀ token ∈ tokens, token.kind ≠ .endMark :=
        fun later member => inside later (List.mem_cons_of_mem token member)
      have boundedRest (front : List Token) (isFront : front <+: tokens) :
          -level ≤ Recovery.braceStep token.kind + Recovery.braceDepth front := by
        rw [← Recovery.brace_depth_cons]
        exact bounded _ (List.cons_prefix_cons.mpr ⟨rfl, isFront⟩)
      by_cases opens : token.kind = .leftBrace
      · simp only [opens, Recovery.braceStep] at total boundedRest
        have ends := induction insideRest (level + 1)
          (fun front isFront => by have here := boundedRest front isFront; omega) (by omega)
        exact .opening token opens ends
      · by_cases closes : token.kind = .rightBrace
        · have first := boundedRest [] List.nil_prefix
          rw [Recovery.brace_depth_nil] at first
          simp only [closes, Recovery.braceStep] at total boundedRest first
          obtain ⟨outer, rfl⟩ := Nat.exists_eq_add_of_le' (show 1 ≤ level by omega)
          have ends := induction insideRest outer
            (fun front isFront => by have here := boundedRest front isFront; omega) (by omega)
          exact .closing token closes ends
        · have neutral : Recovery.braceStep token.kind = 0 := by
            revert opens closes
            cases token.kind <;> decide
          simp only [neutral, Int.zero_add] at total boundedRest
          exact .token token neutral (inside token List.mem_cons_self)
            (induction insideRest level boundedRest total)

theorem ends_in_of_balanced {tokens : List Token} (balanced : BracesBalanced tokens)
    (inside : ∀ token ∈ tokens, token.kind ≠ .endMark) (stop : Token) :
    EndsIn stop 0 (tokens ++ [stop]) :=
  ends_in_of_depth stop tokens inside 0 (by simpa using balanced.1) (by simpa using balanced.2)

end EndsIn

namespace Recovery

/-! The count is the number of open braces, wrapped around to 32 bits. -/

theorem count_of_int (depth : Int) (kind : TokenKind) :
    count (Int32.ofInt depth) kind = Int32.ofInt (depth + braceStep kind) := by
  cases kind with
  | leftBrace => exact (Int32.ofInt_add depth 1).symm
  | rightBrace => exact (Int32.ofInt_sub depth 1).symm
  | _ => exact congrArg Int32.ofInt (Int.add_zero depth).symm

theorem count_all_eq (tokens : List Token) : countAll tokens = Int32.ofInt (braceDepth tokens) := by
  have counted (depth : Int) : tokens.foldl (fun open_ token => count open_ token.kind)
      (Int32.ofInt depth) = Int32.ofInt (depth + braceDepth tokens) := by
    induction tokens generalizing depth with
    | nil => exact congrArg Int32.ofInt (Int.add_zero depth).symm
    | cons token tokens induction =>
        rw [List.foldl_cons, count_of_int, induction, brace_depth_cons, Int.add_assoc]
  rw [← Int.zero_add (braceDepth tokens)]
  exact counted 0

/-- Counts up to this bound are as they should be. -/
theorem count_not_neg {depth : Int} (positive : 0 ≤ depth) (few : depth < 2 ^ 31) :
    ¬Int32.ofInt depth < 0 := by
  rw [Int32.lt_iff_toInt_lt, Int32.toInt_ofInt_of_le (by omega) few]
  exact Int.not_lt.mpr positive

theorem count_positive {depth : Int} (positive : 0 < depth) (few : depth < 2 ^ 31) :
    ¬Int32.ofInt depth ≤ 0 := by
  rw [Int32.le_iff_toInt_le, Int32.toInt_ofInt_of_le (by omega) few]
  exact Int.not_le.mpr positive

theorem brace_depth_take_one (tokens : List Token) :
    braceDepth (tokens.take 1) = braceStep (kindAt tokens) := by
  cases tokens with
  | nil => rfl
  | cons token rest => rw [List.take_succ_cons, List.take_zero, brace_depth_cons, brace_depth_nil,
      Int.add_zero, kindAt]

/-- The tokens up to one that stands behind `front` are `front` and that one. -/
theorem brace_depth_up_to (front ahead : List Token) :
    braceDepth (upTo (front ++ ahead) ahead) = braceDepth front + braceStep (kindAt ahead) := by
  have counted : (front ++ ahead).length - ahead.length + 1 = front.length + 1 := by
    rw [List.length_append]
    omega
  rw [upTo, counted, List.take_length_add_append, brace_depth_append, brace_depth_take_one]

def skipInto (depth : Int) (tokens : List Token) : Bool × List Token :=
  skipFrom (Int32.ofInt (depth + braceStep (kindAt tokens))) tokens

theorem skip_into_cons (depth : Int) (token : Token) (rest : List Token) :
    skipInto depth (token :: rest) =
      skipFrom (Int32.ofInt (depth + braceStep token.kind)) (token :: rest) := rfl

/-- The same with the tokens that were counted before. -/
theorem skip_into_front (front : List Token) (token : Token) (rest : List Token) :
    skipInto (braceDepth front) (token :: rest) =
      skipFrom (Int32.ofInt (braceDepth (front ++ [token]))) (token :: rest) := by
  rw [brace_depth_concat, skip_into_cons]

theorem recovered_append (front ahead : List Token) :
    Grammar.recovered (front ++ ahead) ahead = skipInto (braceDepth front) ahead := by
  rw [Grammar.recovered, count_all_eq, brace_depth_up_to, skipInto]

/-- Inside a brace that it opened itself, skipping stops at no token. -/
theorem skip_on {depth : Int} {token : Token} {rest : List Token} (open_ : 0 < depth)
    (few : depth < 2 ^ 31) (inside : token.kind ≠ .endMark) :
    skipFrom (Int32.ofInt depth) (token :: rest) = skipInto depth rest := by
  have notClosed := count_not_neg (Int.le_of_lt open_) few
  have notEnded := count_positive open_ few
  rw [skipFrom, if_neg (fun closed => notClosed closed.2), if_neg inside,
    if_neg (fun ended => notEnded ended.1), count_of_int, skipInto]

/-- Skipping from inside braces that it opened itself goes on to the one that closes the last of
them. -/
theorem skip_braces {closing : Token} {front inner : List Token} {level : Nat}
    (ends : EndsIn closing level inner) (closes : closing.kind = .rightBrace)
    (open_ : level < braceDepth front) (few : Shallow (front ++ inner)) (behind : List Token) :
    skipInto (braceDepth front) (inner ++ behind) =
      skipFrom (Int32.ofInt (braceDepth front - level - 1)) (closing :: behind) := by
  induction ends generalizing front with
  | last =>
      rw [List.singleton_append, skip_into_cons, closes]
      congr 2
      simp only [braceStep]
      omega
  | @token level token rest neutral inside _ induction =>
      rw [List.append_cons front token rest] at few
      have same : braceDepth (front ++ [token]) = braceDepth front := by
        rw [brace_depth_concat, neutral, Int.add_zero]
      rw [List.cons_append, skip_into_front, skip_on (by omega) (shallow_front few) inside,
        induction (by omega) few, same]
  | @opening level brace rest opens _ induction =>
      have inside : brace.kind ≠ .endMark := by
        rw [opens]
        decide
      rw [List.append_cons front brace rest] at few
      have more : braceDepth (front ++ [brace]) = braceDepth front + 1 := by
        rw [brace_depth_concat, opens, braceStep]
      rw [List.cons_append, skip_into_front, skip_on (by omega) (shallow_front few) inside,
        induction (by omega) few, more]
      congr 2
      omega
  | @closing level brace rest isBrace _ induction =>
      have inside : brace.kind ≠ .endMark := by
        rw [isBrace]
        decide
      rw [List.append_cons front brace rest] at few
      have less : braceDepth (front ++ [brace]) = braceDepth front - 1 := by
        rw [brace_depth_concat, isBrace, braceStep]
        omega
      rw [List.cons_append, skip_into_front, skip_on (by omega) (shallow_front few) inside,
        induction (by omega) few, less]
      congr 2
      omega

section Lands

variable {stop : Token} {exact : Prop} {level now : Nat} {front : List Token}

/-- Where recovery from a statement, behind which so many braces are to be closed, leaves the list
that `stop` ends: on a closing brace, or on a token with the rest of the list behind it. -/
inductive Lands (stop : Token) (exact : Prop) (level : Nat) : Bool → List Token → Prop where
  | closed (brace : Token) {rest : List Token} : brace.kind = .rightBrace →
      Amid stop exact level (brace :: rest) → Lands stop exact level true (brace :: rest)
  | next (token : Token) {rest : List Token} : Amid stop exact level rest →
      Lands stop exact level false (token :: rest)
  | ended : stop.kind = .semicolon → level = 0 → Lands stop exact level false [stop]

def LandsIn (stop : Token) (exact : Prop) (level : Nat)
    (skipped : List Token → Bool × List Token) : Prop :=
  ∃ closed landed, Lands stop exact level closed landed ∧
    ∀ behind, skipped behind = (closed, landed ++ behind)

theorem lands_in_same {skipped other : List Token → Bool × List Token}
    (same : ∀ behind, skipped behind = other behind) (lands : LandsIn stop exact level other) :
    LandsIn stop exact level skipped := by
  obtain ⟨closed, landed, lands, stopped⟩ := lands
  exact ⟨closed, landed, lands, fun behind => (same behind).trans (stopped behind)⟩

/-- On a token that closes no brace around the statement, skipping stops or goes on. It stops inside
braces of its own only where the count has wrapped around. -/
theorem skip_token (token : Token) {rest : List Token} (inside : token.kind ≠ .endMark)
    (ends : EndsIn stop now rest) (above : level ≤ now)
    (counted : braceDepth (front ++ [token]) = now - level)
    (few : exact → Shallow (front ++ token :: rest))
    (later : LandsIn stop exact level fun behind =>
      skipInto (braceDepth (front ++ [token])) (rest ++ behind)) :
    LandsIn stop exact level fun behind =>
      skipFrom (Int32.ofInt (braceDepth (front ++ [token]))) (token :: (rest ++ behind)) := by
  obtain ⟨first, more, rfl⟩ := ends_in_nonempty ends
  have bounded (isExact : exact) : braceDepth (front ++ [token]) < 2 ^ 31 := by
    have shallow := few isExact
    rw [List.append_cons] at shallow
    exact shallow_front shallow
  by_cases closed : token.kind = .rightBrace ∧ Int32.ofInt (braceDepth (front ++ [token])) < 0
  · have inexact (isExact : exact) : False :=
      count_not_neg (by omega) (bounded isExact) closed.2
    refine ⟨true, token :: first :: more, .closed token closed.1
      ⟨now + 1, by omega, fun isExact => (inexact isExact).elim, .closing token closed.1 ends⟩,
      fun behind => ?_⟩
    change skipFrom _ (token :: _) = _
    rw [skipFrom, if_pos closed]
    rfl
  · by_cases boundary : Int32.ofInt (braceDepth (front ++ [token])) ≤ 0 ∧
        (token.kind = .semicolon ∨ first.kind = .rightBrace ∨ first.kind = .endMark)
    · have level_ (isExact : exact) : now = level ∧ Shallow (first :: more) := by
        refine ⟨?_, shallow_suffix (few isExact) ⟨front ++ [token], by simp⟩⟩
        by_contra apart
        exact count_positive (by omega) (bounded isExact) boundary.1
      refine ⟨false, token :: first :: more, .next token ⟨now, above, level_, ends⟩,
        fun behind => ?_⟩
      change skipFrom _ (token :: _) = _
      rw [skipFrom, if_neg closed, if_neg inside, List.cons_append, kindAt, if_pos boundary]
      rfl
    · refine lands_in_same (fun behind => ?_) later
      rw [skipFrom, if_neg closed, if_neg inside, List.cons_append, kindAt, if_neg boundary,
        count_of_int, skipInto, kindAt]

/-- From a place in the list skipping lands in the list: it does not pass the brace that closes the
block around the statement, nor the token that ends the list. -/
theorem skip_lands {tokens : List Token} (stops : stop.Stops) (ends : EndsIn stop now tokens)
    (above : level ≤ now) (counted : braceDepth front = now - level)
    (few : exact → Shallow (front ++ tokens)) :
    LandsIn stop exact level fun behind => skipInto (braceDepth front) (tokens ++ behind) := by
  induction ends generalizing front with
  | last =>
      obtain rfl : level = 0 := by omega
      have none : braceDepth front = 0 := by omega
      rcases stops with isSemicolon | isBrace
      · refine ⟨false, [stop], .ended isSemicolon rfl, fun behind => ?_⟩
        simp [none, skipInto, skipFrom, kindAt, isSemicolon, braceStep]
      · refine ⟨true, [stop], .closed stop isBrace ⟨0, Nat.le_refl 0, fun isExact => ⟨rfl, ?_⟩,
          .last⟩, fun behind => ?_⟩
        · exact shallow_suffix (few isExact) (List.suffix_append front [stop])
        · simp [none, skipInto, skipFrom, kindAt, isBrace, braceStep]
  | @token now token rest neutral inside ends induction =>
      have same : braceDepth (front ++ [token]) = now - level := by
        rw [brace_depth_concat, neutral, counted, Int.add_zero]
      refine lands_in_same (fun behind => skip_into_front front token (rest ++ behind)) ?_
      refine skip_token token inside ends above same few ?_
      exact induction above same fun isExact => List.append_cons front token rest ▸ few isExact
  | @opening now brace rest opens ends induction =>
      have inside : brace.kind ≠ .endMark := by
        rw [opens]
        decide
      have more : braceDepth (front ++ [brace]) = (now + 1 : Nat) - level := by
        rw [brace_depth_concat, opens, counted, braceStep]
        omega
      refine lands_in_same (fun behind => skip_into_front front brace (rest ++ behind)) ?_
      refine skip_token brace inside ends (by omega) more few ?_
      exact induction (by omega) more fun isExact => List.append_cons front brace rest ▸ few isExact
  | @closing outer brace rest closes ends induction =>
      have inside : brace.kind ≠ .endMark := by
        rw [closes]
        decide
      have less : braceDepth (front ++ [brace]) = outer - level := by
        rw [brace_depth_concat, closes, counted, braceStep]
        omega
      refine lands_in_same (fun behind => skip_into_front front brace (rest ++ behind)) ?_
      by_cases around : level ≤ outer
      · refine skip_token brace inside ends around less few ?_
        exact induction around less fun isExact => List.append_cons front brace rest ▸ few isExact
      · -- This is the brace that closes the block around the statement.
        have wrapped : Int32.ofInt (braceDepth (front ++ [brace])) < 0 := by
          rw [less, show (outer : Int) - level = -1 by omega]
          decide
        refine ⟨true, brace :: rest, .closed brace closes ⟨outer + 1, above, fun isExact =>
          ⟨by omega, shallow_suffix (few isExact) (List.suffix_append front _)⟩,
          .closing brace closes ends⟩, fun behind => ?_⟩
        change skipFrom _ (brace :: _) = _
        rw [skipFrom, if_pos ⟨closes, wrapped⟩]
        rfl

end Lands

end Recovery

section Amid

variable {stop : Token} {exact : Prop} {level lower : Nat} {tokens rest : List Token}

theorem amid_nonempty (amid : Amid stop exact level tokens) :
    ∃ first rest, tokens = first :: rest := by
  obtain ⟨_, _, _, ends⟩ := amid
  exact ends_in_nonempty ends

theorem amid_shallow (amid : Amid stop exact level tokens) (isExact : exact) : Shallow tokens := by
  obtain ⟨_, _, few, _⟩ := amid
  exact (few isExact).2

/-- The place where just the braces are to be closed that are to be closed there. -/
theorem amid_here (amid : Amid stop exact level tokens) : ∃ now, level ≤ now ∧
    (exact → now = level) ∧ EndsIn stop now tokens ∧ Amid stop exact now tokens := by
  obtain ⟨now, above, few, ends⟩ := amid
  exact ⟨now, above, fun isExact => (few isExact).1, ends,
    now, Nat.le_refl now, fun isExact => ⟨rfl, (few isExact).2⟩, ends⟩

theorem amid_weaken (amid : Amid stop exact level tokens) (below : lower ≤ level)
    (same : exact → level = lower) : Amid stop exact lower tokens := by
  obtain ⟨now, above, few, ends⟩ := amid
  exact ⟨now, below.trans above, fun isExact =>
    ⟨(few isExact).1.trans (same isExact), (few isExact).2⟩, ends⟩

theorem amid_tail {first : Token} (amid : Amid stop exact level (first :: rest))
    (neutral : Recovery.braceStep first.kind = 0) :
    (rest = [] ∧ first = stop ∧ level = 0) ∨ Amid stop exact level rest := by
  obtain ⟨now, above, few, ends⟩ := amid
  rcases ends_in_tail ends neutral with ⟨rfl, rfl, rfl⟩ | ends
  · exact .inl ⟨rfl, rfl, Nat.le_zero.mp above⟩
  · exact .inr ⟨now, above, fun isExact => ⟨(few isExact).1, shallow_tail (few isExact).2⟩, ends⟩

theorem amid_opening {first : Token} (stops : stop.Stops)
    (amid : Amid stop exact level (first :: rest)) (opens : first.kind = .leftBrace) :
    Amid stop exact (level + 1) rest := by
  obtain ⟨now, above, few, ends⟩ := amid
  exact ⟨now + 1, by omega, fun isExact =>
    ⟨congrArg (· + 1) (few isExact).1, shallow_tail (few isExact).2⟩,
    ends_in_opening stops ends opens⟩

theorem amid_closing {first : Token} (amid : Amid stop exact (level + 1) (first :: rest))
    (closes : first.kind = .rightBrace) : Amid stop exact level rest := by
  obtain ⟨now, above, few, ends⟩ := amid
  rcases ends_in_brace ends closes with ⟨_, _, rfl⟩ | ⟨outer, rfl, endsRest⟩
  · omega
  · exact ⟨outer, by omega, fun isExact =>
      ⟨Nat.succ.inj (few isExact).1, shallow_tail (few isExact).2⟩, endsRest⟩

end Amid

def Outside (stop : Token) (exact : Prop) (level : Nat) (tokens : List Token) : Prop :=
  Amid stop exact level tokens ∨ ∃ token rest, tokens = token :: rest ∧ token.kind ≠ .endMark ∧
    Amid stop exact level rest

section Passed

variable {stop : Token} {exact : Prop} {level : Nat} {tokens later : List Token}

/-- Recovery from a statement of a list lands in that list, whatever stands behind it. -/
theorem recovered_lands (stops : stop.Stops) (ends : EndsIn stop level tokens)
    (few : exact → Shallow tokens) (outside : Outside stop exact level later)
    (within : later <:+ tokens) :
    Recovery.LandsIn stop exact level fun behind =>
      Grammar.recovered (tokens ++ behind) (later ++ behind) := by
  obtain ⟨front, rfl⟩ := within
  have total := ends_in_depth ends
  rw [Recovery.brace_depth_append] at total
  have cut (behind : List Token) : Grammar.recovered (front ++ later ++ behind) (later ++ behind) =
      Recovery.skipInto (Recovery.braceDepth front) (later ++ behind) := by
    rw [List.append_assoc, Recovery.recovered_append]
  refine Recovery.lands_in_same cut ?_
  rcases outside with
    ⟨now, above, _, endsLater⟩ | ⟨token, rest, rfl, inside, now, above, _, endsRest⟩
  · rw [ends_in_depth endsLater] at total
    exact Recovery.skip_lands stops endsLater above (by omega) few
  · rw [Recovery.brace_depth_cons, ends_in_depth endsRest] at total
    have counted : Recovery.braceDepth (front ++ [token]) = now - level := by
      rw [Recovery.brace_depth_concat]
      omega
    refine Recovery.lands_in_same
      (fun behind => Recovery.skip_into_front front token (rest ++ behind)) ?_
    refine Recovery.skip_token token inside endsRest above counted few ?_
    exact Recovery.skip_lands stops endsRest above counted fun isExact =>
      List.append_cons front token rest ▸ few isExact

variable (ends : EndsIn stop level tokens) (few : exact → Shallow tokens)
  (outside : Outside stop exact level later) (within : later <:+ tokens)

include ends few outside within

/-- A block goes on inside its braces, whatever stands behind them. -/
theorem block_passes_broken (stops : stop.Stops) (open_ : 0 < level ∨ stop.kind = .rightBrace) :
    ∃ rest, Amid stop exact level rest ∧ ∀ behind,
      Grammar.passBrokenInBlock (tokens ++ behind) (later ++ behind) = rest ++ behind := by
  obtain ⟨closed, landed, lands, skipped⟩ := recovered_lands stops ends few outside within
  simp only at skipped
  cases lands with
  | closed brace _ amid =>
      refine ⟨_, amid, fun behind => ?_⟩
      rw [Grammar.passBrokenInBlock, skipped, if_pos rfl]
  | next token amid =>
      refine ⟨_, amid, fun behind => ?_⟩
      rw [Grammar.passBrokenInBlock, skipped, if_neg Bool.false_ne_true]
      rfl
  | ended isSemicolon none =>
      rcases open_ with open_ | isBrace
      · omega
      · rw [isBrace] at isSemicolon
        cases isSemicolon

/-- A program goes on in the tokens up to the semicolon, or right behind it. -/
theorem program_passes_broken (ended : stop.kind = .semicolon) :
    ∃ rest, (Amid stop False 0 rest ∨ rest = []) ∧ ∀ behind,
      Grammar.passBroken (tokens ++ behind) (later ++ behind) = rest ++ behind := by
  obtain ⟨closed, landed, lands, skipped⟩ :=
    recovered_lands (.inl ended) ends few outside within
  simp only at skipped
  cases lands with
  | closed brace isBrace amid =>
      obtain ⟨now, _, _, endsBrace⟩ := amid
      rcases ends_in_brace endsBrace isBrace with ⟨rfl, _⟩ | ⟨outer, _, endsRest⟩
      · rw [ended] at isBrace
        cases isBrace
      · refine ⟨_, .inl ⟨outer, Nat.zero_le outer, False.elim, endsRest⟩, fun behind => ?_⟩
        rw [Grammar.passBroken, skipped]
        rfl
  | next token amid =>
      obtain ⟨now, _, _, endsRest⟩ := amid
      refine ⟨_, .inl ⟨now, Nat.zero_le now, False.elim, endsRest⟩, fun behind => ?_⟩
      rw [Grammar.passBroken, skipped]
      rfl
  | ended _ _ =>
      refine ⟨[], .inr rfl, fun behind => ?_⟩
      rw [Grammar.passBroken, skipped]
      rfl

end Passed

end Scriptlet
