import Mathlib.Logic.Relation
import Scriptlet.Proofs.Store.Bindings

/-!
A store and the log of the edits that made it. What a name means in a scope can be read off the
log: the last binding counts, a copy has what its source had when it was made, and the search goes
outward as long as nothing was written to the name.
-/

namespace Scriptlet

inductive Edit where
  | root
  | child (parent : Handle)
  | copy (source : Handle)
  | bind (scope : Handle) (name : String) (value : Value)

abbrev EditLog := List Edit

namespace Edit

def apply (store : Store) : Edit → Store
  | root => store.addRoot.2
  | child parent => (store.addChild parent).2
  | copy source => (store.addCopy source).2
  | bind scope name value => store.bind scope name value

def isBind : Edit → Bool
  | bind _ _ _ => true
  | _ => false

def Within (size : Nat) : Edit → Prop
  | root => True
  | child handle | copy handle | bind handle _ _ => handle < size

instance (size : Nat) : (edit : Edit) → Decidable (edit.Within size)
  | root => .isTrue trivial
  | child handle | copy handle | bind handle _ _ => inferInstanceAs (Decidable (handle < size))

end Edit

namespace EditLog

def store : EditLog → Store
  | [] => .empty
  | edit :: earlier => edit.apply (store earlier)

def created (log : EditLog) : Nat := log.countP fun edit => !edit.isBind

def Valid : EditLog → Prop
  | [] => True
  | edit :: earlier => edit.Within (created earlier) ∧ Valid earlier

instance decidableValid : (log : EditLog) → Decidable log.Valid
  | [] => .isTrue trivial
  | edit :: earlier =>
      have := decidableValid earlier
      inferInstanceAs (Decidable (edit.Within (created earlier) ∧ Valid earlier))

/-- The value is what was last written to the name in the scope, or in the source of which the
scope is a copy before it was made. -/
inductive Written : EditLog → Handle → String → Value → Prop where
  | bound {log later earlier : EditLog} {scope : Handle} {name : String} {value : Value}
      (made : log = later ++ .bind scope name value :: earlier)
      (last : ∀ other, .bind scope name other ∉ later) : Written log scope name value
  | copied {log later earlier : EditLog} {source : Handle} {name : String} {value : Value}
      (made : log = later ++ .copy source :: earlier)
      (last : ∀ other, .bind (created earlier) name other ∉ later)
      (written : Written earlier source name value) :
      Written log (created earlier) name value

/-- A scope is made inside its parent; a copy shares the parent of its source. -/
inductive ParentOf : EditLog → Handle → Handle → Prop where
  | child {log later earlier : EditLog} {parent : Handle}
      (made : log = later ++ .child parent :: earlier) :
      ParentOf log (created earlier) parent
  | copy {log later earlier : EditLog} {source parent : Handle}
      (made : log = later ++ .copy source :: earlier) (shared : ParentOf earlier source parent) :
      ParentOf log (created earlier) parent

def Chain (log : EditLog) : Handle → Handle → Prop := Relation.ReflTransGen log.ParentOf

/-- What a name means seen from a scope: what was last written to it there, or else what it means
seen from the parent. -/
inductive Means (log : EditLog) (name : String) : Handle → Value → Prop where
  | own {scope : Handle} {value : Value} (written : log.Written scope name value) :
      Means log name scope value
  | outer {scope parent : Handle} {value : Value}
      (unwritten : ∀ other, ¬log.Written scope name other)
      (link : log.ParentOf scope parent) (means : Means log name parent value) :
      Means log name scope value

theorem not_written_empty {scope : Handle} {name : String} {value : Value} :
    ¬Written [] scope name value := by
  intro written
  cases written with
  | bound made | copied made => simp at made

theorem no_parent_empty {child parent : Handle} : ¬ParentOf [] child parent := by
  intro link
  cases link with
  | child made | copy made => simp at made

section Cons

variable {edit : Edit} {earlier : EditLog}

theorem written_cons {scope : Handle} {name : String} {value : Value} :
    Written (edit :: earlier) scope name value ↔
      edit = .bind scope name value ∨
      (∃ source, edit = .copy source ∧ scope = created earlier ∧
        earlier.Written source name value) ∨
      (∀ other, edit ≠ .bind scope name other) ∧ earlier.Written scope name value := by
  constructor
  · intro written
    cases written with
    | bound made last =>
        rcases List.cons_eq_append_iff.mp made with ⟨_, same⟩ | ⟨later, rfl, before⟩
        · exact .inl (List.cons.inj same).1.symm
        · refine .inr (.inr ⟨fun other same => last other (same ▸ List.mem_cons_self), ?_⟩)
          exact .bound before fun other => mt (List.mem_cons_of_mem edit) (last other)
    | copied made last written =>
        rcases List.cons_eq_append_iff.mp made with ⟨_, same⟩ | ⟨later, rfl, before⟩
        · obtain ⟨rfl, rfl⟩ := List.cons.inj same
          exact .inr (.inl ⟨_, rfl, rfl, written⟩)
        · refine .inr (.inr ⟨fun other same => last other (same ▸ List.mem_cons_self), ?_⟩)
          have lastBefore (other : Value) := mt (List.mem_cons_of_mem edit) (last other)
          exact .copied before lastBefore written
  · rintro (rfl | ⟨source, rfl, rfl, written⟩ | ⟨other, written⟩)
    · exact .bound (List.nil_append _).symm fun _ => List.not_mem_nil
    · exact .copied (List.nil_append _).symm (fun _ => List.not_mem_nil) written
    · have passed {later : EditLog} {scope : Handle} {name : String}
          (other : ∀ value, edit ≠ .bind scope name value)
          (last : ∀ value, .bind scope name value ∉ later) (value : Value) :
          .bind scope name value ∉ edit :: later :=
        fun found => (List.mem_cons.mp found).elim (fun same => other value same.symm) (last value)
      cases written with
      | bound made last => exact .bound (congrArg (edit :: ·) made) (passed other last)
      | copied made last written =>
          exact .copied (congrArg (edit :: ·) made) (passed other last) written

theorem parent_of_cons {child parent : Handle} :
    ParentOf (edit :: earlier) child parent ↔
      (edit = .child parent ∧ child = created earlier) ∨
      (∃ source, edit = .copy source ∧ child = created earlier ∧
        earlier.ParentOf source parent) ∨
      earlier.ParentOf child parent := by
  constructor
  · intro link
    cases link with
    | child made =>
        rcases List.cons_eq_append_iff.mp made with ⟨_, same⟩ | ⟨later, _, made⟩
        · obtain ⟨rfl, rfl⟩ := List.cons.inj same
          exact .inl ⟨rfl, rfl⟩
        · exact .inr (.inr (.child made))
    | copy made shared =>
        rcases List.cons_eq_append_iff.mp made with ⟨_, same⟩ | ⟨later, _, made⟩
        · obtain ⟨rfl, rfl⟩ := List.cons.inj same
          exact .inr (.inl ⟨_, rfl, rfl, shared⟩)
        · exact .inr (.inr (.copy made shared))
  · rintro (⟨rfl, rfl⟩ | ⟨source, rfl, rfl, shared⟩ | link)
    · exact .child (List.nil_append _).symm
    · exact .copy (List.nil_append _).symm shared
    · cases link with
      | @child _ later _ _ made => exact @ParentOf.child _ (edit :: later) _ _ (congrArg _ made)
      | @copy _ later _ _ _ made shared =>
          exact @ParentOf.copy _ (edit :: later) _ _ _ (congrArg _ made) shared

end Cons

theorem size_store (log : EditLog) : log.store.size = log.created := by
  induction log with
  | nil => rfl
  | cons edit earlier induction =>
      rw [created, List.countP_cons, ← created, ← induction]
      cases edit with
      | bind scope name value => exact Store.size_bind _ _ _ _
      | root | child | copy => exact Store.size_add _ _

section Valid

variable {log : EditLog}

/-- What scopes bind themselves is what was last written to them. -/
theorem own_iff (valid : log.Valid) {handle : Handle} {name : String} {value : Value} :
    log.store.ownOf handle name = some value ↔ log.Written handle name value := by
  induction log generalizing handle value with
  | nil => exact iff_of_false nofun not_written_empty
  | cons edit earlier induction =>
      obtain ⟨within, valid⟩ := valid
      have older : (store earlier).ownOf handle name = some value ↔
          Written earlier handle name value := induction valid
      -- Nothing was written to a scope before it was made.
      have newest : ¬Written earlier (created earlier) name value := by
        rw [← induction valid, Store.own_newer (Nat.le_of_eq (size_store earlier))]
        nofun
      have grown (added : Scope) : ((store earlier).add added).2.ownOf handle name = some value ↔
          (handle = created earlier ∧ added.own name = some value) ∨
            Written earlier handle name value := by
        rw [Store.own_of_add, size_store]
        split
        · rename_i same
          subst same
          simp [newest]
        · rename_i distinct
          simp [distinct, older]
      rw [written_cons]
      cases edit with
      | root => exact (grown (.empty none)).trans (by simp [Scope.empty])
      | child parent => exact (grown (.empty (some parent))).trans (by simp [Scope.empty])
      | copy source =>
          refine (grown _).trans ?_
          simp [Store.own_of_copied, induction valid]
      | bind scope bound given =>
          change ((store earlier).bind scope bound given).ownOf handle name = some value ↔ _
          by_cases same : handle = scope ∧ name = bound
          · obtain ⟨rfl, rfl⟩ := same
            rw [Store.own_of_bind ((size_store earlier).symm ▸ within)]
            simp
          · have other : handle ≠ scope ∨ name ≠ bound := Classical.not_and_iff_not_or_not.mp same
            have apart (value : Value) : Edit.bind scope bound given ≠ .bind handle name value := by
              rintro ⟨⟩
              exact same ⟨rfl, rfl⟩
            rw [Store.own_of_bind_other _ given other, older]
            simp [apart]

theorem own_none_iff (valid : log.Valid) {handle : Handle} {name : String} :
    log.store.ownOf handle name = none ↔ ∀ value, ¬log.Written handle name value := by
  rw [Option.eq_none_iff_forall_ne_some]
  exact forall_congr' fun value => not_congr (own_iff valid)

theorem parent_iff (valid : log.Valid) {child parent : Handle} :
    log.store.parentOf child = some parent ↔ log.ParentOf child parent := by
  induction log generalizing child with
  | nil => exact iff_of_false nofun no_parent_empty
  | cons edit earlier induction =>
      obtain ⟨_, valid⟩ := valid
      have older : (store earlier).parentOf child = some parent ↔
          ParentOf earlier child parent := induction valid
      have newest : ¬ParentOf earlier (created earlier) parent := by
        rw [← induction valid, Store.parent_newer (Nat.le_of_eq (size_store earlier))]
        nofun
      have grown (added : Scope) : ((store earlier).add added).2.parentOf child = some parent ↔
          (child = created earlier ∧ added.parent = some parent) ∨
            ParentOf earlier child parent := by
        rw [Store.parent_of_add, size_store]
        split
        · rename_i same
          subst same
          simp [newest]
        · rename_i distinct
          simp [distinct, older]
      rw [parent_of_cons]
      cases edit with
      | root => exact (grown (.empty none)).trans (by simp [Scope.empty])
      | child handle =>
          refine (grown (.empty (some handle))).trans ?_
          simp [Scope.empty, and_comm]
      | copy source =>
          refine (grown _).trans ?_
          simp [Store.parent_of_copied, induction valid]
      | bind scope name value =>
          change ((store earlier).bind scope name value).parentOf child = some parent ↔ _
          rw [Store.parent_of_bind, older]
          simp

theorem parent_older (valid : log.Valid) {child parent : Handle}
    (link : log.ParentOf child parent) : parent < child := by
  induction log generalizing child with
  | nil => exact absurd link no_parent_empty
  | cons edit earlier induction =>
      obtain ⟨within, valid⟩ := valid
      rcases parent_of_cons.mp link with ⟨rfl, rfl⟩ | ⟨source, rfl, rfl, shared⟩ | link
      · exact within
      · exact Nat.lt_trans (induction valid shared) within
      · exact induction valid link

theorem lookup_iff_means (valid : log.Valid) {seen : Handle} {name : String} {value : Value} :
    log.store.lookup seen name = some value ↔ log.Means name seen value := by
  induction seen using Nat.strongRecOn with
  | ind seen outward =>
      rw [Store.lookup_eq]
      cases own : log.store.ownOf seen name with
      | some found =>
          have written := (own_iff valid).mp own
          rw [Option.some_or, ← own, own_iff valid]
          refine ⟨.own, fun means => ?_⟩
          cases means with
          | own written => exact written
          | outer unwritten => exact absurd written (unwritten found)
      | none =>
          have unwritten := (own_none_iff valid).mp own
          rw [Option.none_or, Option.bind_eq_some_iff]
          constructor
          · rintro ⟨parent, link, found⟩
            have link := (parent_iff valid).mp link
            have older := parent_older valid link
            rw [if_pos older] at found
            exact .outer unwritten link ((outward parent older).mp found)
          · intro means
            cases means with
            | own written => exact absurd written (unwritten value)
            | @outer _ parent _ _ link means =>
                have older := parent_older valid link
                refine ⟨parent, (parent_iff valid).mpr link, ?_⟩
                rw [if_pos older]
                exact (outward parent older).mpr means

end Valid

/-- A name means something exactly where something was written to it, there or further out. -/
theorem means_iff_written {log : EditLog} {seen : Handle} {name : String} :
    (∃ value, log.Means name seen value) ↔
      ∃ outer value, log.Chain seen outer ∧ log.Written outer name value := by
  constructor
  · rintro ⟨value, means⟩
    induction means with
    | own written => exact ⟨_, _, .refl, written⟩
    | outer _ link _ induction =>
        obtain ⟨outer, value, chain, written⟩ := induction
        exact ⟨outer, value, .head link chain, written⟩
  · rintro ⟨outer, value, chain, written⟩
    induction chain using Relation.ReflTransGen.head_induction_on with
    | refl => exact ⟨value, .own written⟩
    | @head scope parent link _ induction =>
        obtain ⟨means, meant⟩ := induction
        by_cases own : ∃ other, log.Written scope name other
        · obtain ⟨other, written⟩ := own
          exact ⟨other, .own written⟩
        · exact ⟨means, .outer (not_exists.mp own) link meant⟩

section Hidden

variable {log : EditLog} {bound seen parent : Handle} {name : String}

/-- What is bound to the name in one scope is not seen from another: the search from there does not
come to the scope, or finds the name in a nearer one. -/
def Hidden (log : EditLog) (bound : Handle) (name : String) (seen : Handle) : Prop :=
  ¬log.Chain seen bound ∨
    ∃ nearer value, log.Chain seen nearer ∧ nearer ≠ bound ∧ log.Chain nearer bound ∧
      log.Written nearer name value

theorem chain_older (valid : log.Valid) {outer : Handle} (chain : log.Chain seen outer) :
    outer ≤ seen := by
  induction chain with
  | refl => exact Nat.le_refl _
  | tail _ link induction => exact Nat.le_trans (Nat.le_of_lt (parent_older valid link)) induction

theorem Hidden.apart (valid : log.Valid) (hidden : log.Hidden bound name seen) :
    seen ≠ bound := by
  rintro rfl
  rcases hidden with none | ⟨nearer, _, chain, distinct, further, _⟩
  · exact none .refl
  · exact distinct (Nat.le_antisymm (chain_older valid chain) (chain_older valid further))

theorem Hidden.outward (valid : log.Valid) (hidden : log.Hidden bound name seen)
    (unwritten : ∀ value, ¬log.Written seen name value) (link : log.ParentOf seen parent) :
    log.Hidden bound name parent := by
  rcases hidden with none | ⟨nearer, value, chain, distinct, further, written⟩
  · exact .inl fun chain => none (.head link chain)
  · rcases Relation.ReflTransGen.cases_head chain with rfl | ⟨parent', link', chain⟩
    · exact absurd written (unwritten value)
    · have same := ((parent_iff valid).mpr link').symm.trans ((parent_iff valid).mpr link)
      obtain rfl := Option.some.inj same
      exact .inr ⟨nearer, value, chain, distinct, further, written⟩

theorem lookup_hidden (valid : log.Valid) (value : Value)
    (hidden : log.Hidden bound name seen) :
    (log.store.bind bound name value).lookup seen name = log.store.lookup seen name := by
  apply Store.lookup_congr (log.Hidden bound name)
  · intro handle hidden
    exact Store.own_of_bind_other _ _ (.inl (hidden.apart valid))
  · intro handle _
    exact Store.parent_of_bind _ _ _ _ _
  · intro handle parent hidden own link _
    exact hidden.outward valid ((own_none_iff valid).mp own) ((parent_iff valid).mp link)
  · exact hidden

end Hidden

end EditLog

/-- What a name is found to mean is what the log says it means: what was last written to it in
the nearest scope outward that has it, where a copy has what its source had at the time. Nothing is
found exactly when nothing was written to the name along the chain of parents. A further binding is
not seen through other names, nor from scopes from which it is hidden. -/
theorem lookup_follows_log {log : EditLog} (valid : log.Valid) :
    (∀ scope, (log.store.add scope).1 = log.created) ∧
    (∀ seen name value,
      log.store.lookup seen name = some value ↔ log.Means name seen value) ∧
    (∀ seen name, log.store.lookup seen name = none ↔
      ∀ outer, log.Chain seen outer → ∀ value, ¬log.Written outer name value) ∧
    ∀ bound name value seen wanted, wanted ≠ name ∨ log.Hidden bound name seen →
      (EditLog.store (.bind bound name value :: log)).lookup seen wanted =
        log.store.lookup seen wanted := by
  refine ⟨fun _ => log.size_store, fun _ _ _ => EditLog.lookup_iff_means valid, ?_, ?_⟩
  · intro seen name
    have nothing : log.store.lookup seen name = none ↔
        ¬∃ value, log.Means name seen value := by
      rw [Option.eq_none_iff_forall_ne_some, not_exists]
      exact forall_congr' fun value => not_congr (EditLog.lookup_iff_means valid)
    rw [nothing, EditLog.means_iff_written]
    simp only [not_exists, not_and]
    exact ⟨fun none outer chain value => none outer value chain,
      fun none outer value chain => none outer chain value⟩
  · rintro bound name value seen wanted (distinct | hidden)
    · exact Store.lookup_bind_other _ _ value distinct seen
    · by_cases same : wanted = name
      · subst same
        exact EditLog.lookup_hidden valid value hidden
      · exact Store.lookup_bind_other _ _ value same seen

def copyingLog : EditLog :=
  [.bind 1 "x" (.int 3), .copy 1, .bind 1 "x" (.int 2), .child 0, .bind 0 "x" (.int 1), .root]

/-- The copy still has the 2, also when its parent binds `x` once more. -/
theorem copy_keeps_its_binding :
    copyingLog.Means "x" 2 (.int 2) ∧
      (EditLog.store (.bind 0 "x" (.int 4) :: copyingLog)).lookup 2 "x" = some (.int 2) := by
  have valid : copyingLog.Valid := by decide
  have found : copyingLog.store.lookup 2 "x" = some (.int 2) := by decide +kernel
  have own : copyingLog.store.ownOf 2 "x" = some (.int 2) := by decide +kernel
  have link : copyingLog.store.parentOf 2 = some 0 := by decide +kernel
  have hidden : copyingLog.Hidden 0 "x" 2 :=
    .inr ⟨2, .int 2, .refl, by decide, .single ((EditLog.parent_iff valid).mp link),
      (EditLog.own_iff valid).mp own⟩
  obtain ⟨_, means, _, unseen⟩ := lookup_follows_log valid
  exact ⟨(means 2 "x" (.int 2)).mp found, (unseen 0 "x" (.int 4) 2 "x" (.inr hidden)).trans found⟩

end Scriptlet
