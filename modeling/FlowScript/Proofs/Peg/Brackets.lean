import FlowScript.Proofs.Nesting.Outside

/-!
# Brackets in a match

Which brackets a match opens and closes shows in the expression (`Peg.climbs`): every round of a repetition and every
rule closes what it opens. So wherever trivia leaves the brackets as they are, the pass over the tokens finds as many
brackets open before each tree of a match as the expression says (`Matches.climbs`).
-/

namespace FlowScript.Nesting
open FlowScript.Peg (Cursor)
open Token (marks OpensNoComment)

/-- How many brackets are open behind a text before which `d` are; nothing if it closes others, or is not read as code
    wherever it stands. -/
def climbText : Nat → List Char → Option Nat
  | d, [] => some d
  | d, x :: r =>
    if x ∈ ['(', '[', '\x7b'] then climbText (d + 1) r
    else if x ∈ [')', ']', '\x7d'] then
      match d with
      | 0 => none
      | d + 1 => climbText d r
    else if x ∈ marks then none
    else if x = '/' then if r.head?.any fun y => y != '/' && y != '*' then climbText d r else none
    else climbText d r

theorem Climbs.text {chars : List Char} {c c' : Cursor} {d e : Nat} (comes : c.after? chars = some c')
    (climbs : climbText d chars = some e) : Climbs c d c' e := by
  induction chars generalizing c d with
  | nil =>
    cases comes
    cases climbs
    exact .refl _ _
  | cons x r ih =>
    obtain ⟨rest, place⟩ := c
    cases rest with
    | nil => cases comes
    | cons y rest =>
      rw [Cursor.after?] at comes
      split at comes
      · rename_i same
        subst same
        have next := (Cursor.Reaches.of_after? comes).rest
        unfold climbText at climbs
        split at climbs
        · rename_i opens
          exact (Climbs.opening d opens).trans (ih comes climbs)
        split at climbs
        · rename_i closes
          cases d with
          | zero => cases climbs
          | succ d => exact (Climbs.closing d closes).trans (ih comes climbs)
        split at climbs
        · cases climbs
        rename_i plain
        split at climbs
        · split at climbs
          · rename_i apart
            refine (Climbs.plain d plain fun _ => ?_).trans (ih comes climbs)
            cases r with
            | nil => cases apart
            | cons z r =>
              simp only [Cursor.next, List.cons_append] at next
              rw [next]
              simpa [and_comm] using apart
          · cases climbs
        · rename_i other
          exact (Climbs.plain d plain fun is => absurd is other).trans (ih comes climbs)
      · cases comes

end FlowScript.Nesting

namespace FlowScript.Peg
open FlowScript.Nesting (Climbs climbText)
open FlowScript.Nesting.Token (marks)

variable {ρ : Type} {g : Grammar ρ}

/-- How many brackets are open behind an expression before which `d` are, where `asks` tells of each rule that is called
    whether it may be with so many open; nothing if that does not show. -/
def climbs (asks : ρ → Nat → Bool) : Peg ρ → Nat → Option Nat
  | .text chars, d => climbText d chars
  | .char test, d => if (('/' :: marks).all fun x => !test x) then some d else none
  | .inputEnd, d | .ahead _, d | .notAhead _, d => some d
  | .call r, d => if asks r d then some d else none
  | .seq a b, d => (a.climbs asks d).bind (b.climbs asks)
  | .alt a b, d => if a.climbs asks d = b.climbs asks d then a.climbs asks d else none
  | .opt a, d | .star a, d | .more a, d => if a.climbs asks d = some d then some d else none

/-- The trees of a match, each with as many brackets open before it as its rule asks for. -/
def Enclosed (asks : ρ → Nat → Bool) (c : Cursor) (d : Nat) (ts : List (Derivation ρ)) : Prop :=
  ∀ t ∈ ts, ∃ k, asks t.rule k = true ∧ Climbs c d t.start k

/-- Trees behind something else. -/
theorem Enclosed.prepend {asks : ρ → Nat → Bool} {c c' : Cursor} {d e : Nat} {ts : List (Derivation ρ)}
    (h : Enclosed asks c' e ts) (first : Climbs c d c' e) : Enclosed asks c d ts := by
  intro t mem
  obtain ⟨k, asked, climbs⟩ := h t mem
  exact ⟨k, asked, first.trans climbs⟩

/-- A match of an expression climbs as the expression says, and so does the way to each of its trees, where what
    remains of the input is such that trivia and the trees of the match close what they open. -/
theorem Matches.climbs (wf : g.WellFormed) {Tidy : List Char → Prop}
    (suffix : ∀ {text rest}, Tidy (text ++ rest) → Tidy rest)
    (trivia : ∀ c, Tidy c.rest → Climbs c 0 (g.skip c) 0) {asks : ρ → Nat → Bool} {e : Peg ρ} {x : Texture}
    {c c' : Cursor} {ts : List (Derivation ρ)} (h : Matches g e x c (some (ts, c'))) {d f : Nat}
    (visible : x ≠ .atomic ∨ e.calls = []) (tidy : Tidy c.rest) (shows_ : e.climbs asks d = some f)
    (inside : ∀ t ∈ ts, Climbs t.start 0 t.stop 0) : Climbs c d c' f ∧ Enclosed asks c d ts := by
  have remains {c c' : Cursor} {text : List Char} (read : c.Reaches text c') (tidy : Tidy c.rest) : Tidy c'.rest :=
    suffix (read.rest ▸ tidy)
  have between (x : Texture) {c : Cursor} (d : Nat) (tidy : Tidy c.rest) : Climbs c d (g.between x c) d := by
    cases x with
    | loose => exact (trivia c tidy).of_level d
    | compound | atomic => exact .refl c d
  have both {c c' c'' c''' : Cursor} {d e f : Nat} {ts us : List (Derivation ρ)}
      (first : Climbs c d c' e ∧ Enclosed asks c d ts) (gap : Climbs c' e c'' e)
      (second : Climbs c'' e c''' f ∧ Enclosed asks c'' e us) : Climbs c d c''' f ∧ Enclosed asks c d (ts ++ us) :=
    ⟨(first.1.trans gap).trans second.1,
      List.forall_mem_append.2 ⟨first.2, second.2.prepend (first.1.trans gap)⟩⟩
  have stay (c : Cursor) (d : Nat) : Climbs c d c d ∧ Enclosed asks c d [] := ⟨.refl c d, nofun⟩
  induction h using Matches.success generalizing d f with
  | text comes => exact ⟨.text comes shows_, nofun⟩
  | @char test x y rest place passes =>
    rw [Peg.climbs] at shows_
    split at shows_
    · rename_i none_
      cases shows_
      have stops : ∀ z ∈ '/' :: marks, test z = false := by simpa using none_
      refine ⟨.plain d (fun listed => ?_) fun is => ?_, nofun⟩
      · exact Bool.false_ne_true ((stops y (List.mem_cons_of_mem _ listed)).symm.trans passes)
      · exact absurd (is ▸ passes) (Bool.eq_false_iff.1 (stops '/' (List.mem_cons_self ..)))
    · cases shows_
  | inputEnd | ahead | notAhead =>
    cases shows_
    exact stay _ _
  | @call r x c ts c' hidden body ih =>
    rw [Peg.climbs] at shows_
    split at shows_
    · rename_i asked
      cases shows_
      refine ⟨(inside _ (List.mem_singleton_self _)).of_level d, List.forall_mem_singleton.2 ?_⟩
      exact ⟨d, asked, .refl c d⟩
    · cases shows_
  | @callInToken r x c ts c' hidden body ih =>
    rcases visible with loose | none_
    · cases kind : g.kind r <;> simp_all [RuleKind.atCall]
    · cases none_
  | @seq a b x c ts c' us c'' first second ih₁ ih₂ =>
    obtain ⟨middle, climbsA, climbsB⟩ := Option.bind_eq_some_iff.1 shows_
    obtain ⟨insideA, insideB⟩ := List.forall_mem_append.1 inside
    obtain ⟨text, read⟩ := (first.chain wf).reaches
    obtain ⟨gap, skipped⟩ := between_reaches wf x c'
    have tidyB := remains skipped (remains read tidy)
    refine both (ih₁ (visible.imp_right fun h => (List.append_eq_nil_iff.1 h).1) tidy climbsA insideA)
      (between x middle (remains read tidy)) ?_
    exact ih₂ (visible.imp_right fun h => (List.append_eq_nil_iff.1 h).2) tidyB climbsB insideB
  | altFirst _ ih =>
    rw [Peg.climbs] at shows_
    split at shows_
    · exact ih (visible.imp_right fun h => (List.append_eq_nil_iff.1 h).1) tidy shows_ inside
    · cases shows_
  | altSecond _ _ ih =>
    rw [Peg.climbs] at shows_
    split at shows_
    · rename_i same
      exact ih (visible.imp_right fun h => (List.append_eq_nil_iff.1 h).2) tidy (same ▸ shows_) inside
    · cases shows_
  | opt _ ih =>
    rw [Peg.climbs] at shows_
    split at shows_
    · rename_i level
      cases shows_
      exact ih visible tidy level inside
    · cases shows_
  | optNone | starNone | moreNone =>
    rw [Peg.climbs] at shows_
    split at shows_
    · cases shows_
      exact stay _ _
    · cases shows_
  | star first rounds ih₁ ih₂ =>
    have again := shows_
    rw [Peg.climbs] at shows_
    split at shows_
    · rename_i level
      cases shows_
      obtain ⟨insideA, insideB⟩ := List.forall_mem_append.1 inside
      obtain ⟨text, read⟩ := (first.chain wf).reaches
      exact both (ih₁ visible tidy level insideA) (.refl _ _) (ih₂ visible (remains read tidy) again insideB)
    · cases shows_
  | @more a x c ts c' us c'' first rounds ih₁ ih₂ =>
    have again := shows_
    rw [Peg.climbs] at shows_
    split at shows_
    · rename_i level
      cases shows_
      obtain ⟨insideA, insideB⟩ := List.forall_mem_append.1 inside
      obtain ⟨gap, skipped⟩ := between_reaches wf x c
      have tidyA := remains skipped tidy
      obtain ⟨text, read⟩ := (first.chain wf).reaches
      obtain ⟨climbsA, treesA⟩ := ih₁ visible tidyA level insideA
      have gap := between x d tidy
      exact both ⟨gap.trans climbsA, treesA.prepend gap⟩ (.refl _ _) (ih₂ visible (remains read tidyA) again insideB)
    · cases shows_

end FlowScript.Peg
