import FlowScript.Proofs.Peg.Course

/-!
# What a match takes and leaves

Of several texts the first that comes next is taken (`Matches.exists_of_oneOf`), and a repetition of characters stops at
one that does not pass (`Matches.exists_of_star`). So a longer text is read before a shorter one only where it is listed
first, and what is left tells why a repetition ended.
-/

namespace FlowScript.Peg
open FlowScript.Peg.Grammar (between)

variable {ρ : Type} {g : Grammar ρ} {x : Texture} {c c' : Cursor} {ts : List (Derivation ρ)}

/-! ## Texts -/

/-- A text that comes next is read. -/
theorem Cursor.exists_after? {chars : List Char} (comes : chars <+: c.rest) : ∃ c', c.after? chars = some c' := by
  induction chars generalizing c with
  | nil => exact ⟨c, rfl⟩
  | cons d ds ih =>
    obtain ⟨_, place⟩ := c
    obtain ⟨after, rfl⟩ := comes
    obtain ⟨c', read⟩ := ih (c := .next place d (ds ++ after)) ⟨after, rfl⟩
    exact ⟨c', by simpa [Cursor.after?] using read⟩

theorem Cursor.not_prefix_of_after? {chars : List Char} (missing : c.after? chars = none) : ¬chars <+: c.rest := by
  intro comes
  obtain ⟨c', read⟩ := c.exists_after? comes
  cases missing.symm.trans read

/-- A text that is read comes next. -/
theorem Cursor.Reaches.prefix {text : List Char} (h : c.Reaches text c') : text <+: c.rest :=
  ⟨c'.rest, h.rest.symm⟩

theorem oneOf_cons (word w : String) (words : List String) :
    (oneOf ((word :: w :: words).map ofString) : Peg ρ) = .alt (ofString word) (oneOf ((w :: words).map ofString)) := rfl

namespace Matches

/-- Where none of several texts is read, none of them comes next. -/
theorem not_prefix_of_oneOf {words : List String} (h : Matches g (oneOf (words.map ofString)) x c none) :
    ∀ word ∈ words, ¬word.toList <+: c.rest := by
  induction words with
  | nil => nofun
  | cons word words ih =>
    cases words with
    | nil =>
      cases h with
      | textFails missing => exact List.forall_mem_singleton.2 (Cursor.not_prefix_of_after? missing)
    | cons w words =>
      rw [oneOf_cons] at h
      cases h with
      | altSecond first second =>
        cases first with
        | textFails missing => exact List.forall_mem_cons.2 ⟨Cursor.not_prefix_of_after? missing, ih second⟩

/-- Of several texts one is read, and none that is listed before it comes next. -/
theorem exists_of_oneOf {words : List String} (h : Matches g (oneOf (words.map ofString)) x c (some (ts, c'))) :
    ∃ earlier word later, words = earlier ++ word :: later ∧ c.Reaches word.toList c' ∧
      ∀ w ∈ earlier, ¬w.toList <+: c.rest := by
  induction words with
  | nil =>
    cases h with
    | notAhead body => cases body with | textFails missing => cases missing
  | cons word words ih =>
    cases words with
    | nil =>
      cases h with
      | text comes => exact ⟨[], word, [], rfl, .of_after? comes, List.forall_mem_nil _⟩
    | cons w words =>
      rw [oneOf_cons] at h
      cases h with
      | altFirst first =>
        cases first with
        | text comes => exact ⟨[], word, w :: words, rfl, .of_after? comes, List.forall_mem_nil _⟩
      | altSecond first second =>
        cases first with
        | textFails missing =>
          obtain ⟨earlier, one, later, listed, read, before⟩ := ih second
          refine ⟨word :: earlier, one, later, congrArg (word :: ·) listed, read, ?_⟩
          exact List.forall_mem_cons.2 ⟨Cursor.not_prefix_of_after? missing, before⟩

/-! ## Characters -/

variable {test : Char → Bool}

theorem exists_of_char (h : Matches g (.char test) x c (some (ts, c'))) : ∃ d, test d = true ∧ c.Reaches [d] c' := by
  cases h with
  | char passes => exact ⟨_, passes, .one _ _ _⟩

theorem stops_of_char (h : Matches g (.char test) x c none) : ∀ d ∈ c.rest.head?, test d = false := by
  cases h with
  | charFails stops =>
    intro d front
    obtain ⟨rest, is⟩ := List.head?_eq_some_iff.1 front
    exact stops d rest is

/-- Further rounds take characters that pass, up to one that does not. -/
theorem exists_of_more (tight : x ≠ .loose) (h : Matches g (.more (.char test)) x c (some (ts, c'))) :
    ∃ text, c.Reaches text c' ∧ (∀ d ∈ text, test d = true) ∧ ∀ d ∈ c'.rest.head?, test d = false := by
  generalize is : Peg.more (.char test) = e at h
  induction h using Matches.success with
  | more first _ _ ih =>
    cases is
    rw [between_of_ne_loose tight] at first
    obtain ⟨d, passes, read⟩ := first.exists_of_char
    obtain ⟨text, further, pass, stops⟩ := ih tight rfl
    exact ⟨d :: text, read.append further, List.forall_mem_cons.2 ⟨passes, pass⟩, stops⟩
  | moreNone first =>
    cases is
    rw [between_of_ne_loose tight] at first
    exact ⟨[], .refl _, List.forall_mem_nil _, first.stops_of_char⟩
  | _ => cases is

/-- A repetition takes characters that pass, up to one that does not. -/
theorem exists_of_star (tight : x ≠ .loose) (h : Matches g (.star (.char test)) x c (some (ts, c'))) :
    ∃ text, c.Reaches text c' ∧ (∀ d ∈ text, test d = true) ∧ ∀ d ∈ c'.rest.head?, test d = false := by
  cases h with
  | star first rounds =>
    obtain ⟨d, passes, read⟩ := first.exists_of_char
    obtain ⟨text, further, pass, stops⟩ := rounds.exists_of_more tight
    exact ⟨d :: text, read.append further, List.forall_mem_cons.2 ⟨passes, pass⟩, stops⟩
  | starNone first => exact ⟨[], .refl _, List.forall_mem_nil _, first.stops_of_char⟩

end Matches

/-! ## Trees without gaps -/

/-- Trees one right after the other, from one place to another. -/
inductive Abut : Cursor → List (Derivation ρ) → Cursor → Prop
  | nil (c : Cursor) : Abut c [] c
  | cons {t : Derivation ρ} {text : List Char} {ts : List (Derivation ρ)} {c' : Cursor}
    (inside : t.start.Reaches text t.stop) (after : Abut t.stop ts c') : Abut t.start (t :: ts) c'

protected theorem Abut.append {c'' : Cursor} {us : List (Derivation ρ)} (h : Abut c ts c') (h' : Abut c' us c'') :
    Abut c (ts ++ us) c'' := by
  induction h with
  | nil => exact h'
  | cons inside _ ih => exact .cons inside (ih h')

/-- Whether an expression takes no character but in the rules that it calls. -/
def bare : Peg ρ → Bool
  | .text _ | .char _ => false
  | .inputEnd | .call _ | .ahead _ | .notAhead _ => true
  | .seq a b | .alt a b => a.bare && b.bare
  | .opt a | .star a | .more a => a.bare

/-- Inside a literal, the trees of such an expression leave no gaps. -/
theorem Matches.abut (wf : g.WellFormed) {e : Peg ρ} (h : Matches g e x c (some (ts, c'))) (literal : x = .compound)
    (bare : e.bare = true) : Abut c ts c' := by
  have stays : ∀ d, between g x d = d := between_of_ne_loose (by simp [literal])
  induction h using Matches.success with
  | text | char => cases bare
  | inputEnd | optNone | starNone | moreNone | ahead | notAhead => exact .nil _
  | call visible body _ =>
    obtain ⟨text, read⟩ := (body.chain wf).reaches
    exact .cons (t := .node _ _ _ _) read (.nil _)
  | @callInToken r x c ts c' hidden =>
    subst literal
    cases kind : g.kind r <;> simp [kind, RuleKind.atCall] at hidden
  | @seq a b x c ts c' us c'' _ _ ih₁ ih₂ =>
    obtain ⟨bare₁, bare₂⟩ := Bool.and_eq_true_iff.1 bare
    exact (ih₁ literal bare₁ stays).append (stays c' ▸ ih₂ literal bare₂ stays)
  | altFirst _ ih => exact ih literal (Bool.and_eq_true_iff.1 bare).1 stays
  | altSecond _ _ ih => exact ih literal (Bool.and_eq_true_iff.1 bare).2 stays
  | opt _ ih => exact ih literal bare stays
  | star _ _ ih₁ ih₂ => exact (ih₁ literal bare stays).append (ih₂ literal bare stays)
  | @more a x c ts c' us c'' _ _ ih₁ ih₂ =>
    exact (stays c ▸ ih₁ literal bare stays).append (ih₂ literal bare stays)

end FlowScript.Peg
