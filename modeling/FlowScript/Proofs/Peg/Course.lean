import FlowScript.Proofs.Peg.Matches

/-!
# The course of a match

A match reads its text from left to right: the trees in it stand one after the other (`Chain`), with literals and
trivia between them. A tree of matches fits a grammar when every node in it is a match of its rule, and where trivia is
skipped none stands before the first token of a node (`Fits`).
-/

namespace FlowScript.Peg

/-- Reading a text leads from one place to another. -/
structure Cursor.Reaches (c : Cursor) (text : List Char) (c' : Cursor) : Prop where
  rest : c.rest = text ++ c'.rest
  place : c'.place = text.foldl Position.next c.place

namespace Cursor.Reaches

variable {c c' c'' : Cursor} {u v : List Char}

protected theorem refl (c : Cursor) : c.Reaches [] c := ⟨rfl, rfl⟩

protected theorem append (h : c.Reaches u c') (h' : c'.Reaches v c'') : c.Reaches (u ++ v) c'' where
  rest := by rw [h.rest, h'.rest, List.append_assoc]
  place := by rw [h'.place, h.place, List.foldl_append]

theorem one (place : Position) (d : Char) (rest : List Char) :
    Reaches ⟨d :: rest, place⟩ [d] (Cursor.next place d rest) := ⟨rfl, rfl⟩

/-- From one place to another only one text is read. -/
theorem unique (h : c.Reaches u c') (h' : c.Reaches v c') : u = v :=
  List.append_cancel_right (h.rest.symm.trans h'.rest)

theorem offset (h : c.Reaches u c') : c'.offset = c.offset + Text.byteLength u := by
  rw [Cursor.offset, h.place, Position.offset_foldl_next]
  rfl

theorem split (h : c.Reaches (u ++ v) c'') : ∃ c', c.Reaches u c' ∧ c'.Reaches v c'' := by
  refine ⟨⟨v ++ c''.rest, u.foldl Position.next c.place⟩, ⟨?_, rfl⟩, ⟨rfl, ?_⟩⟩
  · rw [h.rest, List.append_assoc]
  · rw [h.place, List.foldl_append]

theorem of_after? {chars : List Char} (comes : c.after? chars = some c') : c.Reaches chars c' := by
  induction chars generalizing c with
  | nil => cases comes; exact .refl _
  | cons d ds ih =>
    obtain ⟨rest, place⟩ := c
    cases rest with
    | nil => cases comes
    | cons d' rest =>
      simp only [Cursor.after?] at comes
      split at comes
      · rename_i same
        subst same
        exact (Reaches.one place d rest).append (ih comes)
      · cases comes

end Cursor.Reaches

theorem Cursor.exists_of_after?_singleton {d : Char} {c c' : Cursor} (comes : c.after? [d] = some c') :
    ∃ rest place, c = ⟨d :: rest, place⟩ ∧ c' = Cursor.next place d rest := by
  obtain ⟨rest, place⟩ := c
  cases rest with
  | nil => cases comes
  | cons d' rest =>
    simp only [Cursor.after?] at comes
    split at comes
    · rename_i same
      subst same
      exact ⟨rest, place, rfl, (Option.some.inj comes).symm⟩
    · cases comes

variable {ρ : Type} {g : Grammar ρ}

/-- The rules that an expression calls. -/
def calls : Peg ρ → List ρ
  | .text _ | .char _ | .inputEnd => []
  | .call r => [r]
  | .seq a b | .alt a b => a.calls ++ b.calls
  | .opt a | .star a | .more a | .ahead a | .notAhead a => a.calls

theorem calls_oneOf (ps : List (Peg ρ)) : (oneOf ps).calls = ps.flatMap calls := by
  induction ps with
  | nil => rfl
  | cons p ps ih =>
    cases ps with
    | nil => simp [oneOf]
    | cons q qs =>
      have step : (oneOf (p :: q :: qs)).calls = p.calls ++ (oneOf (q :: qs)).calls := rfl
      rw [step, ih]
      rfl

/-- A grammar whose trivia is settled in one go, whose tokens are flat, and whose literals with inner structure go over
    to looser rules only through a literal mark. -/
structure Grammar.WellFormed (g : Grammar ρ) : Prop where
  /-- Trivia is read as any other text. -/
  skips (c : Cursor) : ∃ text, c.Reaches text (g.skip c)
  skip_skip (c : Cursor) : g.skip (g.skip c) = g.skip c
  token_calls {r : ρ} (token : g.kind r = .token) : (g.body r).calls = []
  compound_calls {r s : ρ} (compound : g.kind r = .compound) (called : s ∈ (g.body r).calls) : g.kind s ≠ .plain
  loose_settled {r : ρ} {c : Cursor} {o} (loose : g.kind r = .loose)
    (body : Matches g (g.body r) .loose c (some o)) : g.skip c = c

/-- Trees one after the other, on the way from one place to another. -/
inductive Chain : Cursor → List (Derivation ρ) → Cursor → Prop
  | nil {c text c'} (gap : c.Reaches text c') : Chain c [] c'
  | cons {c gap t text ts c'} (before : c.Reaches gap t.start) (inside : t.start.Reaches text t.stop)
    (after : Chain t.stop ts c') : Chain c (t :: ts) c'

namespace Chain

variable {c c' c'' : Cursor} {ts us : List (Derivation ρ)}

theorem reaches (h : Chain c ts c') : ∃ text, c.Reaches text c' := by
  induction h with
  | nil gap => exact ⟨_, gap⟩
  | cons before inside _ ih =>
    obtain ⟨text, rest⟩ := ih
    exact ⟨_, (before.append inside).append rest⟩

theorem prepend {text : List Char} (first : c.Reaches text c') (h : Chain c' ts c'') : Chain c ts c'' := by
  cases h with
  | nil gap => exact .nil (first.append gap)
  | cons before inside after => exact .cons (first.append before) inside after

protected theorem append (h : Chain c ts c') (h' : Chain c' us c'') : Chain c (ts ++ us) c'' := by
  induction h with
  | nil gap => exact h'.prepend gap
  | cons before inside _ ih => exact .cons before inside (ih h')

/-- A chain can be cut before any of its trees. -/
theorem split (h : Chain c (ts ++ us) c') : ∃ d, Chain c ts d ∧ Chain d us c' := by
  induction ts generalizing c with
  | nil => exact ⟨c, .nil (.refl c), h⟩
  | cons t ts ih =>
    cases h with
    | cons before inside after =>
      obtain ⟨d, first, second⟩ := ih after
      exact ⟨d, .cons before inside first, second⟩

/-- The way to a tree of a chain, and on to the end. -/
theorem exists_reaches {t : Derivation ρ} (h : Chain c ts c') (mem : t ∈ ts) :
    ∃ lead tail, c.Reaches lead t.start ∧ t.stop.Reaches tail c' := by
  obtain ⟨before, after, rfl⟩ := List.append_of_mem mem
  obtain ⟨d, first, rest⟩ := h.split
  obtain ⟨text, read⟩ := first.reaches
  cases rest with
  | cons gap inside last =>
    obtain ⟨tail, further⟩ := last.reaches
    exact ⟨_, tail, read.append gap, further⟩

/-- The trees of a chain lie between its ends. -/
theorem contains {t : Derivation ρ} (h : Chain c ts c') (mem : t ∈ ts) :
    c.offset ≤ t.start.offset ∧ t.stop.offset ≤ c'.offset := by
  obtain ⟨lead, tail, before, after⟩ := h.exists_reaches mem
  have := before.offset
  have := after.offset
  omega

/-- The trees of a chain follow each other. -/
theorem apart (h : Chain c ts c') : ts.Pairwise fun t u => t.stop.offset ≤ u.start.offset := by
  induction h with
  | nil => exact .nil
  | cons before inside after ih => exact List.pairwise_cons.2 ⟨fun u mem => (after.contains mem).1, ih⟩

end Chain

/-- Inside tokens and literals no trivia is skipped. -/
theorem between_of_ne_loose {x : Texture} (tight : x ≠ .loose) (c : Cursor) : g.between x c = c := by
  cases x with
  | loose => exact absurd rfl tight
  | compound | atomic => rfl

namespace Matches

theorem between_reaches (wf : g.WellFormed) (x : Texture) (c : Cursor) : ∃ text, c.Reaches text (g.between x c) := by
  cases x with
  | loose => exact wf.skips c
  | compound | atomic => exact ⟨[], .refl c⟩

/-- The trees of a match stand one after the other in it. -/
theorem chain (wf : g.WellFormed) {e : Peg ρ} {x : Texture} {c c' : Cursor} {ts : List (Derivation ρ)}
    (h : Matches g e x c (some (ts, c'))) : Chain c ts c' := by
  induction h using Matches.success with
  | text comes => exact .nil (.of_after? comes)
  | char passes => exact .nil (.one _ _ _)
  | inputEnd nothing => exact .nil (.refl _)
  | call visible body ih =>
    obtain ⟨text, read⟩ := ih.reaches
    exact .cons (t := .node _ _ _ _) (.refl _) read (.nil (.refl _))
  | callInToken hidden body ih => exact ih
  | @seq a b x c ts c' us c'' first second ih₁ ih₂ =>
    obtain ⟨gap, skipped⟩ := between_reaches wf x c'
    exact ih₁.append (ih₂.prepend skipped)
  | altFirst first ih => exact ih
  | altSecond first second ih => exact ih
  | opt body ih => exact ih
  | optNone body => exact .nil (.refl _)
  | star first rounds ih₁ ih₂ => exact ih₁.append ih₂
  | starNone first => exact .nil (.refl _)
  | @more a x c ts c' us c'' first rounds ih₁ ih₂ =>
    obtain ⟨gap, skipped⟩ := between_reaches wf x c
    exact (ih₁.prepend skipped).append ih₂
  | moreNone first => exact .nil (.refl _)
  | ahead body ih => exact .nil (.refl _)
  | notAhead body => exact .nil (.refl _)

end Matches

/-! ## Trees that fit the grammar -/

/-- Whether an expression may begin with trivia: it goes on after earlier rounds, or nothing stands in front of it. -/
def resumes : Peg ρ → Bool
  | .more _ | .text [] => true
  | .seq a _ => a.resumes
  | _ => false

/-- A tree whose nodes are matches of their rules. Where trivia is skipped, none stands before the first token of a
    node, unless its rule leaves room for it; and a node of a rule that takes on the surroundings of its caller stands
    where trivia is skipped. -/
inductive Fits (g : Grammar ρ) : Derivation ρ → Prop
  | node {r x start stop children} (visible : (g.kind r).atCall x ≠ .atomic)
    (body : Matches g (g.body r) ((g.kind r).inBody x) start (some (children, stop)))
    (settled : x = .loose → (g.body r).resumes = false → g.skip start = start)
    (surrounded : g.kind r = .plain → x = .loose)
    (inside : ∀ t ∈ children, Fits g t) : Fits g (.node r start stop children)

namespace Matches

/-- The body of a called rule begins with no trivia where the call does not. -/
theorem body_settled (wf : g.WellFormed) {r : ρ} {x : Texture} {c : Cursor} {o}
    (settled : x = .loose → g.skip c = c) (body : Matches g (g.body r) ((g.kind r).inBody x) c (some o))
    (loose : (g.kind r).inBody x = .loose) : g.skip c = c := by
  cases kind : g.kind r with
  | plain => exact settled (by simpa [kind, RuleKind.inBody] using loose)
  | token => simp [kind, RuleKind.inBody] at loose
  | compound => simp [kind, RuleKind.inBody] at loose
  | loose => exact wf.loose_settled kind (loose ▸ body)

/-- Every tree of a match fits, when the match begins with no trivia and calls no rule of the caller's surroundings
    inside a literal. -/
theorem fits (wf : g.WellFormed) {e : Peg ρ} {x : Texture} {c c' : Cursor} {ts : List (Derivation ρ)}
    (h : Matches g e x c (some (ts, c'))) (settled : x = .loose → e.resumes = false → g.skip c = c)
    (closed : x = .loose ∨ ∀ r ∈ e.calls, g.kind r ≠ .plain) : ∀ t ∈ ts, Fits g t := by
  have body_closed : ∀ {r : ρ} {x : Texture}, (x = .loose ∨ g.kind r ≠ .plain) →
      (g.kind r).inBody x = .loose ∨ ∀ s ∈ (g.body r).calls, g.kind s ≠ .plain := by
    intro r x closed
    cases kind : g.kind r with
    | plain =>
      rcases closed with loose | inner
      · exact .inl (by rw [loose, RuleKind.inBody])
      · exact absurd kind inner
    | token => exact .inr (by simp [wf.token_calls kind])
    | compound => exact .inr fun s called => wf.compound_calls kind called
    | loose => exact .inl rfl
  induction h using Matches.success with
  | text comes => simp
  | char passes => simp
  | inputEnd nothing => simp
  | call visible body ih =>
    rename_i r x c ts c'
    have calledOpen : x = .loose ∨ g.kind r ≠ .plain := closed.imp_right fun inner => inner r (by simp [calls])
    intro t mem
    cases List.mem_singleton.1 mem
    have here := fun loose => settled loose rfl
    refine .node visible body (fun loose _ => here loose) (fun plain => ?_)
      (ih (fun loose _ => body_settled wf here body loose) (body_closed calledOpen))
    exact calledOpen.resolve_right (not_not_intro plain)
  | callInToken hidden body ih =>
    rename_i r x c ts c'
    exact ih (fun loose _ => body_settled wf (fun loose => settled loose rfl) body loose)
      (body_closed (closed.imp_right fun inner => inner r (by simp [calls])))
  | seq first second ih₁ ih₂ =>
    rename_i a b x c ts c' us c''
    intro t mem
    rcases List.mem_append.1 mem with mem | mem
    · refine ih₁ settled (closed.imp_right fun inner r called => ?_) t mem
      exact inner r (List.mem_append_left _ called)
    · refine ih₂ ?_ (closed.imp_right fun inner r called => inner r (List.mem_append_right _ called)) t mem
      rintro rfl -
      exact wf.skip_skip c'
  | altFirst first ih =>
    refine ih (fun loose _ => settled loose rfl) (closed.imp_right fun inner r called => ?_)
    exact inner r (List.mem_append_left _ called)
  | altSecond first second ih =>
    refine ih (fun loose _ => settled loose rfl) (closed.imp_right fun inner r called => ?_)
    exact inner r (List.mem_append_right _ called)
  | opt body ih => exact ih (fun loose _ => settled loose rfl) closed
  | optNone body => simp
  | star first rounds ih₁ ih₂ =>
    intro t mem
    rcases List.mem_append.1 mem with mem | mem
    · exact ih₁ (fun loose _ => settled loose rfl) closed t mem
    · exact ih₂ nofun closed t mem
  | starNone first => simp
  | more first rounds ih₁ ih₂ =>
    rename_i a x c ts c' us c''
    intro t mem
    rcases List.mem_append.1 mem with mem | mem
    · refine ih₁ ?_ closed t mem
      rintro rfl -
      exact wf.skip_skip c
    · exact ih₂ nofun closed t mem
  | moreNone first => simp
  | ahead body ih => simp
  | notAhead body => simp

end Matches

/-! ## The first character -/

/-- Whether an expression matches only where one of certain characters comes next; `false` when that does not show
    within the given number of calls and parts. -/
def Grammar.opens (g : Grammar ρ) (mark : Char → Bool) : Nat → Peg ρ → Bool
  | _, .text (d :: _) => mark d
  | fuel + 1, .call r => opens g mark fuel (g.body r)
  | fuel + 1, .seq (.opt a) b => opens g mark fuel a && opens g mark fuel b
  | fuel + 1, .seq a _ => opens g mark fuel a
  | fuel + 1, .alt a b => opens g mark fuel a && opens g mark fuel b
  | _, _ => false

/-- What the first of two expressions takes first, both take first. -/
theorem Matches.opens_seq (wf : g.WellFormed) {b : Peg ρ} {x : Texture} {c c' c'' : Cursor} {us : List (Derivation ρ)}
    {d : Char} {text : List Char} (first : c.Reaches (d :: text) c')
    (second : Matches g b x (g.between x c') (some (us, c''))) : ∃ text, c.Reaches (d :: text) c'' := by
  obtain ⟨gap, skipped⟩ := between_reaches wf x c'
  obtain ⟨rest, read⟩ := (second.chain wf).reaches
  exact ⟨text ++ gap ++ rest, (first.append skipped).append read⟩

/-- Where such an expression matches without trivia at the front, it takes one of the characters first. -/
theorem Matches.opens (wf : g.WellFormed) {mark : Char → Bool} {e : Peg ρ} {x : Texture} {c c' : Cursor}
    {ts : List (Derivation ρ)} (h : Matches g e x c (some (ts, c'))) {fuel : Nat} (opening : g.opens mark fuel e = true)
    (settled : x = .loose → g.skip c = c) : ∃ d text, mark d = true ∧ c.Reaches (d :: text) c' := by
  fun_induction g.opens mark fuel e generalizing x c c' ts with
  | case1 fuel d ds =>
    cases h with
    | text comes => exact ⟨d, ds, opening, .of_after? comes⟩
  | case2 fuel r ih =>
    cases h with
    | call visible body => exact ih body opening (body_settled wf settled body)
    | callInToken hidden body => exact ih body opening (body_settled wf settled body)
  | case3 fuel a b ih₁ ih₂ =>
    obtain ⟨opens₁, opens₂⟩ := Bool.and_eq_true_iff.1 opening
    cases h with
    | seq first second =>
      cases first with
      | opt body =>
        obtain ⟨d, text, marked, read⟩ := ih₁ body opens₁ settled
        obtain ⟨whole, read⟩ := opens_seq wf read second
        exact ⟨d, whole, marked, read⟩
      | optNone body =>
        have stays : g.between x c = c := by
          cases x with
          | loose => exact settled rfl
          | compound | atomic => rfl
        rw [stays] at second
        exact ih₂ second opens₂ settled
  | case4 fuel a b _ ih =>
    cases h with
    | seq first second =>
      obtain ⟨d, text, marked, read⟩ := ih first opening settled
      obtain ⟨whole, read⟩ := opens_seq wf read second
      exact ⟨d, whole, marked, read⟩
  | case5 fuel a b ih₁ ih₂ =>
    obtain ⟨opens₁, opens₂⟩ := Bool.and_eq_true_iff.1 opening
    cases h with
    | altFirst first => exact ih₁ first opens₁ settled
    | altSecond first second => exact ih₂ second opens₂ settled
  | case6 => cases opening

end FlowScript.Peg
