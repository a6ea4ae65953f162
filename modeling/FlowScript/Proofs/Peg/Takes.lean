import FlowScript.Proofs.Peg.Progress

/-!
# The last and the first character of a match

A match takes characters, and skips trivia between them and, where its last parts turn out empty, behind the last one.
`Takes` tells where that last character ends: the match stops there or after the trivia behind it (`Takes.settles`), and
the character is none that the expression never ends in (`Takes.endsIn`). What the first character is shows in the
expression as well (`Matches.begins`).
-/

namespace FlowScript.Peg
open FlowScript.Peg.Grammar (between)

variable {ρ : Type} {g : Grammar ρ}

/-- What an expression matches at a place, as far as the last character goes that it takes, trivia apart: the place
    behind the match, and the place behind that character, if it takes any. -/
inductive Takes (g : Grammar ρ) : Peg ρ → Texture → Cursor → Cursor → Option Cursor → Prop
  | textNil {x c} : Takes g (.text []) x c c none
  | text {d ds x c c'} (comes : c.after? (d :: ds) = some c') : Takes g (.text (d :: ds)) x c c' (some c')
  | char {test x d rest place} (passes : test d = true) :
    Takes g (.char test) x ⟨d :: rest, place⟩ (Cursor.next place d rest) (some (Cursor.next place d rest))
  | inputEnd {x c} (nothing : c.rest = []) : Takes g .inputEnd x c c none
  | call {r x c c' last} (body : Takes g (g.body r) ((g.kind r).inBody x) c c' last) : Takes g (.call r) x c c' last
  | seq {a b x c c' c'' m n} (first : Takes g a x c c' m) (second : Takes g b x (between g x c') c'' n) :
    Takes g (.seq a b) x c c'' (n.or m)
  | altFirst {a b x c c' last} (first : Takes g a x c c' last) : Takes g (.alt a b) x c c' last
  | altSecond {a b x c c' last} (first : Matches g a x c none) (second : Takes g b x c c' last) :
    Takes g (.alt a b) x c c' last
  | opt {a x c c' last} (body : Takes g a x c c' last) : Takes g (.opt a) x c c' last
  | optNone {a x c} (body : Matches g a x c none) : Takes g (.opt a) x c c none
  | star {a x c c' c'' m n} (first : Takes g a x c c' m) (rounds : Takes g (.more a) x c' c'' n) :
    Takes g (.star a) x c c'' (n.or m)
  | starNone {a x c} (first : Matches g a x c none) : Takes g (.star a) x c c none
  | more {a x c c' c'' m n} (first : Takes g a x (between g x c) c' m) (rounds : Takes g (.more a) x c' c'' n) :
    Takes g (.more a) x c c'' (n.or m)
  | moreNone {a x c} (first : Matches g a x (between g x c) none) : Takes g (.more a) x c c none
  | ahead {a x c ts c'} (body : Matches g a x c (some (ts, c'))) : Takes g (.ahead a) x c c none
  | notAhead {a x c} (body : Matches g a x c none) : Takes g (.notAhead a) x c c none

/-- Every match takes a last character or none. -/
theorem Matches.takes {e : Peg ρ} {x : Texture} {c c' : Cursor} {ts : List (Derivation ρ)}
    (h : Matches g e x c (some (ts, c'))) : ∃ last, Takes g e x c c' last := by
  induction h using Matches.success with
  | @text chars x c c' comes =>
    cases chars with
    | nil => cases comes; exact ⟨_, .textNil⟩
    | cons d ds => exact ⟨_, .text comes⟩
  | char passes => exact ⟨_, .char passes⟩
  | inputEnd nothing => exact ⟨_, .inputEnd nothing⟩
  | call visible body ih | callInToken hidden body ih =>
    obtain ⟨last, body⟩ := ih
    exact ⟨last, .call body⟩
  | seq first second ih₁ ih₂ =>
    obtain ⟨m, first⟩ := ih₁
    obtain ⟨n, second⟩ := ih₂
    exact ⟨_, .seq first second⟩
  | altFirst first ih =>
    obtain ⟨last, first⟩ := ih
    exact ⟨last, .altFirst first⟩
  | altSecond first second ih =>
    obtain ⟨last, second⟩ := ih
    exact ⟨last, .altSecond first second⟩
  | opt body ih =>
    obtain ⟨last, body⟩ := ih
    exact ⟨last, .opt body⟩
  | optNone body => exact ⟨_, .optNone body⟩
  | star first rounds ih₁ ih₂ =>
    obtain ⟨m, first⟩ := ih₁
    obtain ⟨n, rounds⟩ := ih₂
    exact ⟨_, .star first rounds⟩
  | starNone first => exact ⟨_, .starNone first⟩
  | more first rounds ih₁ ih₂ =>
    obtain ⟨m, first⟩ := ih₁
    obtain ⟨n, rounds⟩ := ih₂
    exact ⟨_, .more first rounds⟩
  | moreNone first => exact ⟨_, .moreNone first⟩
  | ahead body => exact ⟨_, .ahead body⟩
  | notAhead body => exact ⟨_, .notAhead body⟩

/-! ## What stands behind the last character -/

/-- A place is another one, or the one after the trivia there. -/
def Grammar.Settles (g : Grammar ρ) (c c' : Cursor) : Prop :=
  c' = c ∨ c' = g.skip c

namespace Grammar.Settles

variable {c c' c'' : Cursor}

protected theorem refl (c : Cursor) : g.Settles c c := .inl rfl

protected theorem trans (wf : g.WellFormed) (h : g.Settles c c') (h' : g.Settles c' c'') : g.Settles c c'' := by
  rcases h with rfl | rfl
  · exact h'
  · rcases h' with rfl | rfl
    · exact .inr rfl
    · exact .inr (wf.skip_skip c)

theorem between (x : Texture) (c : Cursor) : g.Settles c (g.between x c) := by
  cases x with
  | loose => exact .inr rfl
  | compound | atomic => exact .inl rfl

theorem reaches (wf : g.WellFormed) (h : g.Settles c c') : ∃ gap, c.Reaches gap c' := by
  rcases h with rfl | rfl
  · exact ⟨[], .refl _⟩
  · exact wf.skips c

/-- What settles after the second of two parts settles after the last character of both. -/
theorem or (wf : g.WellFormed) {m n : Option Cursor} (first : g.Settles (m.getD c) c')
    (second : g.Settles (n.getD c') c'') : g.Settles ((n.or m).getD c) c'' := by
  cases n with
  | some d => exact second
  | none => exact first.trans wf second

end Grammar.Settles

namespace Takes

variable {e : Peg ρ} {x : Texture} {c c' d : Cursor} {last : Option Cursor}

/-- A match stops behind its last character, or after the trivia there. -/
theorem settles (wf : g.WellFormed) (h : Takes g e x c c' last) : g.Settles (last.getD c) c' := by
  induction h with
  | textNil | text | char | inputEnd | optNone | starNone | moreNone | ahead | notAhead => exact .refl _
  | call _ ih | altFirst _ ih | altSecond _ _ ih | opt _ ih => exact ih
  | @seq a b x c c' c'' m n first second ih₁ ih₂ =>
    exact .or wf (ih₁.trans wf (.between x c')) ih₂
  | star first rounds ih₁ ih₂ => exact .or wf ih₁ ih₂
  | @more a x c c' c'' m n first rounds ih₁ ih₂ =>
    refine .or wf ?_ ih₂
    cases m with
    | some d => exact ih₁
    | none => exact (Grammar.Settles.between x c).trans wf ih₁

/-- A match that takes no character is one of an expression that may be empty. -/
theorem mayBeEmpty {empty : ρ → Bool} (nothing : ∀ r, (g.body r).mayBeEmpty empty = true → empty r = true)
    (h : Takes g e x c c' last) (none : last = none) : e.mayBeEmpty empty = true := by
  induction h with
  | textNil | inputEnd | opt | optNone | star | starNone | more | moreNone | ahead | notAhead => rfl
  | text | char => cases none
  | call _ ih => exact nothing _ (ih none)
  | seq first second ih₁ ih₂ =>
    obtain ⟨second, first⟩ := Option.or_eq_none_iff.1 none
    exact Bool.and_eq_true_iff.2 ⟨ih₁ first, ih₂ second⟩
  | altFirst _ ih => exact Bool.or_eq_true_iff.2 (.inl (ih none))
  | altSecond _ _ ih => exact Bool.or_eq_true_iff.2 (.inr (ih none))

end Takes

/-! ## What the last character is -/

/-- Whether the last character that a match takes is never one of the given ones, given of which rules that holds and
    which may be empty. -/
def neverEndsIn (bad : List Char) (empty safe : ρ → Bool) : Peg ρ → Bool
  | .text chars => chars.getLast?.all (!bad.contains ·)
  | .char test => bad.all (!test ·)
  | .inputEnd | .ahead _ | .notAhead _ => true
  | .call r => safe r
  | .seq a b => b.neverEndsIn bad empty safe && (!b.mayBeEmpty empty || a.neverEndsIn bad empty safe)
  | .alt a b => a.neverEndsIn bad empty safe && b.neverEndsIn bad empty safe
  | .opt a | .star a | .more a => a.neverEndsIn bad empty safe

/-- The text from a place up to the other one, if there is one, ends in a character with a property. -/
def Cursor.EndsIn (c : Cursor) (last : Option Cursor) (P : Char → Prop) : Prop :=
  ∀ d, last = some d → ∃ front ch, c.Reaches (front ++ [ch]) d ∧ P ch

namespace Cursor.EndsIn

variable {c c' : Cursor} {m n last : Option Cursor} {P Q : Char → Prop}

theorem imp (h : c.EndsIn last P) (weaker : ∀ ch, P ch → Q ch) : c.EndsIn last Q := by
  intro d ends
  obtain ⟨front, ch, read, holds⟩ := h d ends
  exact ⟨front, ch, read, weaker ch holds⟩

theorem prepend {text : List Char} (first : c.Reaches text c') (h : c'.EndsIn last P) : c.EndsIn last P := by
  intro d ends
  obtain ⟨front, ch, read, holds⟩ := h d ends
  refine ⟨text ++ front, ch, ?_, holds⟩
  rw [List.append_assoc]
  exact first.append read

/-- Of two parts the first one counts only where the second takes nothing. -/
theorem or (first : n = none → c.EndsIn m P) (second : c.EndsIn n P) : c.EndsIn (n.or m) P := by
  cases n with
  | some d => exact second
  | none => exact first rfl

theorem exists_reaches (wf : g.WellFormed) (h : c.EndsIn last P) (settles : g.Settles (last.getD c) c') :
    ∃ text, c.Reaches text c' := by
  obtain ⟨gap, behind⟩ := settles.reaches wf
  cases last with
  | none => exact ⟨gap, behind⟩
  | some d =>
    obtain ⟨front, ch, read, -⟩ := h d rfl
    exact ⟨_, read.append behind⟩

end Cursor.EndsIn

/-- The last character of a match is none that the expression never ends in. -/
theorem Takes.endsIn (wf : g.WellFormed) {bad : List Char} {empty safe : ρ → Bool}
    (nothing : ∀ r, (g.body r).mayBeEmpty empty = true → empty r = true)
    (bodies : ∀ r, safe r = true → (g.body r).neverEndsIn bad empty safe = true) {e : Peg ρ} {x : Texture}
    {c c' : Cursor} {last : Option Cursor} (h : Takes g e x c c' last) :
    c.EndsIn last fun ch => e.neverEndsIn bad empty safe = true → ch ∉ bad := by
  induction h with
  | textNil | inputEnd | optNone | starNone | moreNone | ahead | notAhead => rintro d ⟨⟩
  | @text d ds x c c' comes =>
    rintro _ ⟨⟩
    have some_ := List.cons_ne_nil d ds
    refine ⟨(d :: ds).dropLast, (d :: ds).getLast some_, ?_, fun never => ?_⟩
    · rw [List.dropLast_concat_getLast some_]
      exact .of_after? comes
    · rw [neverEndsIn, List.getLast?_eq_some_getLast some_] at never
      simpa using never
  | @char test x d rest place passes =>
    rintro _ ⟨⟩
    refine ⟨[], d, .one place d rest, fun never mem => ?_⟩
    have fails := List.all_eq_true.1 never d mem
    simp [passes] at fails
  | call body ih => exact ih.imp fun ch safe never => safe (bodies _ never)
  | @seq a b x c c' c'' m n first second ih₁ ih₂ =>
    obtain ⟨text, toSecond⟩ := ih₁.exists_reaches wf (first.settles wf)
    obtain ⟨gap, skipped⟩ := (Grammar.Settles.between x c').reaches wf
    refine .or (fun none => ih₁.imp fun ch safe never => safe ?_) ?_
    · have either := (Bool.and_eq_true_iff.1 never).2
      rwa [second.mayBeEmpty nothing none] at either
    · exact (ih₂.imp fun ch safe never => safe (Bool.and_eq_true_iff.1 never).1).prepend (toSecond.append skipped)
  | altFirst first ih => exact ih.imp fun ch safe never => safe (Bool.and_eq_true_iff.1 never).1
  | altSecond _ second ih => exact ih.imp fun ch safe never => safe (Bool.and_eq_true_iff.1 never).2
  | opt body ih => exact ih
  | star first rounds ih₁ ih₂ =>
    obtain ⟨text, toRounds⟩ := ih₁.exists_reaches wf (first.settles wf)
    exact .or (fun _ => ih₁) (ih₂.prepend toRounds)
  | @more a x c c' c'' m n first rounds ih₁ ih₂ =>
    obtain ⟨gap, skipped⟩ := (Grammar.Settles.between x c).reaches wf
    obtain ⟨text, toRounds⟩ := ih₁.exists_reaches wf (first.settles wf)
    exact .or (fun _ => ih₁.prepend skipped) (ih₂.prepend (skipped.append toRounds))

/-! ## What the first character is -/

/-- Whether the first character that a match takes is never one of the given ones, given of which rules that holds and
    which may be empty. -/
def neverBeginsWith (bad : List Char) (empty safe : ρ → Bool) : Peg ρ → Bool
  | .text chars => chars.head?.all (!bad.contains ·)
  | .char test => bad.all (!test ·)
  | .inputEnd | .ahead _ | .notAhead _ => true
  | .call r => safe r
  | .seq a b => a.neverBeginsWith bad empty safe && (!a.mayBeEmpty empty || b.neverBeginsWith bad empty safe)
  | .alt a b => a.neverBeginsWith bad empty safe && b.neverBeginsWith bad empty safe
  | .opt a | .star a | .more a => a.neverBeginsWith bad empty safe

/-- A match without trivia at the front is empty, or its text begins as it must: with no bad character, unless a rule
    takes it that has a reason of its own. -/
theorem Matches.begins (wf : g.WellFormed) {P : List Char → Prop} {bad : List Char} {empty safe : ρ → Bool}
    (nothing : ∀ r, (g.body r).mayBeEmpty empty = true → empty r = true) (good : ∀ d rest, d ∉ bad → P (d :: rest))
    (bodies : ∀ r, safe r = true → (g.body r).neverBeginsWith bad empty safe = true ∨
      ∀ x c o, Matches g (g.body r) ((g.kind r).inBody x) c (some o) → P c.rest)
    {e : Peg ρ} {x : Texture} {c c' : Cursor} {ts : List (Derivation ρ)} (h : Matches g e x c (some (ts, c')))
    (settled : x = .loose → g.skip c = c) (never : e.neverBeginsWith bad empty safe = true) :
    P c.rest ∨ e.mayBeEmpty empty = true ∧ c' = c := by
  have stays {x : Texture} {c : Cursor} (settled : x = .loose → g.skip c = c) : g.between x c = c := by
    cases x with
    | loose => exact settled rfl
    | compound | atomic => rfl
  induction h using Matches.success with
  | @text chars x c c' comes =>
    cases chars with
    | nil => cases comes; exact .inr ⟨rfl, rfl⟩
    | cons d ds =>
      rw [(Cursor.Reaches.of_after? comes).rest]
      exact .inl (good d _ (by simpa [neverBeginsWith] using never))
  | @char test x d rest place passes =>
    refine .inl (good d rest fun mem => ?_)
    have fails := List.all_eq_true.1 never d mem
    simp [passes] at fails
  | inputEnd | ahead | notAhead | optNone | starNone | moreNone => exact .inr ⟨rfl, rfl⟩
  | call visible body ih | callInToken hidden body ih =>
    rcases bodies _ never with plain | reason
    · exact (ih (body_settled wf settled body) plain).imp_right fun ⟨may, same⟩ => ⟨nothing _ may, same⟩
    · exact .inl (reason _ _ _ body)
  | seq first second ih₁ ih₂ =>
    obtain ⟨neverA, either⟩ := Bool.and_eq_true_iff.1 never
    rcases ih₁ settled neverA with here | ⟨may, rfl⟩
    · exact .inl here
    rw [may] at either
    rw [stays settled] at second ih₂
    refine (ih₂ settled either).imp_right fun ⟨mayB, same⟩ => ⟨?_, same⟩
    rw [Peg.mayBeEmpty, may, mayB]
    rfl
  | altFirst first ih =>
    refine (ih settled (Bool.and_eq_true_iff.1 never).1).imp_right fun ⟨may, same⟩ => ⟨?_, same⟩
    rw [Peg.mayBeEmpty, may]
    rfl
  | altSecond _ second ih =>
    refine (ih settled (Bool.and_eq_true_iff.1 never).2).imp_right fun ⟨may, same⟩ => ⟨?_, same⟩
    rw [Peg.mayBeEmpty, may, Bool.or_true]
  | opt body ih => exact (ih settled never).imp_right fun ⟨_, same⟩ => ⟨rfl, same⟩
  | star first rounds ih₁ ih₂ =>
    rcases ih₁ settled never with here | ⟨-, rfl⟩
    · exact .inl here
    · exact (ih₂ settled never).imp_right fun ⟨_, same⟩ => ⟨rfl, same⟩
  | more first rounds ih₁ ih₂ =>
    rw [stays settled] at first ih₁
    rcases ih₁ settled never with here | ⟨-, rfl⟩
    · exact .inl here
    · exact (ih₂ settled never).imp_right fun ⟨_, same⟩ => ⟨rfl, same⟩

/-! ## Trees -/

namespace Derivation

/-- A tree holds itself, and what the trees inside it hold. -/
inductive Holds : Derivation ρ → Derivation ρ → Prop
  | self {t} : Holds t t
  | inside {rule start stop children t u} : t ∈ children → Holds t u → Holds (.node rule start stop children) u

theorem Holds.of_mem {t u : Derivation ρ} (mem : u ∈ t.children) : t.Holds u := by
  obtain ⟨rule, start, stop, children⟩ := t
  exact .inside mem .self

/-- What a tree holds is the tree itself or stands right inside something it holds. -/
theorem Holds.eq_or_parent {t u : Derivation ρ} (held : t.Holds u) : t = u ∨ ∃ v, t.Holds v ∧ u ∈ v.children := by
  induction held with
  | self => exact .inl rfl
  | @inside rule start stop children t u mem held ih =>
    right
    rcases ih with rfl | ⟨v, held, child⟩
    · exact ⟨_, .self, mem⟩
    · exact ⟨v, .inside mem held, child⟩

/-- The last token of a match ends at a place. -/
def EndsAt (g : Grammar ρ) (t : Derivation ρ) (d : Cursor) : Prop :=
  Takes g (g.body t.rule) ((g.kind t.rule).inBody .loose) t.start t.stop (some d)

end Derivation

namespace Fits

variable {t u : Derivation ρ}

theorem of_holds (fits : Fits g t) (held : t.Holds u) : Fits g u := by
  induction held with
  | self => exact fits
  | inside mem _ ih =>
    cases fits with
    | node visible body settled surrounded inside => exact ih (inside _ mem)

/-- What a tree holds stands in its match. -/
theorem exists_reaches (wf : g.WellFormed) (fits : Fits g t) (held : t.Holds u) :
    (∃ lead, t.start.Reaches lead u.start) ∧ t.start.offset ≤ u.start.offset ∧ u.stop.offset ≤ t.stop.offset := by
  induction held with
  | self => exact ⟨⟨[], .refl _⟩, Nat.le_refl _, Nat.le_refl _⟩
  | inside mem _ ih =>
    cases fits with
    | node visible body settled surrounded inside =>
      have chain := body.chain wf
      obtain ⟨lead, -, before, -⟩ := chain.exists_reaches mem
      obtain ⟨starts, stops⟩ := chain.contains mem
      obtain ⟨⟨further, read⟩, begins, ends⟩ := ih (inside _ mem)
      exact ⟨⟨_, before.append read⟩, Nat.le_trans starts begins, Nat.le_trans ends stops⟩

/-- A match that cannot be empty has a last token. -/
theorem exists_endsAt {empty : ρ → Bool} (nothing : ∀ r, (g.body r).mayBeEmpty empty = true → empty r = true)
    (fits : Fits g t) (takes : empty t.rule = false) : ∃ d, t.EndsAt g d := by
  cases fits with
  | @node r x start stop children visible body settled surrounded inside =>
    have texture : (g.kind r).inBody x = (g.kind r).inBody .loose := by
      cases kind : g.kind r with
      | plain => rw [surrounded kind]
      | token | compound | loose => rfl
    rw [texture] at body
    obtain ⟨last, taken⟩ := body.takes
    cases last with
    | some d => exact ⟨d, taken⟩
    | none =>
      have may := nothing r (taken.mayBeEmpty nothing rfl)
      rw [Derivation.rule, may] at takes
      cases takes

end Fits

end FlowScript.Peg
