import FlowScript.Peg.Match

/-!
# What an expression matches

`Matches` says what an expression matches at a place without fuel and without the notes of failed attempts, one clause
for each way in which an operator may turn out. The run of `Grammar.run` is sound for it: whatever the run answers,
short of running out of fuel, is what the expression matches.
-/

namespace FlowScript.Peg
open FlowScript.Peg.Grammar (between)

variable {ρ : Type} {g : Grammar ρ}

/-- What comes of an expression at a place: the trees of the rules in the match and the place behind it, or nothing
    where the expression does not match. A rule called inside a token leaves no tree of its own. -/
inductive Matches (g : Grammar ρ) : Peg ρ → Texture → Cursor → Option (List (Derivation ρ) × Cursor) → Prop
  | text {chars x c c'} (comes : c.after? chars = some c') : Matches g (.text chars) x c (some ([], c'))
  | textFails {chars x c} (missing : c.after? chars = none) : Matches g (.text chars) x c none
  | char {test x d rest place} (passes : test d = true) :
    Matches g (.char test) x ⟨d :: rest, place⟩ (some ([], Cursor.next place d rest))
  | charFails {test x c} (stops : ∀ d rest, c.rest = d :: rest → test d = false) : Matches g (.char test) x c none
  | inputEnd {x c} (nothing : c.rest = []) : Matches g .inputEnd x c (some ([], c))
  | inputEndFails {x c} (something : c.rest ≠ []) : Matches g .inputEnd x c none
  | call {r x c trees c'} (visible : (g.kind r).atCall x ≠ .atomic)
    (body : Matches g (g.body r) ((g.kind r).inBody x) c (some (trees, c'))) :
    Matches g (.call r) x c (some ([.node r c c' trees], c'))
  | callInToken {r x c trees c'} (hidden : (g.kind r).atCall x = .atomic)
    (body : Matches g (g.body r) ((g.kind r).inBody x) c (some (trees, c'))) :
    Matches g (.call r) x c (some (trees, c'))
  | callFails {r x c} (body : Matches g (g.body r) ((g.kind r).inBody x) c none) : Matches g (.call r) x c none
  | seq {a b x c ts c' us c''} (first : Matches g a x c (some (ts, c')))
    (second : Matches g b x (between g x c') (some (us, c''))) : Matches g (.seq a b) x c (some (ts ++ us, c''))
  | seqFails {a b x c} (first : Matches g a x c none) : Matches g (.seq a b) x c none
  | seqFailsLater {a b x c ts c'} (first : Matches g a x c (some (ts, c')))
    (second : Matches g b x (between g x c') none) : Matches g (.seq a b) x c none
  | altFirst {a b x c ts c'} (first : Matches g a x c (some (ts, c'))) : Matches g (.alt a b) x c (some (ts, c'))
  | altSecond {a b x c o} (first : Matches g a x c none) (second : Matches g b x c o) : Matches g (.alt a b) x c o
  | opt {a x c ts c'} (body : Matches g a x c (some (ts, c'))) : Matches g (.opt a) x c (some (ts, c'))
  | optNone {a x c} (body : Matches g a x c none) : Matches g (.opt a) x c (some ([], c))
  | star {a x c ts c' us c''} (first : Matches g a x c (some (ts, c')))
    (rounds : Matches g (.more a) x c' (some (us, c''))) : Matches g (.star a) x c (some (ts ++ us, c''))
  | starNone {a x c} (first : Matches g a x c none) : Matches g (.star a) x c (some ([], c))
  | more {a x c ts c' us c''} (first : Matches g a x (between g x c) (some (ts, c')))
    (rounds : Matches g (.more a) x c' (some (us, c''))) : Matches g (.more a) x c (some (ts ++ us, c''))
  | moreNone {a x c} (first : Matches g a x (between g x c) none) : Matches g (.more a) x c (some ([], c))
  | ahead {a x c ts c'} (body : Matches g a x c (some (ts, c'))) : Matches g (.ahead a) x c (some ([], c))
  | aheadFails {a x c} (body : Matches g a x c none) : Matches g (.ahead a) x c none
  | notAhead {a x c} (body : Matches g a x c none) : Matches g (.notAhead a) x c (some ([], c))
  | notAheadFails {a x c ts c'} (body : Matches g a x c (some (ts, c'))) : Matches g (.notAhead a) x c none

namespace Matches

/-- Induction over the matches alone: what an operator tries in vain plays no part. -/
@[elab_as_elim]
theorem success {motive : ∀ e x c ts c', Matches g e x c (some (ts, c')) → Prop}
    (text : ∀ {chars x} {c c' : Cursor} (comes : c.after? chars = some c'),
      motive (.text chars) x c [] c' (.text comes))
    (char : ∀ {test : Char → Bool} {x d rest place} (passes : test d = true),
      motive (.char test) x ⟨d :: rest, place⟩ [] (Cursor.next place d rest) (.char passes))
    (inputEnd : ∀ {x} {c : Cursor} (nothing : c.rest = []), motive .inputEnd x c [] c (.inputEnd nothing))
    (call : ∀ {r x c ts c'} (visible : (g.kind r).atCall x ≠ .atomic)
      (body : Matches g (g.body r) ((g.kind r).inBody x) c (some (ts, c'))),
      motive _ _ _ _ _ body → motive _ _ _ _ _ (.call visible body))
    (callInToken : ∀ {r x c ts c'} (hidden : (g.kind r).atCall x = .atomic)
      (body : Matches g (g.body r) ((g.kind r).inBody x) c (some (ts, c'))),
      motive _ _ _ _ _ body → motive _ _ _ _ _ (.callInToken hidden body))
    (seq : ∀ {a b x c ts c' us c''} (first : Matches g a x c (some (ts, c')))
      (second : Matches g b x (between g x c') (some (us, c''))),
      motive _ _ _ _ _ first → motive _ _ _ _ _ second → motive _ _ _ _ _ (.seq first second))
    (altFirst : ∀ {a b x c ts c'} (first : Matches g a x c (some (ts, c'))),
      motive _ _ _ _ _ first → motive _ _ _ _ _ (.altFirst (b := b) first))
    (altSecond : ∀ {a b x c ts c'} (first : Matches g a x c none) (second : Matches g b x c (some (ts, c'))),
      motive _ _ _ _ _ second → motive _ _ _ _ _ (.altSecond first second))
    (opt : ∀ {a x c ts c'} (body : Matches g a x c (some (ts, c'))),
      motive _ _ _ _ _ body → motive _ _ _ _ _ (.opt body))
    (optNone : ∀ {a x c} (body : Matches g a x c none), motive _ _ _ _ _ (.optNone body))
    (star : ∀ {a x c ts c' us c''} (first : Matches g a x c (some (ts, c')))
      (rounds : Matches g (.more a) x c' (some (us, c''))),
      motive _ _ _ _ _ first → motive _ _ _ _ _ rounds → motive _ _ _ _ _ (.star first rounds))
    (starNone : ∀ {a x c} (first : Matches g a x c none), motive _ _ _ _ _ (.starNone first))
    (more : ∀ {a x c ts c' us c''} (first : Matches g a x (between g x c) (some (ts, c')))
      (rounds : Matches g (.more a) x c' (some (us, c''))),
      motive _ _ _ _ _ first → motive _ _ _ _ _ rounds → motive _ _ _ _ _ (.more first rounds))
    (moreNone : ∀ {a x c} (first : Matches g a x (between g x c) none), motive _ _ _ _ _ (.moreNone first))
    (ahead : ∀ {a x c ts c'} (body : Matches g a x c (some (ts, c'))),
      motive _ _ _ _ _ body → motive _ _ _ _ _ (.ahead body))
    (notAhead : ∀ {a x c} (body : Matches g a x c none), motive _ _ _ _ _ (.notAhead body))
    {e x c ts c'} (h : Matches g e x c (some (ts, c'))) : motive e x c ts c' h := by
  suffices all : ∀ {o} (h : Matches g e x c o) {ts c'} (same : o = some (ts, c')), motive e x c ts c' (same ▸ h) from
    all h rfl
  clear h
  intro o h
  induction h with
  | text comes => rintro _ _ ⟨⟩; exact text comes
  | char passes => rintro _ _ ⟨⟩; exact char passes
  | inputEnd nothing => rintro _ _ ⟨⟩; exact inputEnd nothing
  | call visible body ih => rintro _ _ ⟨⟩; exact call visible body (ih rfl)
  | callInToken hidden body ih => rintro _ _ ⟨⟩; exact callInToken hidden body (ih rfl)
  | seq first second ih₁ ih₂ => rintro _ _ ⟨⟩; exact seq first second (ih₁ rfl) (ih₂ rfl)
  | altFirst first ih => rintro _ _ ⟨⟩; exact altFirst first (ih rfl)
  | altSecond first second _ ih => rintro _ _ ⟨⟩; exact altSecond first second (ih rfl)
  | opt body ih => rintro _ _ ⟨⟩; exact opt body (ih rfl)
  | optNone body => rintro _ _ ⟨⟩; exact optNone body
  | star first rounds ih₁ ih₂ => rintro _ _ ⟨⟩; exact star first rounds (ih₁ rfl) (ih₂ rfl)
  | starNone first => rintro _ _ ⟨⟩; exact starNone first
  | more first rounds ih₁ ih₂ => rintro _ _ ⟨⟩; exact more first rounds (ih₁ rfl) (ih₂ rfl)
  | moreNone first => rintro _ _ ⟨⟩; exact moreNone first
  | ahead body ih => rintro _ _ ⟨⟩; exact ahead body (ih rfl)
  | notAhead body => rintro _ _ ⟨⟩; exact notAhead body
  | textFails | charFails | inputEndFails | callFails | seqFails | seqFailsLater | aheadFails | notAheadFails =>
    rintro _ _ ⟨⟩

/-- A repetition may stop before any round, so it never fails. -/
theorem not_more_none {a : Peg ρ} {x : Texture} {c : Cursor} : ¬Matches g (.more a) x c none :=
  nofun

end Matches

/-! ## Soundness of the run -/

namespace Grammar

/-- What an outcome says about an expression at a place. The trees count only where the match is not just looked at. -/
def Outcome.Tells (g : Grammar ρ) (e : Peg ρ) (x : Texture) (look : Lookahead) (c : Cursor) : Outcome ρ → Prop
  | .exhausted => True
  | .failed _ => Matches g e x c none
  | .matched ts c' _ => ∃ us, Matches g e x c (some (us, c')) ∧ (look = .none → us = ts)

/-- What a call makes of the outcome of the rule's body tells of the call. -/
theorem tells_close {r : ρ} {x : Texture} {look : Lookahead} {c : Cursor} {before : Nat × Nat} {o : Outcome ρ}
    (body : Outcome.Tells g (g.body r) ((g.kind r).inBody x) look c o) :
    Outcome.Tells g (.call r) x look c (close r ((g.kind r).atCall x) look c before o) := by
  cases o with
  | exhausted => trivial
  | failed t => exact .callFails body
  | matched ts c' t =>
    obtain ⟨us, matched, exact_⟩ := body
    by_cases hidden : (g.kind r).atCall x = .atomic
    · refine ⟨us, .callInToken hidden matched, fun plain => ?_⟩
      simp [hidden, exact_ plain]
    · refine ⟨_, .call hidden matched, fun plain => ?_⟩
      simp [hidden, plain, exact_ plain]

/-- The run is sound: an answer is what the expression matches. -/
theorem tells_run (fuel : Nat) (e : Peg ρ) (x : Texture) (look : Lookahead) (c : Cursor) (t : Attempts ρ) :
    Outcome.Tells g e x look c (g.run fuel e x look c t) := by
  induction fuel generalizing e x look c t with
  | zero => trivial
  | succ fuel ih =>
    cases e with
    | text chars =>
      simp only [run]
      split
      · rename_i c' comes
        exact ⟨[], .text comes, fun _ => rfl⟩
      · rename_i missing
        exact .textFails missing
    | char test =>
      simp only [run]
      split
      · rename_i d rest place
        split
        · rename_i passes
          exact ⟨[], .char passes, fun _ => rfl⟩
        · rename_i stops
          exact .charFails (by rintro d' rest' ⟨⟩; simpa using stops)
      · exact .charFails (by rintro d' rest' ⟨⟩)
    | inputEnd =>
      simp only [run]
      split
      · rename_i nothing
        exact ⟨[], .inputEnd (by simpa using nothing), fun _ => rfl⟩
      · rename_i something
        exact .inputEndFails (by simpa using something)
    | call r => exact tells_close (ih _ _ _ _ _)
    | seq a b =>
      have first := ih a x look c t
      simp only [run]
      generalize g.run fuel a x look c t = o at first ⊢
      cases o with
      | exhausted => trivial
      | failed t' => exact .seqFails first
      | matched ts c' t' =>
        obtain ⟨us, matched, same⟩ := first
        have second := ih b x look (between g x c') t'
        simp only
        generalize g.run fuel b x look (between g x c') t' = o at second ⊢
        cases o with
        | exhausted => trivial
        | failed t'' => exact .seqFailsLater matched second
        | matched ts' c'' t'' =>
          obtain ⟨us', matched', same'⟩ := second
          exact ⟨us ++ us', .seq matched matched', fun plain => by rw [same plain, same' plain]⟩
    | alt a b =>
      have first := ih a x look c t
      simp only [run]
      generalize g.run fuel a x look c t = o at first ⊢
      cases o with
      | exhausted => trivial
      | matched ts c' t' =>
        obtain ⟨us, matched, same⟩ := first
        exact ⟨us, .altFirst matched, same⟩
      | failed t' =>
        have second := ih b x look c t'
        simp only
        generalize g.run fuel b x look c t' = o at second ⊢
        cases o with
        | exhausted => trivial
        | failed t'' => exact .altSecond first second
        | matched ts c' t'' =>
          obtain ⟨us, matched, same⟩ := second
          exact ⟨us, .altSecond first matched, same⟩
    | opt a =>
      have body := ih a x look c t
      simp only [run]
      generalize g.run fuel a x look c t = o at body ⊢
      cases o with
      | exhausted => trivial
      | failed t' => exact ⟨[], .optNone body, fun _ => rfl⟩
      | matched ts c' t' =>
        obtain ⟨us, matched, same⟩ := body
        exact ⟨us, .opt matched, same⟩
    | star a =>
      have first := ih a x look c t
      simp only [run]
      generalize g.run fuel a x look c t = o at first ⊢
      cases o with
      | exhausted => trivial
      | failed t' => exact ⟨[], .starNone first, fun _ => rfl⟩
      | matched ts c' t' =>
        obtain ⟨us, matched, same⟩ := first
        have rounds := ih (.more a) x look c' t'
        simp only
        generalize g.run fuel (.more a) x look c' t' = o at rounds ⊢
        cases o with
        | exhausted => trivial
        | failed t'' => exact absurd rounds Matches.not_more_none
        | matched ts' c'' t'' =>
          obtain ⟨us', matched', same'⟩ := rounds
          exact ⟨us ++ us', .star matched matched', fun plain => by rw [same plain, same' plain]⟩
    | more a =>
      have first := ih a x look (between g x c) t
      simp only [run]
      generalize g.run fuel a x look (between g x c) t = o at first ⊢
      cases o with
      | exhausted => trivial
      | failed t' => exact ⟨[], .moreNone first, fun _ => rfl⟩
      | matched ts c' t' =>
        obtain ⟨us, matched, same⟩ := first
        have rounds := ih (.more a) x look c' t'
        simp only
        generalize g.run fuel (.more a) x look c' t' = o at rounds ⊢
        cases o with
        | exhausted => trivial
        | failed t'' => exact absurd rounds Matches.not_more_none
        | matched ts' c'' t'' =>
          obtain ⟨us', matched', same'⟩ := rounds
          exact ⟨us ++ us', .more matched matched', fun plain => by rw [same plain, same' plain]⟩
    | ahead a =>
      have body := ih a x look.inAhead c t
      simp only [run]
      generalize g.run fuel a x look.inAhead c t = o at body ⊢
      cases o with
      | exhausted => trivial
      | failed t' => exact .aheadFails body
      | matched ts c' t' =>
        obtain ⟨us, matched, -⟩ := body
        exact ⟨[], .ahead matched, fun _ => rfl⟩
    | notAhead a =>
      have body := ih a x look.inNotAhead c t
      simp only [run]
      generalize g.run fuel a x look.inNotAhead c t = o at body ⊢
      cases o with
      | exhausted => trivial
      | failed t' => exact ⟨[], .notAhead body, fun _ => rfl⟩
      | matched ts c' t' =>
        obtain ⟨us, matched, -⟩ := body
        exact .notAheadFails matched

/-- A tree that the parse answers with stands for a match of the rule. -/
theorem matches_of_parse {fuelPerChar : Nat} {rule : ρ} {input : List Char} {tree : Derivation ρ}
    (parsed : g.parse fuelPerChar rule input = .ok tree) :
    ∃ c', Matches g (.call rule) .loose (Cursor.start input) (some ([tree], c')) := by
  have told := tells_run (g := g) ((input.length + 1) * fuelPerChar) (.call rule) .loose .none (Cursor.start input) .empty
  unfold parse at parsed
  split at parsed
  · rename_i t c' attempts ran
    cases parsed
    rw [ran] at told
    obtain ⟨us, matched, same⟩ := told
    exact ⟨c', same rfl ▸ matched⟩
  all_goals cases parsed

end Grammar
end FlowScript.Peg
