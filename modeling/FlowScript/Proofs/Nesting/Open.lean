import FlowScript.Proofs.Nesting.Tokens
import FlowScript.Proofs.Nesting.Weight
import FlowScript.Proofs.Peg.Course

/-!
# What is open at a place

Between two places of a source the tokens are read one after the other, with what follows them in view (`Stretch`). Where
a stretch closes no bracket that was open before it, all that was open stays open: what is kept outside each bracket, and
the bracketless nesting that the stretch begins in, until a word ends it (`Stands.after`). So the weight is no less
further inside (`Inside`).
-/

namespace FlowScript.Nesting
open FlowScript.Peg (Cursor)

/-! ## Stretches -/

namespace Token

/-- Reading from one place to another, with the tokens that begin on the way. -/
inductive Stretch : Cursor → Place → List Token → Cursor → Place → Prop
  | refl (c : Cursor) (p : Place) : Stretch c p [] c p
  | char {d : Char} {r : List Char} {n : Position} {p p' : Place} {ts : List Token} {c' : Cursor}
    (rest : Stretch (Cursor.next n d r) (read p d r).2 ts c' p') :
    Stretch ⟨d :: r, n⟩ p (((read p d r).1.map (beginningAt n.offset)).toList ++ ts) c' p'

theorem offset_next (n : Position) (d : Char) (r : List Char) : (Cursor.next n d r).offset = n.offset + d.utf8Size := by
  simp only [Cursor.next, Cursor.offset, Position.next]
  split <;> rfl

theorem le_start_of_mem_scan {place : Place} {cs : List Char} {n : Nat} {t : Token} (mem : t ∈ scan place cs n) :
    n ≤ t.start := by
  obtain ⟨before, part, rest, -, -, start, -⟩ := standsIn_of_mem_scan mem
  omega

namespace Stretch

variable {c c' c'' : Cursor} {p p' p'' : Place} {ts us : List Token}

protected theorem append (h : Stretch c p ts c' p') (h' : Stretch c' p' us c'' p'') :
    Stretch c p (ts ++ us) c'' p'' := by
  induction h with
  | refl => exact h'
  | char _ ih =>
    rw [List.append_assoc]
    exact .char (ih h')

/-- The tokens of a source go on behind a stretch of it. -/
theorem scan_eq (h : Stretch c p ts c' p') : scan p c.rest c.offset = ts ++ scan p' c'.rest c'.offset := by
  induction h with
  | refl => rfl
  | char _ ih =>
    rw [scan_cons, List.append_assoc, ← ih, offset_next]
    rfl

theorem offset_le (h : Stretch c p ts c' p') : c.offset ≤ c'.offset := by
  induction h with
  | refl => exact Nat.le_refl _
  | @char d r n _ _ _ _ _ ih =>
    rw [offset_next] at ih
    exact Nat.le_trans (Nat.le_add_right _ _) ih

/-- The tokens of a stretch begin in it. -/
theorem starts (h : Stretch c p ts c' p') : ∀ t ∈ ts, c.offset ≤ t.start ∧ t.start < c'.offset := by
  induction h with
  | refl => nofun
  | @char d r n p _ _ _ rest ih =>
    have size := d.utf8Size_pos
    have further := rest.offset_le
    rw [offset_next] at ih further
    have here : (⟨d :: r, n⟩ : Cursor).offset = n.offset := rfl
    rw [here]
    intro t mem
    rcases List.mem_append.1 mem with first | later
    · obtain ⟨begun, -, rfl⟩ := Option.map_eq_some_iff.1 (Option.mem_toList.1 first)
      have start : (beginningAt n.offset begun).start = n.offset := rfl
      omega
    · have := ih t later
      omega

/-- A stretch can be cut before any of its tokens. -/
theorem cut {a b : List Token} {t : Token} (h : Stretch c p ts c' p') (here : ts = a ++ t :: b) :
    ∃ d q, Stretch c p a d q ∧ d.offset = t.start := by
  induction h generalizing a with
  | refl => simp at here
  | @char d r n p _ us _ rest ih =>
    cases begun : (read p d r).1 with
    | none =>
      have same : us = a ++ t :: b := by simpa [begun] using here
      obtain ⟨e, q, before, starts⟩ := ih same
      refine ⟨e, q, ?_, starts⟩
      simpa [begun] using Stretch.char (d := d) (r := r) (n := n) (p := p) before
    | some token =>
      cases a with
      | nil =>
        have first : beginningAt n.offset token = t := by
          have := here
          simp only [begun, Option.map_some, Option.toList_some, List.cons_append, List.nil_append,
            List.cons.injEq] at this
          exact this.1
        exact ⟨_, _, .refl _ _, first ▸ rfl⟩
      | cons u a =>
        have both := here
        simp only [begun, Option.map_some, Option.toList_some, List.cons_append, List.nil_append,
          List.cons.injEq] at both
        obtain ⟨rfl, same⟩ := both
        obtain ⟨e, q, before, starts⟩ := ih same
        refine ⟨e, q, ?_, starts⟩
        simpa [begun] using Stretch.char (d := d) (r := r) (n := n) (p := p) before

end Stretch
end Token

/-! ## Brackets that are opened and closed -/

/-- How many brackets are open after one more token, of those opened since some point; nothing if an older one is
    closed. -/
def TokenKind.climb : TokenKind → Nat → Option Nat
  | .opening, d => some (d + 1)
  | .closing _, 0 => none
  | .closing _, d + 1 => some d
  | _, d => some d

theorem TokenKind.climb_of_raises {kind : TokenKind} (raises : kind.raises = true) (noBracket : kind ≠ .opening) (d : Nat) :
    kind.climb d = some d := by
  cases kind <;> simp_all [TokenKind.raises, climb]

/-- How many brackets are open after some tokens, of those opened since some point. -/
def climb : Nat → List Token → Option Nat
  | d, [] => some d
  | d, t :: ts => (t.kind.climb d).bind fun d => climb d ts

theorem climb_append (d : Nat) (ts us : List Token) : climb d (ts ++ us) = (climb d ts).bind fun d => climb d us := by
  induction ts generalizing d with
  | nil => rfl
  | cons t ts ih =>
    rw [List.cons_append, climb, climb]
    cases t.kind.climb d with
    | none => rfl
    | some e => exact ih e

theorem climb_of_append {d e f : Nat} {ts us : List Token} (first : climb d ts = some e) (second : climb e us = some f) :
    climb d (ts ++ us) = some f := by
  rw [climb_append, first]
  exact second

/-- Tokens that close no older bracket close none of further brackets around them. -/
theorem climb_add {d e : Nat} {ts : List Token} (h : climb d ts = some e) (m : Nat) :
    climb (d + m) ts = some (e + m) := by
  induction ts generalizing d with
  | nil =>
    cases h
    rfl
  | cons t ts ih =>
    rw [climb] at h ⊢
    obtain ⟨f, first, rest⟩ := Option.bind_eq_some_iff.1 h
    have lifted : t.kind.climb (d + m) = some (f + m) := by
      cases kind : t.kind <;> rw [kind] at first
      case closing =>
        cases d with
        | zero => cases first
        | succ d =>
          cases first
          rw [Nat.succ_add]
          rfl
      case opening =>
        cases first
        rw [TokenKind.climb, Nat.succ_add]
      all_goals
        cases first
        rfl
    rw [lifted]
    exact ih rest

/-! ## States -/

namespace State

theorem after_append (s : State) (ts us : List Token) : s.after (ts ++ us) = (s.after ts).after us := by
  simp only [after, afterKinds, List.map_append, List.foldl_append]

/-- What levels around a bracket add to the weight. -/
def around (levels : List Nat) : Nat := levels.length + levels.foldr (· + ·) 0

theorem around_lt_append (above base : List Nat) (ground : Nat) : around base + ground < around (above ++ ground :: base) := by
  induction above with
  | nil =>
    simp only [around, List.nil_append, List.length_cons, List.foldr_cons]
    omega
  | cons first above ih =>
    simp only [around, List.cons_append, List.length_cons, List.foldr_cons] at ih ⊢
    omega

/-- What is open around the innermost bracket. -/
def outside (s : State) : Nat := around s.levels

theorem weight_eq (s : State) : s.weight = s.outside + s.chain := rfl

/-- Whether a token ends the bracketless nesting inside the innermost bracket, and there is some. -/
def ends (s : State) : TokenKind → Bool
  | .word chars => endsBefore s.boundary chars && s.chain != 0
  | _ => false

/-- The state is `d` brackets inside a level around which stands `base`, and whose bracketless nesting is `ground`. -/
def Stands (s : State) (base : List Nat) (ground d : Nat) : Prop :=
  ∃ above, s.chain :: s.levels = above ++ ground :: base ∧ above.length = d

namespace Stands

variable {s : State} {base : List Nat} {ground d e : Nat}

theorem self (s : State) : s.Stands s.levels s.chain 0 := ⟨[], rfl, rfl⟩

theorem length_levels (h : s.Stands base ground d) : s.levels.length = base.length + d := by
  obtain ⟨above, stack, length⟩ := h
  have := congrArg List.length stack
  simp only [List.length_cons, List.length_append] at this
  omega

theorem chain_eq (h : s.Stands base ground 0) : s.chain = ground ∧ s.levels = base := by
  obtain ⟨above, stack, length⟩ := h
  rw [List.length_eq_zero_iff.1 length, List.nil_append] at stack
  exact List.cons.inj stack

/-- What stands around a level is around all that stands inside it. -/
theorem around_lt_outside (h : s.Stands base ground (d + 1)) : around base + ground < s.outside := by
  obtain ⟨above, stack, length⟩ := h
  cases above with
  | nil => cases length
  | cons first above =>
    obtain ⟨-, levels⟩ := List.cons.inj (stack.trans (List.cons_append ..))
    rw [outside, levels]
    exact around_lt_append above base ground

/-- A level in which brackets are open stays as it is while they are. -/
theorem keep (h : s.Stands base ground (d + 1)) {s' : State} (levels : s'.levels = s.levels) :
    s'.Stands base ground (d + 1) := by
  obtain ⟨above, stack, length⟩ := h
  cases above with
  | nil => cases length
  | cons first above =>
    obtain ⟨-, kept⟩ := List.cons.inj (stack.trans (List.cons_append ..))
    exact ⟨s'.chain :: above, by rw [List.cons_append, levels, kept], length⟩

/-- The innermost level has the nesting of the state. -/
theorem here (h : s.Stands base ground 0) {s' : State} (levels : s'.levels = s.levels) : s'.Stands base s'.chain 0 :=
  ⟨[], by rw [List.nil_append, levels, h.chain_eq.2], rfl⟩

theorem opening (h : s.Stands base ground d) : (s.step .opening).Stands base ground (d + 1) := by
  obtain ⟨above, stack, length⟩ := h
  exact ⟨0 :: above, congrArg (0 :: ·) stack, congrArg (· + 1) length⟩

theorem closing (h : s.Stands base ground (d + 1)) (brace : Bool) : (s.step (.closing brace)).Stands base ground d := by
  obtain ⟨above, stack, length⟩ := h
  cases above with
  | nil => cases length
  | cons first above =>
    obtain ⟨-, levels⟩ := List.cons.inj (stack.trans (List.cons_append ..))
    refine ⟨above, ?_, Nat.succ.inj length⟩
    rw [← levels, State.step]
    cases outer : s.levels with
    | nil => simp [outer] at levels
    | cons first rest => rfl

/-- One token: the level's nesting is ended by a word only, and grows with a token that raises the weight without a
    bracket. -/
theorem step (h : s.Stands base ground d) {kind : TokenKind} (climbs : kind.climb d = some e) :
    ∃ ground', (s.step kind).Stands base ground' e ∧
      (¬ (d = 0 ∧ s.ends kind = true) → ground ≤ ground') ∧
      (d = 0 → kind.raises = true → kind ≠ .opening → 0 < ground' ∧ (s.ends kind = false → ground < ground')) := by
  cases kind with
  | opening =>
    cases climbs
    exact ⟨ground, h.opening, fun _ => Nat.le_refl _, fun _ _ other => absurd rfl other⟩
  | closing brace =>
    cases d with
    | zero => cases climbs
    | succ d =>
      cases climbs
      exact ⟨ground, h.closing brace, fun _ => Nat.le_refl _, fun bare => absurd bare (Nat.succ_ne_zero _)⟩
  | semicolon | lineBreak | other =>
    cases climbs
    exact ⟨ground, h, fun _ => Nat.le_refl _, fun _ raises => absurd raises Bool.false_ne_true⟩
  | question | arrow =>
    cases climbs
    cases d with
    | zero =>
      obtain ⟨rfl, -⟩ := h.chain_eq
      refine ⟨s.chain + 1, h.here rfl, fun _ => Nat.le_succ _, fun _ _ _ => ?_⟩
      exact ⟨Nat.succ_pos _, fun _ => Nat.lt_succ_self _⟩
    | succ d => exact ⟨ground, h.keep rfl, fun _ => Nat.le_refl _, fun bare => absurd bare (Nat.succ_ne_zero _)⟩
  | word chars =>
    cases climbs
    cases d with
    | zero =>
      obtain ⟨rfl, -⟩ := h.chain_eq
      refine ⟨(s.step (.word chars)).chain, h.here rfl, fun goesOn => ?_, fun _ counts _ => ?_⟩
      all_goals simp only [State.step, ends, TokenKind.raises] at *
      · split <;> split <;> simp_all
      · rw [if_pos counts]
        refine ⟨Nat.succ_pos _, fun goesOn => ?_⟩
        split <;> simp_all
    | succ d => exact ⟨ground, h.keep rfl, fun _ => Nat.le_refl _, fun bare => absurd bare (Nat.succ_ne_zero _)⟩

/-- Some tokens: the level's nesting is no less behind them, unless a word of that level ends it. -/
theorem after (h : s.Stands base ground d) {ts : List Token} (climbs : climb d ts = some e) :
    ∃ ground', (s.after ts).Stands base ground' e ∧
      ((∀ a t b, ts = a ++ t :: b → climb d a = some 0 → (s.after a).ends t.kind = false) → ground ≤ ground') := by
  induction ts generalizing s ground d with
  | nil =>
    cases climbs
    exact ⟨ground, h, fun _ => Nat.le_refl _⟩
  | cons t ts ih =>
    obtain ⟨f, first, rest⟩ := Option.bind_eq_some_iff.1 climbs
    obtain ⟨middle, stands, kept, -⟩ := h.step first
    obtain ⟨ground', behind, keptLater⟩ := ih stands rest
    refine ⟨ground', behind, fun unbroken => Nat.le_trans (kept ?_) (keptLater fun a u b here level => ?_)⟩
    · rintro ⟨rfl, ended⟩
      exact Bool.false_ne_true ((unbroken [] t ts rfl rfl).symm.trans ended)
    · refine unbroken (t :: a) u b (by rw [here]; rfl) ?_
      rw [climb, first]
      exact level

end Stands
end State

/-! ## Places in a source -/

/-- What is open before the tokens that begin at an offset or behind it. -/
def stateAt (source : List Char) (n : Nat) : State :=
  State.start.after ((tokens source).takeWhile fun t => decide (t.start < n))

/-- No word that begins from `start` on and before `stop` ends the bracketless nesting that `home` stands in. -/
def Unbroken (source : List Char) (home start stop : Nat) : Prop :=
  ∀ t ∈ tokens source, start ≤ t.start → t.start < stop →
    (stateAt source t.start).levels.length = (stateAt source home).levels.length →
      (stateAt source t.start).ends t.kind = false

instance Unbroken.decidable (source : List Char) (home start stop : Nat) : Decidable (Unbroken source home start stop) :=
  inferInstanceAs (Decidable (∀ t ∈ tokens source, _))

theorem Unbroken.within {source : List Char} {home start stop start' stop' : Nat}
    (h : Unbroken source home start stop) (starts : start ≤ start') (stops : stop' ≤ stop) :
    Unbroken source home start' stop' :=
  fun t mem from_ to_ => h t mem (Nat.le_trans starts from_) (Nat.lt_of_lt_of_le to_ stops)

/-- No point of a source that is not refused has more weight than the limit. -/
theorem weight_stateAt_le {source : List Char} (accepted : tooDeep? source = none) (n : Nat) :
    (stateAt source n).weight ≤ limit := by
  have within := tooDeepFrom_eq_none_iff.1 accepted
  rw [← List.takeWhile_append_dropWhile (p := fun t => decide (t.start < n)) (l := tokens source),
    List.map_append, State.within_append] at within
  exact within.1.weight_le (Nat.zero_le _)

/-- The pass over a source comes to a place. -/
def Reaches (source : List Char) (c : Cursor) (p : Token.Place) (ts : List Token) : Prop :=
  Token.Stretch (Cursor.start source) .code ts c p

namespace Reaches

variable {source : List Char} {c c' : Cursor} {p p' : Token.Place} {ts us : List Token}

theorem tokens_eq (h : Reaches source c p ts) : tokens source = ts ++ Token.scan p c.rest c.offset := h.scan_eq

theorem stateAt_eq (h : Reaches source c p ts) : stateAt source c.offset = State.start.after ts := by
  have before : ∀ t ∈ ts, decide (t.start < c.offset) = true := fun t mem => decide_eq_true (h.starts t mem).2
  have behind : (Token.scan p c.rest c.offset).takeWhile (fun t => decide (t.start < c.offset)) = [] := by
    cases next : Token.scan p c.rest c.offset with
    | nil => rfl
    | cons t rest =>
      have := Token.le_start_of_mem_scan (next ▸ List.mem_cons_self .. : t ∈ Token.scan p c.rest c.offset)
      rw [List.takeWhile_cons, if_neg]
      simpa using this
  rw [stateAt, h.tokens_eq, List.takeWhile_append_of_pos before, behind, List.append_nil]

theorem stateAt_behind (h : Reaches source c p ts) (stretch : Token.Stretch c p us c' p') :
    stateAt source c'.offset = (stateAt source c.offset).after us := by
  have reached : Reaches source c' p' (ts ++ us) := Token.Stretch.append h stretch
  rw [h.stateAt_eq, reached.stateAt_eq, State.after_append]

/-- In a stretch that is not broken, no word of the level that it begins on ends anything. -/
theorem unbroken (h : Reaches source c p ts) (stretch : Token.Stretch c p us c' p') {from_ : Nat}
    (whole : Unbroken source c.offset from_ c'.offset) {a b : List Token} {t : Token} (here : us = a ++ t :: b)
    (level : climb 0 a = some 0) (late : from_ ≤ t.start) : ((stateAt source c.offset).after a).ends t.kind = false := by
  obtain ⟨d, q, before, starts⟩ := stretch.cut here
  have state : stateAt source t.start = (stateAt source c.offset).after a := starts ▸ h.stateAt_behind before
  have mem : t ∈ us := by simp [here]
  have listed : t ∈ tokens source := by
    rw [h.tokens_eq, stretch.scan_eq]
    exact List.mem_append_right _ (List.mem_append_left _ mem)
  obtain ⟨ground, stands, -⟩ := (State.Stands.self (stateAt source c.offset)).after level
  rw [← state] at stands ⊢
  exact whole t listed late (stretch.starts t mem).2 stands.length_levels

end Reaches

/-! ## Further inside -/

/-- A place on the level of an earlier one. -/
structure OnLevel (source : List Char) (n m : Nat) : Prop where
  depth : (stateAt source m).levels.length = (stateAt source n).levels.length
  outside : (stateAt source m).outside = (stateAt source n).outside
  kept : Unbroken source n n m → (stateAt source n).weight ≤ (stateAt source m).weight

/-- A place behind a sign on the level of an earlier one, which adds to the bracketless nesting there. -/
structure Chained (source : List Char) (n m : Nat) : Prop extends OnLevel source n m where
  later : n < m
  counts : Unbroken source n (n + 1) m → (stateAt source n).outside < (stateAt source m).weight
  adds : Unbroken source n n m → (stateAt source n).weight < (stateAt source m).weight

/-- A place behind a bracket that is opened after an earlier place and still open. -/
structure Deeper (source : List Char) (n m : Nat) : Prop where
  outside : (stateAt source n).outside < (stateAt source m).outside
  kept : Unbroken source n n m → (stateAt source n).weight < (stateAt source m).outside

namespace Reaches

variable {source : List Char} {c c' : Cursor} {p p' : Token.Place} {ts us : List Token}

theorem onLevel (h : Reaches source c p ts) (stretch : Token.Stretch c p us c' p') (climbs : climb 0 us = some 0) :
    OnLevel source c.offset c'.offset := by
  obtain ⟨ground, stands, kept⟩ := (State.Stands.self (stateAt source c.offset)).after climbs
  rw [← h.stateAt_behind stretch] at stands
  obtain ⟨chain, levels⟩ := stands.chain_eq
  refine ⟨by rw [levels], by rw [State.outside, State.outside, levels], fun whole => ?_⟩
  have := kept fun a t b here level =>
    h.unbroken stretch whole here level (stretch.starts t (by simp [here])).1
  rw [State.weight_eq, State.weight_eq, State.outside, State.outside, levels, chain]
  omega

theorem deeper (h : Reaches source c p ts) (stretch : Token.Stretch c p us c' p') {d : Nat}
    (climbs : climb 0 us = some (d + 1)) : Deeper source c.offset c'.offset := by
  obtain ⟨ground, stands, kept⟩ := (State.Stands.self (stateAt source c.offset)).after climbs
  rw [← h.stateAt_behind stretch] at stands
  have inside := stands.around_lt_outside
  refine ⟨?_, fun whole => ?_⟩
  · rw [State.outside]
    omega
  · have := kept fun a t b here level =>
      h.unbroken stretch whole here level (stretch.starts t (by simp [here])).1
    rw [State.weight_eq, State.outside]
    omega

/-- A token that raises the weight without a bracket adds to the nesting of its level. -/
theorem chained (h : Reaches source c p ts) (stretch : Token.Stretch c p us c' p') {a b : List Token} {t : Token}
    (here : us = a ++ t :: b) (before : climb 0 a = some 0) (raises : t.kind.raises = true)
    (noBracket : t.kind ≠ .opening) (behind : climb 0 b = some 0) : Chained source c.offset c'.offset := by
  have stays := TokenKind.climb_of_raises raises noBracket 0
  have climbs : climb 0 us = some 0 := by
    rw [here]
    refine climb_of_append before ?_
    rw [climb, stays]
    exact behind
  obtain ⟨first, stands, keptFirst⟩ := (State.Stands.self (stateAt source c.offset)).after before
  obtain ⟨raised, stands, -, grows⟩ := stands.step stays
  obtain ⟨last, stands, keptLast⟩ := stands.after behind
  obtain ⟨more, strictly⟩ := grows rfl raises noBracket
  have state : stateAt source c'.offset = (((stateAt source c.offset).after a).step t.kind).after b := by
    rw [h.stateAt_behind stretch, here, State.after_append]
    rfl
  rw [← state] at stands
  obtain ⟨chain, levels⟩ := stands.chain_eq
  have ahead : Unbroken source c.offset (c.offset + 1) c'.offset → raised ≤ last := by
    refine fun whole => keptLast fun a' u b' rest level => ?_
    have split : us = (a ++ t :: a') ++ u :: b' := by rw [here, rest]; simp
    obtain ⟨d, q, stretch', starts⟩ := stretch.cut split
    have earlier := stretch'.starts t (by simp)
    have bound := h.unbroken stretch whole split ?_ (by omega)
    · rwa [State.after_append] at bound
    · refine climb_of_append before ?_
      rw [climb, stays]
      exact level
  have inside := stretch.starts t (by simp [here])
  refine ⟨h.onLevel stretch climbs, by omega, fun whole => ?_, fun whole => ?_⟩
  · have := ahead whole
    rw [State.weight_eq, State.outside, State.outside, levels, chain]
    omega
  · have := ahead (whole.within (Nat.le_succ _) (Nat.le_refl _))
    have := keptFirst fun a' u b' rest level =>
      have split : us = a' ++ u :: (b' ++ t :: b) := by rw [here, rest]; simp
      h.unbroken stretch whole split level (stretch.starts u (by simp [split])).1
    have := strictly (h.unbroken stretch whole here before (stretch.starts t (by simp [here])).1)
    rw [State.weight_eq, State.weight_eq, State.outside, State.outside, levels, chain]
    omega

/-- So does such a token that begins where a stretch does. -/
theorem chained_of_first (h : Reaches source c p ts) (stretch : Token.Stretch c p us c' p') (climbs : climb 0 us = some 0)
    (later : c.offset < c'.offset) {t : Token} (mem : t ∈ tokens source) (starts : t.start = c.offset)
    (raises : t.kind.raises = true) (noBracket : t.kind ≠ .opening) : Chained source c.offset c'.offset := by
  have among : t ∈ us := by
    rw [h.tokens_eq, stretch.scan_eq] at mem
    rcases List.mem_append.1 mem with before | mem
    · have := h.starts t before
      omega
    rcases List.mem_append.1 mem with here | behind
    · exact here
    · have := Token.le_start_of_mem_scan behind
      omega
  obtain ⟨a, b, here⟩ := List.append_of_mem among
  obtain ⟨d, q, before, ends⟩ := stretch.cut here
  obtain rfl : a = [] := by
    refine List.eq_nil_iff_forall_not_mem.2 fun u inside => ?_
    have := before.starts u inside
    omega
  refine h.chained stretch here rfl raises noBracket ?_
  have stays := TokenKind.climb_of_raises raises noBracket 0
  rwa [here, List.nil_append, climb, stays] at climbs

end Reaches
end FlowScript.Nesting
