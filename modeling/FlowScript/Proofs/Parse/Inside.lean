import FlowScript.Proofs.Grammar.Script
import FlowScript.Proofs.Parse.Role

/-!
# The parts inside a match

The parts inside a match of a rule are sound, and their rules, one after the other, are a word of the rule's body
(`Inside`). So a part that the body cannot do without is found, a reader made for all rules that the body calls reads
every part, and the parts fall into those of the body's own parts.
-/

namespace FlowScript.Parse
open FlowScript.Grammar (Rule)

/-- Sound parts that follow each other as an expression says. -/
structure Inside (e : Grammar.Body) (parts : List Part) : Prop where
  sound : ∀ p ∈ parts, p.Sound
  word : parts.map (·.rule) ∈ e.words

namespace Inside

variable {e : Grammar.Body} {parts : List Part} {site : Site}

theorem called (h : Inside e parts) {p : Part} (mem : p ∈ parts) : p.rule ∈ e.calls :=
  Peg.mem_calls_of_mem_words h.word (List.mem_map_of_mem mem)

/-- A part of a kind that the body cannot do without. -/
theorem exists_of_needs (h : Inside e parts) {P : Rule → Bool} (need : e.needs P = true) :
    ∃ p ∈ parts, P p.rule = true := by
  obtain ⟨r, mem, yes⟩ := Peg.exists_of_needs h.word need
  obtain ⟨p, inside, rfl⟩ := List.mem_map.1 mem
  exact ⟨p, inside, yes⟩

theorem the (h : Inside e parts) {r : Rule} (need : e.needs (· = r) = true) :
    Gives (the site parts r) fun p => p.Sound ∧ p.rule = r := by
  unfold Parse.the
  cases found : parts.find? (·.rule = r) with
  | some p => exact .ok ⟨h.sound p (List.mem_of_find?_eq_some found), by simpa using List.find?_some found⟩
  | none =>
    obtain ⟨p, mem, yes⟩ := h.exists_of_needs need
    exact absurd yes (List.find?_eq_none.1 found p mem)

/-- The part that the body cannot do without is read, and what is read goes into the rest. -/
theorem read {α β : Type} (h : Inside e parts) {r : Rule} {read : Part → Assembled α} {next : α → Assembled β}
    {Q : β → Prop} (need : e.needs (· = r) = true) (reads : ∀ p : Part, p.Sound → p.rule = r → Succeeds (read p))
    (rest : ∀ a, Gives (next a) Q) : Gives (Parse.the site parts r >>= fun p => read p >>= next) Q := by
  refine .bind (h.the need) fun p ⟨sound, is⟩ => ?_
  exact .bind (reads p sound is) fun a _ => rest a

/-- A rule that the body does not call has no part. -/
theorem find?_eq_none (h : Inside e parts) {r : Rule} (never : r ∉ e.calls) : parts.find? (·.rule = r) = none := by
  rw [List.find?_eq_none]
  intro p mem is
  have called := h.called mem
  rw [of_decide_eq_true is] at called
  exact never called

theorem optional {α : Type} (h : Inside e parts) {r : Rule} {read : Part → Assembled α}
    (reads : ∀ p : Part, p.Sound → p.rule = r → Succeeds (read p)) : Succeeds (optional parts r read) := by
  unfold Parse.optional
  cases found : parts.find? (·.rule = r) with
  | some p =>
    have is : p.rule = r := by simpa using List.find?_some found
    exact (reads p (h.sound p (List.mem_of_find?_eq_some found)) is).map fun _ _ => trivial
  | none => exact .ok trivial

theorem first (h : Inside e parts) (need : e.needs (fun _ => true) = true) :
    Gives (first site parts) fun p => p.Sound ∧ p.rule ∈ e.calls := by
  obtain ⟨p, mem, -⟩ := h.exists_of_needs need
  cases parts with
  | nil => cases mem
  | cons q qs => exact .ok ⟨h.sound q (List.mem_cons_self ..), h.called (List.mem_cons_self ..)⟩

theorem target (h : Inside e parts) (need : e.needs isTarget = true) : Succeeds (target site parts) := by
  unfold Parse.target
  cases found : parts.find? (·.isTarget) with
  | some p =>
    have sound := h.sound p (List.mem_of_find?_eq_some found)
    exact sound.toPattern_of_isTarget (List.find?_some (p := Part.isTarget) found)
  | none =>
    obtain ⟨p, mem, yes⟩ := h.exists_of_needs need
    exact absurd yes (List.find?_eq_none.1 found p mem)

theorem initial (h : Inside e parts) : Succeeds (initial parts) :=
  h.optional fun _ sound is => sound.toExpr is rfl

/-- Every part is read, when the reader is made for all rules that the body calls. -/
theorem mapM {α : Type} (h : Inside e parts) {read : Part → Assembled α}
    (reads : ∀ p : Part, p.Sound → p.rule ∈ e.calls → Succeeds (read p)) : Succeeds (parts.mapM read) :=
  .mapM fun p mem => reads p (h.sound p mem) (h.called mem)

/-- Every part of a rule is read. -/
theorem mapM_filter {α : Type} (h : Inside e parts) {r : Rule} {read : Part → Assembled α}
    (reads : ∀ p : Part, p.Sound → p.rule = r → Succeeds (read p)) :
    Succeeds ((parts.filter (·.rule = r)).mapM read) := by
  refine .mapM fun p mem => ?_
  obtain ⟨inside, is⟩ := List.mem_filter.1 mem
  exact reads p (h.sound p inside) (of_decide_eq_true is)

theorem function (h : Inside e parts) (need : e.needs (· = .block) = true) (name : Option String) :
    Succeeds (function site parts name) := by
  unfold Parse.function
  refine .bind (h.optional fun p sound is => sound.toParams is rfl) fun params _ => ?_
  refine .bind (h.the need) fun block ⟨sound, is⟩ => ?_
  refine .bind (sound.toBody is rfl) fun body _ => ?_
  exact .ok trivial

/-! ### Parts of parts -/

variable {a b : Grammar.Body}

theorem call {r : Rule} (h : Inside (.call r) parts) : ∃ p, parts = [p] ∧ p.Sound ∧ p.rule = r := by
  obtain ⟨p, rfl, is⟩ := List.map_eq_singleton_iff.1 h.word
  exact ⟨p, rfl, h.sound p (List.mem_singleton_self p), is⟩

theorem single (h : Inside e parts) (single : e.single = true) : ∃ p, parts = [p] ∧ p.Sound ∧ p.rule ∈ e.calls := by
  obtain ⟨r, called, word⟩ := Peg.exists_of_single h.word single
  obtain ⟨p, rfl, rfl⟩ := List.map_eq_singleton_iff.1 word
  exact ⟨p, rfl, h.sound p (List.mem_singleton_self p), called⟩

theorem seq (h : Inside (.seq a b) parts) : ∃ ps qs, parts = ps ++ qs ∧ Inside a ps ∧ Inside b qs := by
  obtain ⟨u, hu, v, hv, joined⟩ := h.word
  obtain ⟨ps, qs, rfl, rfl, rfl⟩ := List.map_eq_append_iff.1 joined.symm
  refine ⟨ps, qs, rfl, ⟨fun p mem => ?_, hu⟩, ⟨fun q mem => ?_, hv⟩⟩
  · exact h.sound p (List.mem_append_left _ mem)
  · exact h.sound q (List.mem_append_right _ mem)

theorem alt (h : Inside (.alt a b) parts) : Inside a parts ∨ Inside b parts :=
  h.word.imp (fun word => ⟨h.sound, word⟩) fun word => ⟨h.sound, word⟩

theorem opt (h : Inside (.opt a) parts) : parts = [] ∨ Inside a parts :=
  h.word.imp (fun word => List.map_eq_nil_iff.1 word) fun word => ⟨h.sound, word⟩

theorem star (h : Inside (.star a) parts) : ∃ rounds : List (List Part), parts = rounds.flatten ∧
    ∀ round ∈ rounds, Inside a round := by
  obtain ⟨words, joined, each⟩ := Language.mem_kstar.1 h.word
  have sound := h.sound
  clear h
  induction words generalizing parts with
  | nil => exact ⟨[], List.map_eq_nil_iff.1 joined, List.forall_mem_nil _⟩
  | cons u us ih =>
    obtain ⟨ps, qs, rfl, rfl, rest⟩ := List.map_eq_append_iff.1 joined
    have first : Inside a ps := ⟨fun p mem => sound p (List.mem_append_left _ mem), each _ (List.mem_cons_self ..)⟩
    obtain ⟨rounds, rfl, inside⟩ := ih rest (fun v mem => each v (List.mem_cons_of_mem _ mem))
      fun q mem => sound q (List.mem_append_right _ mem)
    exact ⟨ps :: rounds, rfl, List.forall_mem_cons.2 ⟨first, inside⟩⟩

theorem text {chars : List Char} (h : Inside (.text chars) parts) : parts = [] :=
  List.map_eq_nil_iff.1 h.word

end Inside

end FlowScript.Parse
