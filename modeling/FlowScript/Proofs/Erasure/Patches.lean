import FlowScript.Proofs.Erasure.Bounds
import FlowScript.Proofs.Erasure.Frame
import Mathlib.Data.List.Pairwise

/-!
# What applied edits leave of a source

Whatever the edits are, a text that they leave is the source with parts of it replaced (`Replaces`): the parts stand one
after the other, each is the range of one edit, or that with the blanks of its lines, and everything between them is
kept. Edits that lie in the source apart or inside one another, none of them with its line, replace exactly the ranges
of the outermost, in whatever order they come.
-/

namespace FlowScript
open Text (byteLength byteLength_append)

/-- A part of a source that an edit replaces: the text kept in front of it, the blanks in front of the edit that go with
    it, the text that the edit is for, and the blanks behind it that go with it. -/
structure Patch where
  kept : List Char
  lead : List Char
  old : List Char
  trail : List Char
  edit : Edit

namespace Patch

/-- What was in the source, the kept text included. -/
def source (p : Patch) : List Char := p.kept ++ p.lead ++ p.old ++ p.trail

/-- What is left of it. -/
def result (p : Patch) : List Char := p.kept ++ p.edit.replacement.toList

/-- A patch stands between two texts where its edit says; only an edit that takes its line takes blanks too. -/
structure Stands (before after : List Char) (p : Patch) : Prop where
  start : p.edit.start = byteLength (before ++ p.kept ++ p.lead)
  stop : p.edit.stop = byteLength (before ++ p.kept ++ p.lead ++ p.old)
  widened : (p.lead = [] ∧ p.trail = []) ∨
    (p.edit.wholeLine = true ∧ Edit.FillsLine (before ++ p.kept) p.lead p.trail after)

/-- Patches that stand one after the other between two texts. -/
def AllStand (before after : List Char) : List Patch → Prop
  | [] => True
  | p :: ps => p.Stands before (ps.flatMap source ++ after) ∧ AllStand (before ++ p.source) after ps

/-- The characters of a text with their offsets. -/
def offsetsFrom : Nat → List Char → List (Nat × Char)
  | _, [] => []
  | n, c :: r => (n, c) :: offsetsFrom (n + c.utf8Size) r

/-- The characters that patches keep, with the offsets at which they stand in the source. -/
def keptFrom (tail : List Char) : Nat → List Patch → List (Nat × Char)
  | n, [] => offsetsFrom n tail
  | n, p :: ps => offsetsFrom n p.kept ++ keptFrom tail (n + byteLength p.source) ps

end Patch

namespace Edit

/-- Whether a character that stands at an offset is no blank and in the range of no edit. -/
def isFree (edits : List Edit) (at_ : Nat × Char) : Bool :=
  !isLineBlank at_.2 && edits.all fun e => at_.1 < e.start || e.stop ≤ at_.1

/-- A text is the source with parts of it replaced, each part by another of the edits. -/
structure Replaces (source : List Char) (edits : List Edit) (patches : List Patch) (tail out : List Char) : Prop where
  whole : source = patches.flatMap Patch.source ++ tail
  result : out = patches.flatMap Patch.result ++ tail
  stand : Patch.AllStand [] tail patches
  subperm : (patches.map Patch.edit).Subperm edits
  /-- What is kept stands in the source, so each of its characters once and in order. -/
  kept : (Patch.keptFrom tail 0 patches).Sublist (Patch.offsetsFrom 0 source)
  /-- All characters but blanks that no edit is for are kept. -/
  free : ((Patch.offsetsFrom 0 source).filter (isFree edits)).Sublist (Patch.keptFrom tail 0 patches)

end Edit

/-! ## Characters and their offsets -/

namespace Patch

theorem offsetsFrom_append (n : Nat) (a b : List Char) :
    offsetsFrom n (a ++ b) = offsetsFrom n a ++ offsetsFrom (n + byteLength a) b := by
  induction a generalizing n with
  | nil => simp [offsetsFrom, byteLength]
  | cons c a ih => simp [offsetsFrom, byteLength, ih, Nat.add_assoc]

theorem mem_offsetsFrom {n m : Nat} {c : Char} {cs : List Char} (mem : (m, c) ∈ offsetsFrom n cs) :
    n ≤ m ∧ m < n + byteLength cs ∧ c ∈ cs := by
  induction cs generalizing n with
  | nil => cases mem
  | cons d cs ih =>
    rw [byteLength]
    rcases List.mem_cons.1 mem with here | later
    · obtain ⟨rfl, rfl⟩ := Prod.mk.inj here
      have := c.utf8Size_pos
      exact ⟨le_refl _, by omega, List.mem_cons_self⟩
    · obtain ⟨low, high, inside⟩ := ih later
      exact ⟨by omega, by omega, List.mem_cons_of_mem _ inside⟩

theorem keptFrom_sublist (tail : List Char) (n : Nat) (ps : List Patch) :
    (keptFrom tail n ps).Sublist (offsetsFrom n (ps.flatMap source ++ tail)) := by
  induction ps generalizing n with
  | nil => exact .refl _
  | cons p ps ih =>
    rw [keptFrom, List.flatMap_cons, List.append_assoc, offsetsFrom_append]
    refine List.Sublist.append ?_ (ih _)
    rw [source, List.append_assoc, List.append_assoc, offsetsFrom_append]
    exact List.sublist_append_left _ _

/-- No character of a part that is replaced is free. -/
theorem Stands.filter_eq_nil {before after : List Char} {p : Patch} (h : p.Stands before after) {edits : List Edit}
    (mem : p.edit ∈ edits) :
    (offsetsFrom (byteLength (before ++ p.kept)) (p.lead ++ p.old ++ p.trail)).filter (Edit.isFree edits) = [] := by
  have blank : ∀ {cs : List Char} {m n : Nat} {c : Char}, cs.all Edit.isLineBlank = true → (m, c) ∈ offsetsFrom n cs →
      Edit.isFree edits (m, c) = false := by
    intro cs m n c blanks inside
    have : Edit.isLineBlank c = true := List.all_eq_true.1 blanks c (mem_offsetsFrom inside).2.2
    simp [Edit.isFree, this]
  have blanks : p.lead.all Edit.isLineBlank = true ∧ p.trail.all Edit.isLineBlank = true := by
    rcases h.widened with ⟨lead, trail⟩ | ⟨-, line⟩
    · simp [lead, trail]
    · exact ⟨line.lead_blank, line.trail_blank⟩
  refine List.filter_eq_nil_iff.2 ?_
  rintro ⟨m, c⟩ inside
  rw [Bool.not_eq_true]
  rw [offsetsFrom_append, offsetsFrom_append] at inside
  rcases List.mem_append.1 inside with inside | inside
  · rcases List.mem_append.1 inside with inside | inside
    · exact blank blanks.1 inside
    · obtain ⟨low, high, -⟩ := mem_offsetsFrom inside
      refine Bool.and_eq_false_iff.2 (.inr (List.all_eq_false.2 ⟨p.edit, mem, ?_⟩))
      have start := h.start
      have stop := h.stop
      rw [byteLength_append] at start
      rw [byteLength_append, byteLength_append (before ++ p.kept)] at stop
      simp only [Bool.or_eq_true, decide_eq_true_eq]
      omega
  · exact blank blanks.2 inside

theorem AllStand.exists_stands {tail : List Char} {ps : List Patch} {before : List Char}
    (h : AllStand before tail ps) {p : Patch} (mem : p ∈ ps) : ∃ before after, p.Stands before after := by
  induction ps generalizing before with
  | nil => cases mem
  | cons q ps ih =>
    obtain ⟨here, rest⟩ := h
    rcases List.mem_cons.1 mem with rfl | later
    · exact ⟨_, _, here⟩
    · exact ih rest later

/-- All free characters are kept. -/
theorem AllStand.filter_sublist {edits : List Edit} (tail : List Char) {ps : List Patch} {before : List Char}
    (h : AllStand before tail ps) (mem : ∀ p ∈ ps, p.edit ∈ edits) :
    ((offsetsFrom (byteLength before) (ps.flatMap source ++ tail)).filter (Edit.isFree edits)).Sublist
      (keptFrom tail (byteLength before) ps) := by
  induction ps generalizing before with
  | nil => exact List.filter_sublist
  | cons p ps ih =>
    obtain ⟨here, rest⟩ := h
    obtain ⟨first, others⟩ := List.forall_mem_cons.1 mem
    have split : p.source = p.kept ++ (p.lead ++ p.old ++ p.trail) := by simp [source]
    have ih := ih rest others
    rw [byteLength_append] at ih
    rw [keptFrom, List.flatMap_cons, List.append_assoc, offsetsFrom_append, List.filter_append]
    refine List.Sublist.append ?_ ih
    rw [split, offsetsFrom_append, List.filter_append, ← byteLength_append, here.filter_eq_nil first, List.append_nil]
    exact List.filter_sublist

end Patch

namespace Edit

/-! ## The edits that are applied -/

/-- The edits that are not left out, when everything up to a cursor is already settled. -/
def applied (source : List Char) : (cursor : Nat) → List Edit → List Edit
  | _, [] => []
  | cursor, edit :: edits =>
    if edit.isDropped source cursor then applied source cursor edits
    else edit :: applied source (edit.range source cursor).2 edits

theorem applied_sublist (source : List Char) (cursor : Nat) (edits : List Edit) :
    (applied source cursor edits).Sublist edits := by
  induction edits generalizing cursor with
  | nil => exact .refl _
  | cons edit edits ih =>
    unfold applied
    split
    · exact (ih cursor).cons edit
    · exact (ih _).cons_cons edit

/-- One edit that is applied makes a patch of what is not settled yet. -/
theorem exists_patch {edit : Edit} {p q : List Char} (kept : edit.isDropped (p ++ q) (byteLength p) = false)
    (starts : Text.isBoundary (p ++ q) edit.start = true) (stops : Text.isBoundary (p ++ q) edit.stop = true) :
    ∃ (patch : Patch) (after : List Char), patch.edit = edit ∧ q = patch.source ++ after ∧ patch.Stands p after ∧
      edit.range (p ++ q) (byteLength p) = (byteLength (p ++ patch.kept), byteLength (p ++ patch.source)) := by
  obtain ⟨free, inside⟩ := inRange_of_isDropped kept starts stops
  obtain ⟨before, old, after, whole, start, stop⟩ := inside.exists_append
  obtain ⟨a, lead, trail, b, rfl, rfl, low, range, widened⟩ := exists_range_lines after start stop free
  have same : p ++ q = a ++ (lead ++ old ++ (trail ++ b)) := by simp [whole]
  obtain ⟨mid, rfl⟩ := exists_append_of_byteLength_le same low
  have rest : q = mid ++ lead ++ old ++ trail ++ b := by simpa using same
  refine ⟨⟨mid, lead, old, trail, edit⟩, b, rfl, rest, ⟨?_, ?_, widened⟩, ?_⟩
  · rw [start]
  · rw [stop]
  · rw [whole, range]
    simp [Patch.source]

/-- What sorted edits leave of what is not settled yet is made of the patches of those that are applied. -/
theorem exists_patches {source : List Char} {edits : List Edit} : ∀ {p q out : List Char}, p ++ q = source →
    applySorted source (byteLength p) edits = .ok out →
    ∃ patches tail, q = patches.flatMap Patch.source ++ tail ∧ out = patches.flatMap Patch.result ++ tail ∧
      Patch.AllStand p tail patches ∧ patches.map Patch.edit = applied source (byteLength p) edits := by
  induction edits with
  | nil =>
    rintro p q out rfl ok
    rw [applySorted, Text.dropBytes?_append] at ok
    cases ok
    exact ⟨[], q, rfl, rfl, trivial, rfl⟩
  | cons edit edits ih =>
    rintro p q out rfl ok
    rw [applySorted] at ok
    rw [applied]
    cases dropped : edit.isDropped (p ++ q) (byteLength p) with
    | true =>
      rw [dropped, if_pos rfl] at ok
      exact ih rfl ok
    | false =>
      rw [dropped, if_neg Bool.false_ne_true] at ok
      cases misses : !Text.isBoundary (p ++ q) edit.start || !Text.isBoundary (p ++ q) edit.stop with
      | true => rw [misses, if_pos rfl] at ok; cases ok
      | false =>
        obtain ⟨starts, stops⟩ := Bool.or_eq_false_iff.1 misses
        obtain ⟨patch, after, is, rfl, stands, range⟩ := exists_patch dropped (by simpa using starts) (by simpa using stops)
        rw [misses, if_neg Bool.false_ne_true, range] at ok
        have between : Text.slice? (p ++ (patch.source ++ after)) (byteLength p) (byteLength (p ++ patch.kept)) =
            some patch.kept :=
          Text.slice?_of_append (c := patch.lead ++ patch.old ++ patch.trail ++ after) (by simp [Patch.source]) rfl rfl
        cases rest : applySorted (p ++ (patch.source ++ after)) (byteLength (p ++ patch.source)) edits with
        | error e => simp [rest] at ok; cases ok
        | ok out' =>
          obtain ⟨patches, tail, rfl, rfl, stand, applied⟩ := ih (List.append_assoc p patch.source after) rest
          refine ⟨patch :: patches, tail, by simp, ?_, ⟨stands, stand⟩, ?_⟩
          · simp only [between, rest] at ok
            cases ok
            simp [Patch.result, is]
          · rw [if_neg Bool.false_ne_true, range, List.map_cons, is, applied]

/-- The text that arbitrary edits leave is the source with the ranges of those that are applied replaced. -/
theorem exists_replaces {source : List Char} {edits : List Edit} {out : List Char}
    (ok : applyAll source edits = .ok out) :
    ∃ patches tail, Replaces source edits patches tail out ∧
      patches.map Patch.edit = applied source 0 (sorted edits) := by
  obtain ⟨patches, tail, whole, result, stand, are⟩ := exists_patches (p := []) rfl ok
  have sub : (patches.map Patch.edit).Sublist (sorted edits) := are ▸ applied_sublist source 0 (sorted edits)
  have mem : ∀ p ∈ patches, p.edit ∈ edits := fun p inside => mem_sorted.1 (sub.subset (List.mem_map_of_mem inside))
  refine ⟨patches, tail, ⟨whole, result, stand, ?_, ?_, ?_⟩, are⟩
  · exact sub.subperm.trans (List.mergeSort_perm edits before).subperm
  · rw [whole]
    exact Patch.keptFrom_sublist tail 0 patches
  · rw [whole]
    exact stand.filter_sublist tail mem

/-! ## Edits apart or inside one another -/

/-- An edit's range lies in that of another. -/
def Covers (e f : Edit) : Prop := e.start ≤ f.start ∧ f.stop ≤ e.stop

instance (e f : Edit) : Decidable (e.Covers f) := inferInstanceAs (Decidable (_ ∧ _))

/-- Two edits have different ranges, which lie apart or one inside the other. -/
def Nests (e f : Edit) : Prop :=
  (e.start ≠ f.start ∨ e.stop ≠ f.stop) ∧ (e.stop ≤ f.start ∨ f.stop ≤ e.start ∨ e.Covers f ∨ f.Covers e)

theorem Nests.symm {e f : Edit} (h : e.Nests f) : f.Nests e := by
  obtain ⟨differ, apart | apart | covers | covers⟩ := h
  · exact ⟨differ.imp Ne.symm Ne.symm, .inr (.inl apart)⟩
  · exact ⟨differ.imp Ne.symm Ne.symm, .inl apart⟩
  · exact ⟨differ.imp Ne.symm Ne.symm, .inr (.inr (.inr covers))⟩
  · exact ⟨differ.imp Ne.symm Ne.symm, .inr (.inr (.inl covers))⟩

instance : Std.Symm Nests := ⟨fun _ _ => Nests.symm⟩

/-- No other of the edits covers this one. -/
def isOutermost (edits : List Edit) (e : Edit) : Bool :=
  edits.all fun f => !decide (f.Covers e) || (f.start == e.start && f.stop == e.stop)

/-- Edits that lie in a source, each with a text of its own and none with its line, apart or inside one another. -/
structure Laminar (source : List Char) (edits : List Edit) : Prop where
  inRange : ∀ e ∈ edits, e.InRange source
  nonempty : ∀ e ∈ edits, e.start < e.stop
  ownRange : ∀ e ∈ edits, e.wholeLine = false
  nest : edits.Pairwise Nests

theorem Laminar.perm {source : List Char} {edits others : List Edit} (h : Laminar source edits)
    (perm : others.Perm edits) : Laminar source others where
  inRange e mem := h.inRange e (perm.mem_iff.1 mem)
  nonempty e mem := h.nonempty e (perm.mem_iff.1 mem)
  ownRange e mem := h.ownRange e (perm.mem_iff.1 mem)
  nest := (perm.pairwise_iff Nests.symm).2 h.nest

theorem Laminar.tail {source : List Char} {e : Edit} {edits : List Edit} (h : Laminar source (e :: edits)) :
    Laminar source edits where
  inRange f mem := h.inRange f (List.mem_cons_of_mem _ mem)
  nonempty f mem := h.nonempty f (List.mem_cons_of_mem _ mem)
  ownRange f mem := h.ownRange f (List.mem_cons_of_mem _ mem)
  nest := (List.pairwise_cons.1 h.nest).2

/-- Such edits are sorted the same way in whatever order they come. -/
theorem Laminar.sorted_eq {source : List Char} {edits others : List Edit} (h : Laminar source edits)
    (perm : others.Perm edits) : sorted others = sorted edits := by
  have permSorted : (sorted others).Perm (sorted edits) :=
    ((List.mergeSort_perm others before).trans perm).trans (List.mergeSort_perm edits before).symm
  have ordered := List.pairwise_mergeSort before_trans before_total
  refine List.Perm.eq_of_pairwise ?_ (ordered others) (ordered edits) permSorted
  intro a b memA memB ab ba
  by_contra differ
  have nests : a.Nests b := h.nest.forall (perm.mem_iff.1 (mem_sorted.1 memA))
    (mem_sorted.1 memB) differ
  simp only [before, Bool.or_eq_true, Bool.and_eq_true, decide_eq_true_eq, beq_iff_eq] at ab ba
  have := nests.1
  omega

/-- Edits that lie in the source are applied without an error. -/
theorem exists_applySorted {source : List Char} {edits : List Edit} (inRange : ∀ e ∈ edits, e.InRange source)
    (cursor : Nat) : ∃ out, applySorted source cursor edits = .ok out := by
  induction edits generalizing cursor with
  | nil => exact ⟨_, rfl⟩
  | cons edit edits ih =>
    obtain ⟨first, others⟩ := List.forall_mem_cons.1 inRange
    rw [applySorted, first.start_boundary, first.stop_boundary]
    cases edit.isDropped source cursor with
    | true => exact ih others cursor
    | false =>
      obtain ⟨rest, ok⟩ := ih others (edit.range source cursor).2
      exact ⟨_, by simp only [ok]; rfl⟩

/-- Of edits in order, each in front of the cursor or behind it, those behind it that no other covers are applied. -/
theorem applied_eq_filter {source : List Char} {edits : List Edit} (laminar : Laminar source edits)
    (order : edits.Pairwise fun a b => before a b = true) {cursor : Nat}
    (settled : ∀ e ∈ edits, cursor ≤ e.start ∨ e.stop ≤ cursor) :
    applied source cursor edits = edits.filter fun e => decide (cursor ≤ e.start) && isOutermost edits e := by
  induction edits generalizing cursor with
  | nil => rfl
  | cons edit edits ih =>
    obtain ⟨later, orderRest⟩ := List.pairwise_cons.1 order
    obtain ⟨nests, -⟩ := List.pairwise_cons.1 laminar.nest
    obtain ⟨here, rest⟩ := List.forall_mem_cons.1 settled
    have inRange := laminar.inRange edit List.mem_cons_self
    have nonempty := laminar.nonempty edit List.mem_cons_self
    have nonemptyRest : ∀ e ∈ edits, e.start < e.stop := laminar.tail.nonempty
    have dropped : edit.isDropped source cursor = decide (edit.start < cursor) := by
      have := inRange.stop_le
      have := inRange.ordered
      rw [Bool.eq_iff_iff]
      simp only [isDropped, Bool.or_eq_true, decide_eq_true_eq]
      omega
    have range : (edit.range source cursor).2 = edit.stop := by
      rw [Edit.range, laminar.ownRange edit List.mem_cons_self, if_neg Bool.false_ne_true]
    rw [applied, dropped]
    by_cases behind : edit.start < cursor
    · rw [decide_eq_true behind, if_pos rfl, ih laminar.tail orderRest rest, List.filter_cons,
        decide_eq_false (by omega : ¬cursor ≤ edit.start), Bool.false_and, if_neg Bool.false_ne_true]
      refine List.filter_congr fun e mem => ?_
      have := nonemptyRest e mem
      by_cases free : cursor ≤ e.start
      · have uncovered : ¬ edit.Covers e := fun covers => by
          have := covers.2
          omega
        simp [isOutermost, uncovered]
      · rw [decide_eq_false free, Bool.false_and, Bool.false_and]
    · have outermost : isOutermost (edit :: edits) edit = true := by
        refine List.all_eq_true.2 fun f mem => ?_
        rcases List.mem_cons.1 mem with rfl | mem
        · simp
        · have order := later f mem
          by_cases covers : f.Covers edit
          · obtain ⟨low, high⟩ := covers
            simp only [before, Bool.or_eq_true, Bool.and_eq_true, decide_eq_true_eq, beq_iff_eq] at order ⊢
            omega
          · simp [covers]
      have settledRest : ∀ e ∈ edits, edit.stop ≤ e.start ∨ e.stop ≤ edit.stop := by
        intro e mem
        have order := later e mem
        obtain ⟨differ, nested⟩ := nests e mem
        simp only [before, Covers, Bool.or_eq_true, Bool.and_eq_true, decide_eq_true_eq, beq_iff_eq] at order nested
        omega
      rw [decide_eq_false behind, if_neg Bool.false_ne_true, range, ih laminar.tail orderRest settledRest,
        List.filter_cons, decide_eq_true (by omega : cursor ≤ edit.start), outermost, if_pos (by rfl)]
      congr 1
      refine List.filter_congr fun e mem => ?_
      have order := later e mem
      have := nonemptyRest e mem
      obtain ⟨differ, nested⟩ := nests e mem
      have free : edit.stop ≤ e.start ↔ cursor ≤ e.start ∧ ¬edit.Covers e := by
        simp only [before, Covers, Bool.or_eq_true, Bool.and_eq_true, decide_eq_true_eq, beq_iff_eq] at order nested ⊢
        omega
      have other : (edit.start == e.start && edit.stop == e.stop) = false := by
        simp only [Bool.and_eq_false_iff, beq_eq_false_iff_ne]
        exact differ
      have outermost_cons : isOutermost (edit :: edits) e = (!decide (edit.Covers e) && isOutermost edits e) := by
        rw [isOutermost, List.all_cons, other, Bool.or_false]
        rfl
      rw [outermost_cons, ← Bool.and_assoc]
      congr 1
      rw [Bool.eq_iff_iff]
      simpa using free

/-- Such edits replace exactly the outermost of them. -/
theorem Laminar.applied_perm {source : List Char} {edits : List Edit} (h : Laminar source edits) :
    (applied source 0 (sorted edits)).Perm (edits.filter (isOutermost edits)) := by
  have perm : (sorted edits).Perm edits := List.mergeSort_perm edits before
  have same : isOutermost (sorted edits) = isOutermost edits := by
    funext e
    rw [Bool.eq_iff_iff, isOutermost, isOutermost, List.all_eq_true, List.all_eq_true]
    exact forall_congr' fun f => by rw [mem_sorted]
  rw [applied_eq_filter (h.perm perm) (List.pairwise_mergeSort before_trans before_total edits)
    fun e _ => .inl (Nat.zero_le _)]
  simp only [Nat.zero_le, decide_true, Bool.true_and, same]
  exact perm.filter _

/-- Whatever edits are applied without an error, they leave the source with ranges of some of them replaced. Those that
    lie in the source apart or inside one another, none with its line, are applied without an error, and replace the
    ranges of the outermost, with the same text in whatever order they come. -/
theorem applyAll_replaces (source : List Char) (edits : List Edit) :
    (∀ out, applyAll source edits = .ok out → ∃ patches tail, Replaces source edits patches tail out) ∧
      (Laminar source edits → ∃ patches tail out, Replaces source edits patches tail out ∧
        (patches.map Patch.edit).Perm (edits.filter (isOutermost edits)) ∧
        (∀ p ∈ patches, p.lead = [] ∧ p.trail = []) ∧
        ∀ others, others.Perm edits → applyAll source others = .ok out) := by
  refine ⟨fun out ok => ?_, fun laminar => ?_⟩
  · obtain ⟨patches, tail, replaces, -⟩ := exists_replaces ok
    exact ⟨patches, tail, replaces⟩
  · obtain ⟨out, ok⟩ := exists_applySorted (fun e mem => laminar.inRange e (mem_sorted.1 mem)) 0
    obtain ⟨patches, tail, replaces, are⟩ := exists_replaces ok
    refine ⟨patches, tail, out, replaces, are ▸ laminar.applied_perm, ?_, fun others perm => ?_⟩
    · intro p mem
      obtain ⟨before, after, stands⟩ := replaces.stand.exists_stands mem
      refine stands.widened.resolve_right fun whole => ?_
      have own := laminar.ownRange p.edit (replaces.subperm.subset (List.mem_map_of_mem mem))
      rw [own] at whole
      exact Bool.false_ne_true whole.1
    · rw [applyAll, laminar.sorted_eq perm]
      exact ok

theorem applyAll_replaces_nestedAndLines :
    applyAll "ab\n  cd \nef".toList [.removeLine 5 7, .replace 0 2 "x", .remove 1 2] = .ok "x\nef".toList ∧
      (∃ patches tail, Replaces "ab\n  cd \nef".toList [.removeLine 5 7, .replace 0 2 "x", .remove 1 2] patches tail
        "x\nef".toList) ∧
      Laminar "abcdefgh".toList [.remove 2 4, .replace 0 6 "é"] ∧
      applyAll "abcdefgh".toList [.replace 0 6 "é", .remove 2 4] = .ok "égh".toList ∧
      applyAll "abcdefgh".toList [.remove 2 4, .replace 0 6 "é"] = .ok "égh".toList := by
  have order : sorted [.removeLine 5 7, .replace 0 2 "x", .remove 1 2] =
      [.replace 0 2 "x", .remove 1 2, .removeLine 5 7] := by
    simp [sorted, List.mergeSort, List.MergeSort.Internal.splitInTwo, before, removeLine, replace, remove]
  have ok : applyAll "ab\n  cd \nef".toList [.removeLine 5 7, .replace 0 2 "x", .remove 1 2] = .ok "x\nef".toList := by
    rw [applyAll, order]
    decide +kernel
  have outer : sorted [.replace 0 6 "é", .remove 2 4] = [.replace 0 6 "é", .remove 2 4] :=
    List.mergeSort_of_pairwise (by decide)
  have nested : applyAll "abcdefgh".toList [.replace 0 6 "é", .remove 2 4] = .ok "égh".toList := by
    rw [applyAll, outer]
    decide +kernel
  have laminar : Laminar "abcdefgh".toList [.remove 2 4, .replace 0 6 "é"] := by
    refine ⟨?_, by decide, by decide, ?_⟩
    · simp only [List.forall_mem_cons]
      exact ⟨⟨by decide, by decide, by decide, by decide⟩, ⟨by decide, by decide, by decide, by decide⟩,
        List.forall_mem_nil _⟩
    · simp [Nests, Covers, remove, replace]
  obtain ⟨-, -, out, -, -, -, same⟩ := (applyAll_replaces _ _).2 laminar
  have swapped : applyAll "abcdefgh".toList [.replace 0 6 "é", .remove 2 4] = .ok out := same _ (.swap ..)
  refine ⟨ok, (applyAll_replaces _ _).1 _ ok, laminar, nested, ?_⟩
  rw [← nested, swapped]
  exact same _ (.refl _)

end Edit
end FlowScript
