import FlowScript.Proofs.Erasure.Apply

/-!
# Edits around a part of a source

Edits in front of a place do there what they do to a text that ends with the next character, unless that leaves its
line blank; and edits behind such a character leave the text up to it as it is. So a part of a source that is kept,
replaced or removed stands between what the edits in front of it leave and what those behind it leave (`Around`).
-/

namespace FlowScript

/-- Lists of which the first goes before the second are sorted one by one. -/
theorem mergeSort_append {α : Type} {le : α → α → Bool} (trans : ∀ a b c, le a b = true → le b c = true → le a c = true)
    (total : ∀ a b, (le a b || le b a) = true) {as bs : List α} (apart : ∀ a ∈ as, ∀ b ∈ bs, le a b = true) :
    (as ++ bs).mergeSort le = as.mergeSort le ++ bs.mergeSort le := by
  induction as with
  | nil => simp
  | cons a as ih =>
    obtain ⟨first, rest⟩ := List.forall_mem_cons.1 apart
    obtain ⟨l₁, l₂, whole, split, before⟩ := List.mergeSort_cons trans total a (as ++ bs)
    obtain ⟨m₁, m₂, own, splitOwn, beforeOwn⟩ := List.mergeSort_cons trans total a as
    rw [List.cons_append, whole, own]
    rw [ih rest, splitOwn, List.append_assoc] at split
    have sorted : (l₁ ++ a :: l₂).Pairwise (le · ·) := whole ▸ List.pairwise_mergeSort trans total _
    have sortedOwn : (m₁ ++ a :: m₂).Pairwise (le · ·) := own ▸ List.pairwise_mergeSort trans total _
    have later : ∀ b ∈ l₂, le a b = true := (List.pairwise_cons.1 (List.pairwise_append.1 sorted).2.1).1
    have laterOwn : ∀ b ∈ m₂ ++ bs.mergeSort le, le a b = true := by
      intro b mem
      rcases List.mem_append.1 mem with mem | mem
      · exact (List.pairwise_cons.1 (List.pairwise_append.1 sortedOwn).2.1).1 b mem
      · exact first b ((List.mergeSort_perm bs le).mem_iff.1 mem)
    -- neither front is longer than the other: what it has more would stand on both sides of `a`
    rcases List.append_eq_append_iff.1 split with ⟨more, rfl, rest⟩ | ⟨more, rfl, rfl⟩
    · cases more with
      | nil => simpa using rest.symm
      | cons b more =>
        have early := before b (by simp)
        rw [laterOwn b (by rw [rest]; simp)] at early
        cases early
    · cases more with
      | nil => simp
      | cons b more =>
        have early := beforeOwn b (by simp)
        rw [later b (by simp)] at early
        cases early

namespace Edit
open Text (byteLength byteLength_append)

/-! ## The order of edits -/

theorem before_trans (a b c : Edit) (h : before a b = true) (h' : before b c = true) : before a c = true := by
  simp [before] at *
  omega

theorem before_total (a b : Edit) : (before a b || before b a) = true := by
  simp [before]
  omega

/-- Edits that begin before others are sorted before them. -/
theorem sorted_append {as bs : List Edit} (apart : ∀ a ∈ as, ∀ b ∈ bs, a.start < b.start) :
    sorted (as ++ bs) = sorted as ++ sorted bs :=
  mergeSort_append before_trans before_total fun a mem b mem' => by simp [before, apart a mem b mem']

/-! ## Edits in front of a place -/

theorem Cuts.append {p : List Char} {edit : Edit} (cuts : edit.Cuts p) (q : List Char) : edit.Cuts (p ++ q) := by
  obtain ⟨before, old, after, rfl, start, stop, less⟩ := cuts
  exact ⟨before, old, after ++ q, by simp, start, stop, less⟩

/-- An edit of a text that ends no later than a beginning of it cuts the beginning. -/
theorem Cuts.of_append {p q : List Char} {edit : Edit} (cuts : edit.Cuts (p ++ q)) (le : edit.stop ≤ byteLength p) :
    edit.Cuts p := by
  obtain ⟨before, old, after, whole, start, stop, less⟩ := cuts
  rw [stop] at le
  obtain ⟨mid, rfl⟩ := exists_append_of_byteLength_le whole.symm le
  exact ⟨before, old, mid, rfl, start, stop, less⟩

theorem isLineBlank_eq_false {c : Char} (dark : Text.isBlank c = false) : isLineBlank c = false := by
  refine Bool.eq_false_iff.2 fun blank => ?_
  simp only [isLineBlank, Bool.or_eq_true, beq_iff_eq, or_assoc] at blank
  rcases blank with rfl | rfl | rfl | rfl <;> revert dark <;> decide

theorem firstLine_append (x y : List Char) :
    firstLine (x ++ y) = if '\n' ∈ x then firstLine x else x ++ firstLine y := by
  induction x with
  | nil => simp
  | cons c x ih =>
    by_cases line : c = '\n'
    · simp [firstLine, line]
    · have other : '\n' ≠ c := Ne.symm line
      simp only [List.cons_append, firstLine, line, if_false, ih, List.mem_cons, other, false_or]
      split <;> rfl

/-- No edit is widened over a character that does not leave its line blank. -/
theorem Cuts.range_append {p : List Char} {edit : Edit} (cuts : edit.Cuts p) {c : Char} (dark : isLineBlank c = false)
    (t t' : List Char) (floor : Nat) : edit.range (p ++ c :: t) floor = edit.range (p ++ c :: t') floor := by
  obtain ⟨before, old, after, rfl, start, stop, -⟩ := cuts
  have taken : ∀ t, Text.takeBytes? (before ++ old ++ after ++ c :: t) edit.start = some before := by
    intro t
    rw [start, List.append_assoc, List.append_assoc, Text.takeBytes?_append]
  have dropped : ∀ t, Text.dropBytes? (before ++ old ++ after ++ c :: t) edit.stop = some (after ++ c :: t) := by
    intro t
    rw [stop, List.append_assoc (before ++ old), Text.dropBytes?_append]
  have notLine : c ≠ '\n' := by
    rintro rfl
    cases dark
  unfold range
  simp only [taken, dropped, Option.getD_some, firstLine_append]
  by_cases line : '\n' ∈ after
  · simp only [line, if_true]
  · simp [line, firstLine, notLine, dark]

/-- So its range ends before such a character. -/
theorem Cuts.exists_range_append {p : List Char} {edit : Edit} (cuts : edit.Cuts p) {c : Char}
    (dark : isLineBlank c = false) {floor : Nat} (free : floor ≤ edit.start) :
    ∃ a wide b, p = a ++ wide ++ b ∧ floor ≤ byteLength a ∧
      ∀ t, edit.range (p ++ c :: t) floor = (byteLength a, byteLength (a ++ wide)) := by
  have same := cuts.range_append dark
  obtain ⟨before, old, after, rfl, start, stop, -⟩ := cuts
  obtain ⟨a, lead, trail, b, rfl, ends, -, blank, low, range⟩ := exists_range (after ++ [c]) start stop free
  obtain ⟨b, rfl⟩ : ∃ b, after = trail ++ b := by
    rcases List.append_eq_append_iff.1 ends with ⟨more, rfl, single⟩ | ⟨more, rfl, -⟩
    · cases more with
      | nil => exact ⟨[], by simp⟩
      | cons d more =>
        obtain ⟨rfl, -⟩ := List.cons.inj single
        simp [dark] at blank
    · exact ⟨more, rfl⟩
  refine ⟨a, lead ++ old ++ trail, b, by simp, low, fun t => ?_⟩
  rw [same t [] floor]
  simpa using range

/-- What lies in front of a character that leaves no line blank is settled by the edits there, whatever follows. -/
theorem exists_settled {p : List Char} {c : Char} (dark : isLineBlank c = false) {as : List Edit}
    (cuts : ∀ a ∈ as, a.Cuts p) : ∀ u v, u ++ v = p → ∃ done w x, w ++ x = p ∧ ∀ t bs,
      applySorted (p ++ c :: t) (byteLength u) (as ++ bs) =
        (applySorted (p ++ c :: t) (byteLength w) bs).map (done ++ ·) := by
  induction as with
  | nil =>
    intro u v whole
    refine ⟨[], u, v, whole, fun t bs => ?_⟩
    rw [List.nil_append]
    cases applySorted (p ++ c :: t) (byteLength u) bs <;> rfl
  | cons a as ih =>
    obtain ⟨first, rest⟩ := List.forall_mem_cons.1 cuts
    intro u v whole
    -- an edit that is left out settles nothing, another one the text up to the end of its range
    by_cases settled : a.start < byteLength u
    · obtain ⟨done, w, x, split, applied⟩ := ih rest u v whole
      refine ⟨done, w, x, split, fun t bs => ?_⟩
      rw [List.cons_append, applySorted, (first.append _).isDropped_eq, decide_eq_true settled, if_pos rfl, applied]
    · obtain ⟨begin, wide, b, same, low, range⟩ := first.exists_range_append dark (Nat.not_lt.1 settled)
      obtain ⟨mid, rfl⟩ := exists_append_of_byteLength_le ((whole.trans same).trans (List.append_assoc _ _ _)) low
      obtain ⟨done, w, x, split, applied⟩ := ih rest (u ++ mid ++ wide) b same.symm
      refine ⟨mid ++ a.replacement.toList ++ done, w, x, split, fun t bs => ?_⟩
      obtain ⟨startsAt, stopsAt⟩ := (first.append (c :: t)).isBoundary
      have between : Text.slice? (p ++ c :: t) (byteLength u) (byteLength (u ++ mid)) = some mid :=
        Text.slice?_of_append (c := wide ++ b ++ c :: t) (by rw [same]; simp) rfl rfl
      rw [List.cons_append, applySorted, (first.append _).isDropped_eq, decide_eq_false settled, startsAt, stopsAt,
        range]
      simp only [Bool.not_true, Bool.or_self, Bool.false_eq_true, if_false, applied, between]
      cases applySorted (p ++ c :: t) (byteLength w) bs with
      | error e => rfl
      | ok out => simp [bind, Except.bind, Except.map]

/-! ## Edits behind a place -/

/-- Nor is an edit widened back over such a character. -/
theorem Cuts.range_eq {m q : List Char} {c : Char} {edit : Edit} (cuts : edit.Cuts (m ++ c :: q))
    (dark : isLineBlank c = false) (behind : byteLength (m ++ [c]) ≤ edit.start) {floor : Nat}
    (low : floor ≤ byteLength (m ++ [c])) :
    edit.range (m ++ c :: q) floor = edit.range (m ++ c :: q) (byteLength (m ++ [c])) := by
  obtain ⟨before, old, after, whole, start, stop, -⟩ := cuts
  have taken : Text.takeBytes? (m ++ c :: q) edit.start = some before := by
    rw [whole, start, List.append_assoc, Text.takeBytes?_append]
  unfold range
  simp only [taken, Option.getD_some]
  cases blank : (Source.splitLastLine before).2.all isLineBlank with
  | false => simp only [Bool.and_false, Bool.false_and]
  | true =>
    have line := Source.splitLastLine_append before
    have same : m ++ [c] ++ q = before ++ (old ++ after) := by simpa using whole
    obtain ⟨more, split⟩ := exists_append_of_byteLength_le same (start ▸ behind)
    -- the last line of the text before begins behind the character, as that is not blank
    have further : byteLength (m ++ [c]) ≤ byteLength (Source.splitLastLine before).1 := by
      rcases List.append_eq_append_iff.1 (line.trans split) with ⟨mid, whole, rest⟩ | ⟨mid, rest, -⟩
      · rcases List.eq_nil_or_concat mid with rfl | ⟨init, d, rfl⟩
        · rw [whole, List.append_nil]
        · have last : c = d := by simpa using congrArg List.getLast? whole
          rw [rest, ← last] at blank
          simp [dark] at blank
      · rw [rest, byteLength_append (m ++ [c])]
        omega
    have lineStart : edit.start - byteLength (Source.splitLastLine before).2 =
        byteLength (Source.splitLastLine before).1 := by
      have length := congrArg byteLength line
      rw [byteLength_append] at length
      omega
    rw [lineStart, decide_eq_true further, decide_eq_true (low.trans further)]

/-- Text up to a character that leaves no line blank stays as it is when all edits lie behind. -/
theorem applySorted_behind {w x q : List Char} {c : Char} (dark : isLineBlank c = false) {bs : List Edit}
    (cuts : ∀ b ∈ bs, b.Cuts (w ++ x ++ c :: q)) (behind : ∀ b ∈ bs, byteLength (w ++ x ++ [c]) ≤ b.start) :
    applySorted (w ++ x ++ c :: q) (byteLength w) bs =
      (applySorted (w ++ x ++ c :: q) (byteLength (w ++ x ++ [c])) bs).map (x ++ [c] ++ ·) := by
  have low : byteLength w ≤ byteLength (w ++ x ++ [c]) := by
    rw [List.append_assoc, byteLength_append]
    omega
  cases bs with
  | nil =>
    have here : Text.dropBytes? (w ++ x ++ c :: q) (byteLength w) = some (x ++ c :: q) := by
      rw [List.append_assoc, Text.dropBytes?_append]
    have there : Text.dropBytes? (w ++ x ++ c :: q) (byteLength (w ++ x ++ [c])) = some q := by
      rw [List.append_cons, Text.dropBytes?_append]
    rw [applySorted, applySorted, here, there, Option.getD_some, Option.getD_some, Except.map, List.append_assoc]
    rfl
  | cons b bs =>
    -- no induction: only the first edit sees how far the text is settled
    obtain ⟨first, -⟩ := List.forall_mem_cons.1 cuts
    obtain ⟨later, -⟩ := List.forall_mem_cons.1 behind
    obtain ⟨startsAt, stopsAt⟩ := first.isBoundary
    have range := first.range_eq dark later low
    rw [applySorted, applySorted, first.isDropped_eq, first.isDropped_eq, decide_eq_false (Nat.not_lt.2 later),
      decide_eq_false (Nat.not_lt.2 (low.trans later)), startsAt, stopsAt, range]
    obtain ⟨before, old, after, whole, start, stop, -⟩ := first
    obtain ⟨begin, wide, rest, same, covers, free, -⟩ := range_covers after start stop later
    rw [← whole] at same covers
    obtain ⟨mid, rfl⟩ := exists_append_of_byteLength_le (p := w ++ x ++ [c]) (q := q) (by simpa using same) free
    have here : Text.slice? (w ++ x ++ c :: q) (byteLength w) (byteLength (w ++ x ++ [c] ++ mid)) =
        some (x ++ [c] ++ mid) :=
      Text.slice?_of_append (c := wide ++ rest) (by simpa using same) rfl (by simp)
    have there : Text.slice? (w ++ x ++ c :: q) (byteLength (w ++ x ++ [c])) (byteLength (w ++ x ++ [c] ++ mid)) =
        some mid :=
      Text.slice?_of_append (c := wide ++ rest) (by simpa using same) rfl rfl
    rw [covers]
    simp only [Bool.not_true, Bool.or_self, Bool.false_eq_true, if_false, here, there]
    cases applySorted (w ++ x ++ c :: q) (byteLength (w ++ x ++ [c] ++ mid ++ wide)) bs with
    | error e => rfl
    | ok out => simp [bind, Except.bind, Except.map]

/-! ## Edits around a part of a source -/

/-- What the edits before and after a part of a source leave of the text in front of it and behind it. -/
structure Around (source : List Char) (before after : List Edit) (upTo part front back : List Char) : Prop where
  whole : ∃ rest, source = upTo ++ part ++ rest
  front : applyAll upTo before = .ok front
  back : applySorted source (byteLength (upTo ++ part)) (sorted after) = .ok back

theorem Cuts.start_lt_stop {source : List Char} {edit : Edit} (cuts : edit.Cuts source) : edit.start < edit.stop := by
  obtain ⟨before, old, after, -, start, stop, less⟩ := cuts
  have some_ : byteLength old ≠ 0 := by
    intro none
    rw [Text.byteLength_eq_zero.1 none] at less
    exact Nat.not_lt_zero _ less
  rw [start, stop, byteLength_append]
  omega

section Around

variable {source p t part rest : List Char} {c : Char} {before after : List Edit} {edit : Edit}

/-- Edits in front of a place are sorted before those behind it. -/
theorem sorted_of_cuts (cuts : ∀ e ∈ before, e.Cuts p) (behind : ∀ e ∈ after, byteLength p ≤ e.start) :
    sorted (before ++ after) = sorted before ++ sorted after := by
  refine sorted_append fun a mem b mem' => ?_
  have ordered := (cuts a mem).start_lt_stop
  have later := behind b mem'
  obtain ⟨front, old, back, rfl, -, stop, -⟩ := cuts a mem
  rw [byteLength_append _ back] at later
  omega

theorem sorted_cons (ordered : edit.start < edit.stop) (behind : ∀ e ∈ after, edit.stop ≤ e.start) :
    sorted (edit :: after) = edit :: sorted after := by
  have first : sorted ([edit] ++ after) = sorted [edit] ++ sorted after := sorted_append fun a mem b mem' => by
    rw [List.mem_singleton.1 mem]
    exact Nat.lt_of_lt_of_le ordered (behind b mem')
  rwa [show sorted [edit] = [edit] from List.mergeSort_singleton edit] at first

/-- Edits before a dark character settle a beginning of the text there, and leave the rest up to any place behind. -/
theorem exists_front (dark : isLineBlank c = false) (cuts : ∀ e ∈ before, e.Cuts p) :
    ∃ done w x, w ++ x = p ∧ applyAll (p ++ c :: t) before = .ok (done ++ x ++ c :: t) ∧ ∀ rest bs,
      applySorted (p ++ c :: t ++ rest) 0 (sorted before ++ bs) =
        (applySorted (p ++ c :: t ++ rest) (byteLength w) bs).map (done ++ ·) := by
  obtain ⟨done, w, x, split, applied⟩ := exists_settled dark (fun e mem => cuts e (mem_sorted.1 mem)) [] p rfl
  refine ⟨done, w, x, split, ?_, fun rest bs => ?_⟩
  · have here := applied t []
    have dropped : Text.dropBytes? (p ++ c :: t) (byteLength w) = some (x ++ c :: t) := by
      rw [← split, List.append_assoc, Text.dropBytes?_append]
    rw [List.append_nil, applySorted, dropped, Option.getD_some, Except.map, ← List.append_assoc] at here
    exact here
  · rw [List.append_assoc, List.cons_append]
    exact applied (t ++ rest) bs

theorem exists_back {upTo : List Char} (whole : source = upTo ++ rest) (cuts : ∀ e ∈ after, e.Cuts source) :
    ∃ back, applySorted source (byteLength upTo) (sorted after) = .ok back := by
  obtain ⟨back, applied, -⟩ := applySorted_ink_le (fun e mem => cuts e (mem_sorted.1 mem)) upTo rest whole.symm
  exact ⟨back, applied⟩

/-- A part without edits, from a dark character to another, stays as it is. -/
theorem exists_around_kept {d : Char} (dark : isLineBlank c = false) (darkEnd : isLineBlank d = false)
    (ends : part.getLast? = some d) (whole : source = p ++ c :: t ++ part ++ rest)
    (cutsBefore : ∀ e ∈ before, e.Cuts p) (cutsAfter : ∀ e ∈ after, e.Cuts source)
    (behind : ∀ e ∈ after, byteLength (p ++ c :: t ++ part) ≤ e.start) :
    ∃ front back, Around source before after (p ++ c :: t) part front back ∧
      applyAll source (before ++ after) = .ok (front ++ part ++ back) := by
  obtain ⟨init, rfl⟩ : ∃ init, part = init ++ [d] := ⟨_, (List.dropLast_append_getLast? d ends).symm⟩
  have order : sorted (before ++ after) = sorted before ++ sorted after := by
    refine sorted_of_cuts cutsBefore fun e mem => ?_
    have later := behind e mem
    rw [List.append_assoc, byteLength_append] at later
    omega
  obtain ⟨back, applied⟩ := exists_back whole cutsAfter
  obtain ⟨done, w, x, rfl, front, settled⟩ := exists_front (t := t) dark cutsBefore
  refine ⟨_, back, ⟨⟨rest, whole⟩, front, applied⟩, ?_⟩
  have stays : applySorted source (byteLength w) (sorted after) = .ok (x ++ c :: t ++ (init ++ [d]) ++ back) := by
    have same : source = w ++ (x ++ c :: t ++ init) ++ d :: rest := by simp [whole]
    have place : w ++ x ++ c :: t ++ (init ++ [d]) = w ++ (x ++ c :: t ++ init) ++ [d] := by simp
    rw [same, applySorted_behind darkEnd, ← same, ← place, applied]
    · simp [Except.map]
    · exact fun e mem => same ▸ cutsAfter e (mem_sorted.1 mem)
    · exact fun e mem => place ▸ behind e (mem_sorted.1 mem)
  rw [applyAll, order, whole, List.append_assoc _ _ rest, settled, ← List.append_assoc _ _ rest, ← whole, stays]
  simp [Except.map]

/-- A part behind a dark character that an edit replaces, and not its line, is replaced. -/
theorem exists_around_replaced (dark : isLineBlank c = false) (alone : edit.wholeLine = false)
    (start : edit.start = byteLength (p ++ c :: t)) (stop : edit.stop = byteLength (p ++ c :: t ++ part))
    (cuts : edit.Cuts source) (whole : source = p ++ c :: t ++ part ++ rest) (cutsBefore : ∀ e ∈ before, e.Cuts p)
    (cutsAfter : ∀ e ∈ after, e.Cuts source) (behind : ∀ e ∈ after, edit.stop ≤ e.start) :
    ∃ front back, Around source before after (p ++ c :: t) part front back ∧
      applyAll source (before ++ edit :: after) = .ok (front ++ edit.replacement.toList ++ back) := by
  have order : sorted (before ++ edit :: after) = sorted before ++ edit :: sorted after := by
    rw [← sorted_cons cuts.start_lt_stop behind]
    refine sorted_of_cuts cutsBefore fun e mem => ?_
    have here : byteLength p ≤ edit.start := by
      rw [start, byteLength_append]
      omega
    rcases List.mem_cons.1 mem with rfl | mem
    · exact here
    · exact here.trans (cuts.start_lt_stop.le.trans (behind e mem))
  obtain ⟨back, applied⟩ := exists_back whole cutsAfter
  obtain ⟨done, w, x, rfl, front, settled⟩ := exists_front (t := t) dark cutsBefore
  refine ⟨_, back, ⟨⟨rest, whole⟩, front, applied⟩, ?_⟩
  have replaced : applySorted source (byteLength w) (edit :: sorted after) =
      .ok (x ++ c :: t ++ edit.replacement.toList ++ back) := by
    have free : ¬edit.start < byteLength w := by
      rw [start, List.append_assoc, byteLength_append]
      omega
    obtain ⟨startsAt, stopsAt⟩ := cuts.isBoundary
    have between : Text.slice? source (byteLength w) edit.start = some (x ++ c :: t) :=
      Text.slice?_of_append (c := part ++ rest) (by simp [whole]) rfl (by simp [start])
    rw [← stop] at applied
    rw [applySorted, cuts.isDropped_eq, decide_eq_false free, startsAt, stopsAt,
      show edit.range source (byteLength w) = (edit.start, edit.stop) by simp [range, alone]]
    simp only [Bool.not_true, Bool.or_self, Bool.false_eq_true, if_false, applied, between]
    rfl
  rw [applyAll, order, whole, List.append_assoc _ _ rest, settled, ← List.append_assoc _ _ rest, ← whole, replaced]
  simp [Except.map]

/-- A part that begins with a dark character and is removed with its line goes without a trace but blanks around it. -/
theorem exists_around_removed (dark : isLineBlank c = false) (nothing : edit.replacement = "")
    (start : edit.start = byteLength p) (stop : edit.stop = byteLength (p ++ c :: t))
    (cuts : edit.Cuts source) (whole : source = p ++ c :: t ++ rest) (cutsBefore : ∀ e ∈ before, e.Cuts p)
    (cutsAfter : ∀ e ∈ after, e.Cuts source) (behind : ∀ e ∈ after, edit.stop ≤ e.start) :
    ∃ lead trail front back, lead.all isLineBlank = true ∧ trail.all isLineBlank = true ∧
      Around source before after (p ++ c :: t) trail (front ++ lead ++ c :: t) back ∧
      applyAll source (before ++ edit :: after) = .ok (front ++ back) := by
  have order : sorted (before ++ edit :: after) = sorted before ++ edit :: sorted after := by
    rw [← sorted_cons cuts.start_lt_stop behind]
    refine sorted_of_cuts cutsBefore fun e mem => ?_
    rcases List.mem_cons.1 mem with rfl | mem
    · exact start.ge
    · exact start.ge.trans (cuts.start_lt_stop.le.trans (behind e mem))
  obtain ⟨done, w, x, rfl, front, settled⟩ := exists_front (t := t) dark cutsBefore
  have free : byteLength w ≤ edit.start := by
    rw [start, byteLength_append]
    omega
  obtain ⟨a, lead, trail, b, split, rfl, blankLead, blankTrail, low, range⟩ := exists_range rest start stop free
  obtain ⟨mid, rfl⟩ := exists_append_of_byteLength_le split low
  obtain rfl : x = mid ++ lead := by simpa using split
  have ends : source = w ++ (mid ++ lead) ++ c :: t ++ trail ++ b := by simp [whole]
  obtain ⟨back, applied⟩ := exists_back ends cutsAfter
  refine ⟨lead, trail, done ++ mid, back, blankLead, blankTrail, ⟨⟨b, ends⟩, by simpa using front, applied⟩, ?_⟩
  have removed : applySorted source (byteLength w) (edit :: sorted after) = .ok (mid ++ back) := by
    obtain ⟨startsAt, stopsAt⟩ := cuts.isBoundary
    have between : Text.slice? source (byteLength w) (byteLength (w ++ mid)) = some mid :=
      Text.slice?_of_append (c := lead ++ c :: t ++ (trail ++ b)) (by simp [whole]) rfl rfl
    rw [applySorted, cuts.isDropped_eq, decide_eq_false (Nat.not_lt.2 free), startsAt, stopsAt, whole, range, ← whole]
    simp only [Bool.not_true, Bool.or_self, Bool.false_eq_true, if_false, applied, between, nothing]
    exact congrArg Except.ok (by simp)
  rw [applyAll, order, whole, settled, ← whole, removed]
  simp [Except.map]

end Around

end Edit
end FlowScript
