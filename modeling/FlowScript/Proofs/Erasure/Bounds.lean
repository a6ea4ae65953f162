import FlowScript.Proofs.Erasure.FixedPoint

/-!
# Erasing takes no slice out of range

Applying edits looks at the source through slices: of what it keeps, and of the lines around an edit that goes with its
line. `applyChecked?` gives up where one of them is out of range, and it never does, whatever the edits are
(`applyChecked?_eq`). The edits that reading a source finds lie in it besides, so erasing a source fails only where
reading it fails.
-/

namespace FlowScript
open Text (byteLength byteLength_append)

namespace Edit

/-- The edit lies in the source: its ends are character boundaries in order. -/
structure InRange (source : List Char) (edit : Edit) : Prop where
  ordered : edit.start ≤ edit.stop
  stop_le : edit.stop ≤ byteLength source
  start_boundary : Text.isBoundary source edit.start = true
  stop_boundary : Text.isBoundary source edit.stop = true

theorem Cuts.inRange {source : List Char} {edit : Edit} (cuts : edit.Cuts source) : edit.InRange source := by
  obtain ⟨startsAt, stopsAt⟩ := cuts.isBoundary
  obtain ⟨before, old, after, rfl, start, stop, -⟩ := cuts
  refine ⟨?_, ?_, startsAt, stopsAt⟩
  · rw [start, stop, byteLength_append]
    omega
  · rw [stop, byteLength_append (before ++ old)]
    omega

/-- The source around an edit that lies in it. -/
theorem InRange.exists_append {source : List Char} {edit : Edit} (h : edit.InRange source) :
    ∃ before old after, source = before ++ old ++ after ∧ edit.start = byteLength before ∧
      edit.stop = byteLength (before ++ old) := by
  obtain ⟨before, rest, whole, start⟩ := Text.exists_append_of_isBoundary h.start_boundary
  obtain ⟨upTo, after, same, stop⟩ := Text.exists_append_of_isBoundary h.stop_boundary
  have ordered := h.ordered
  rw [start, stop] at ordered
  obtain ⟨old, rfl⟩ := exists_append_of_byteLength_le (whole.symm.trans same) ordered
  exact ⟨before, old, after, same, start, stop⟩

/-- An edit that is not left out lies in the source, if its ends are character boundaries. -/
theorem inRange_of_isDropped {source : List Char} {edit : Edit} {cursor : Nat}
    (kept : edit.isDropped source cursor = false) (starts : Text.isBoundary source edit.start = true)
    (stops : Text.isBoundary source edit.stop = true) : cursor ≤ edit.start ∧ edit.InRange source := by
  simp only [isDropped, Bool.or_eq_false_iff, decide_eq_false_iff_not, Nat.not_lt] at kept
  obtain ⟨⟨free, inside⟩, ordered⟩ := kept
  exact ⟨free, ordered, inside, starts, stops⟩

/-! ## Checked slices -/

/-- The range of an edit, if no slice that is looked at to find it is out of range. -/
def rangeChecked? (edit : Edit) (source : List Char) (floor : Nat) : Option (Nat × Nat) :=
  if edit.wholeLine then do
    let before ← Text.slice? source 0 edit.start
    let after ← Text.slice? source edit.stop (byteLength source)
    let lineStart := byteLength (Source.splitLastLine before).1
    let lineStop := edit.stop + byteLength (firstLine after)
    let leading ← Text.slice? source (max lineStart floor) edit.start
    let trailing ← Text.slice? source edit.stop lineStop
    return if floor ≤ lineStart && leading.all isLineBlank && trailing.all isLineBlank then (lineStart, lineStop)
      else (edit.start, edit.stop)
  else some (edit.start, edit.stop)

/-- The source from `cursor` on with sorted edits applied, if no slice on the way is out of range. -/
def applyChecked? (source : List Char) : (cursor : Nat) → List Edit → Option (Except RangeError (List Char))
  | cursor, [] => do return .ok (← Text.slice? source cursor (byteLength source))
  | cursor, edit :: edits =>
    if edit.isDropped source cursor then applyChecked? source cursor edits
    else if !Text.isBoundary source edit.start || !Text.isBoundary source edit.stop then
      some (.error ⟨edit.start, edit.stop⟩)
    else do
      let (start, stop) ← edit.rangeChecked? source cursor
      let kept ← Text.slice? source cursor start
      let rest ← applyChecked? source stop edits
      return rest.map fun rest => kept ++ edit.replacement.toList ++ rest

theorem rangeChecked?_eq {edit : Edit} {p q : List Char} (inside : edit.InRange (p ++ q))
    (free : byteLength p ≤ edit.start) :
    edit.rangeChecked? (p ++ q) (byteLength p) = some (edit.range (p ++ q) (byteLength p)) := by
  unfold rangeChecked? range
  split
  · obtain ⟨before, old, after, whole, start, stop⟩ := inside.exists_append
    have line := Source.splitLastLine_append before
    obtain ⟨behind, ends⟩ := firstLine_isPrefix after
    have taken : Text.takeBytes? (p ++ q) edit.start = some before := by
      rw [whole, start, List.append_assoc, Text.takeBytes?_append]
    have dropped : Text.dropBytes? (p ++ q) edit.stop = some after := by
      rw [whole, stop, Text.dropBytes?_append]
    have slicedBefore : Text.slice? (p ++ q) 0 edit.start = some before :=
      Text.slice?_of_append (a := []) (c := old ++ after) (by simp [whole]) rfl start
    have slicedAfter : Text.slice? (p ++ q) edit.stop (byteLength (p ++ q)) = some after :=
      Text.slice?_of_append (c := []) (by simp [whole]) stop (by rw [whole])
    simp only [taken, dropped, slicedBefore, slicedAfter, Option.getD_some, Option.bind_eq_bind, Option.bind_some]
    generalize (Source.splitLastLine before).1 = upTo at line ⊢
    generalize (Source.splitLastLine before).2 = leading at line ⊢
    generalize firstLine after = trailing at ends ⊢
    subst line ends
    have lineStart : edit.start - byteLength leading = byteLength upTo := by
      rw [start, byteLength_append, Nat.add_sub_cancel]
    have slicedTrailing : Text.slice? (p ++ q) edit.stop (edit.stop + byteLength trailing) = some trailing :=
      Text.slice?_of_append (c := behind) (by simp [whole]) stop (by rw [stop, byteLength_append (_ ++ old)])
    rw [lineStart, slicedTrailing]
    by_cases low : byteLength p ≤ byteLength upTo
    · have slicedLeading : Text.slice? (p ++ q) (byteLength upTo) edit.start = some leading :=
        Text.slice?_of_append (c := old ++ (trailing ++ behind)) (by simp [whole]) rfl start
      rw [max_eq_left low, slicedLeading]
      rfl
    · rw [start] at free
      obtain ⟨tail, same⟩ := exists_append_of_byteLength_le (whole.trans (List.append_assoc _ old _)) free
      have slicedLeading : Text.slice? (p ++ q) (byteLength p) edit.start = some tail :=
        Text.slice?_of_append (c := old ++ (trailing ++ behind)) (by rw [whole, same]; simp) rfl (by rw [start, same])
      rw [max_eq_right (Nat.le_of_not_le low), slicedLeading]
      simp [low]
  · rfl

/-- No slice is out of range, whatever the edits are. -/
theorem applyChecked?_eq {source : List Char} (edits : List Edit) : ∀ p q, p ++ q = source →
    applyChecked? source (byteLength p) edits = some (applySorted source (byteLength p) edits) := by
  induction edits with
  | nil =>
    rintro p q rfl
    rw [applyChecked?, Text.slice?_of_append (b := q) (c := []) (by simp) rfl rfl, applySorted, Text.dropBytes?_append]
    rfl
  | cons edit edits ih =>
    rintro p q rfl
    rw [applyChecked?, applySorted]
    cases dropped : edit.isDropped (p ++ q) (byteLength p) with
    | true => exact ih p q rfl
    | false =>
      cases misses : !Text.isBoundary (p ++ q) edit.start || !Text.isBoundary (p ++ q) edit.stop with
      | true => rfl
      | false =>
        obtain ⟨starts, stops⟩ := Bool.or_eq_false_iff.1 misses
        obtain ⟨free, inside⟩ := inRange_of_isDropped dropped (by simpa using starts) (by simpa using stops)
        obtain ⟨before, old, after, whole, start, stop⟩ := inside.exists_append
        obtain ⟨a, wide, b, same, range, low, -⟩ := range_covers after start stop free
        rw [← whole] at same range
        obtain ⟨mid, rfl⟩ := exists_append_of_byteLength_le (same.trans (List.append_assoc a wide b)) low
        have between : Text.slice? (p ++ q) (byteLength p) (byteLength (p ++ mid)) = some mid :=
          Text.slice?_of_append (c := wide ++ b) (by simp [same]) rfl rfl
        rw [rangeChecked?_eq inside free, range]
        simp only [Bool.false_eq_true, if_false, Option.bind_eq_bind, Option.bind_some, between,
          ih (p ++ mid ++ wide) b same.symm, Option.getD_some]
        cases applySorted (p ++ q) (byteLength (p ++ mid ++ wide)) edits <;> rfl

end Edit

/-! ## Sources that are read -/

/-- A source that is read is erased: its edits lie in it, and no slice on the way is out of range. So erasing fails only
    where reading does, and never for a range. -/
theorem tryEraseTypes_fails_only_unread (source : String) :
    (∀ m, parseModule source = .ok m →
      (∀ e ∈ m.typeEdits, e.InRange source.toList) ∧
        Edit.applyChecked? source.toList 0 (Edit.sorted m.typeEdits) = some (.ok (eraseTypes source).toList) ∧
        tryEraseTypes source = .ok (eraseTypes source)) ∧
      ((∃ e, tryEraseTypes source = .error e) ↔ ∃ e, parseModule source = .error e) ∧
      ∀ e, tryEraseTypes source ≠ .error (.range e) := by
  have erased : ∀ m, parseModule source = .ok m → ∃ text, Edit.applyAll source.toList m.typeEdits = .ok text ∧
      tryEraseTypes source = .ok (String.ofList text) := by
    intro m read
    obtain ⟨text, applied, -⟩ := Edit.applyAll_ink (typeEdits_cut read)
    exact ⟨text, applied, by simp only [tryEraseTypes, read, applied]⟩
  refine ⟨fun m read => ⟨fun e mem => (typeEdits_cut read e mem).inRange, ?_⟩, ?_, ?_⟩
  · obtain ⟨text, applied, success⟩ := erased m read
    have text_eq : eraseTypes source = String.ofList text := by rw [eraseTypes, success]
    rw [text_eq, String.toList_ofList]
    refine ⟨?_, success⟩
    rw [← applied]
    exact Edit.applyChecked?_eq _ [] _ rfl
  · cases read : parseModule source with
    | error e => simp [tryEraseTypes, read]
    | ok m =>
      obtain ⟨text, -, success⟩ := erased m read
      simp [success]
  · intro e failed
    cases read : parseModule source with
    | error e => simp [tryEraseTypes, read] at failed
    | ok m =>
      obtain ⟨text, -, success⟩ := erased m read
      simp [success] at failed

set_option maxRecDepth 100000 in
theorem tryEraseTypes_fails_only_unread_twoTypes :
    ∃ m, parseModule "type A = 'é'\nlet x: A" = .ok m ∧ m.typeEdits.length = 2 ∧
      (∀ e ∈ m.typeEdits, e.InRange "type A = 'é'\nlet x: A".toList) ∧
      tryEraseTypes "type A = 'é'\nlet x: A" = .ok (eraseTypes "type A = 'é'\nlet x: A") := by
  have two : (parseModule "type A = 'é'\nlet x: A").toOption.map (·.typeEdits.length) = some 2 := by decide +kernel
  obtain ⟨m, read, two⟩ := exists_of_toOption_map two
  obtain ⟨inRange, -, erased⟩ := (tryEraseTypes_fails_only_unread "type A = 'é'\nlet x: A").1 m read
  exact ⟨m, read, two, inRange, erased⟩

end FlowScript
