import FlowScript.Proofs.Source.Place
import Mathlib.Data.List.DropRight
import Mathlib.Data.List.GetD

/-!
# Lines and columns

The line of an offset is the number of line feeds before it, the column is the number of characters since the last of
them. Positions are therefore as far apart as their offsets: no two boundaries share one, and the later boundary has the
later line, or the later column of the same line. Counting through the source comes to the same as a search for the offset
in a table of the places where lines start. Spans between offsets are merged by merging the offsets.
-/

namespace FlowScript

namespace Position

/-- Stands on an earlier line, or further left on the same line. -/
def Precedes (p q : Position) : Prop := p.line < q.line ∨ p.line = q.line ∧ p.column < q.column

/-! ## Counting -/

theorem line_foldl_next (text : List Char) : (text.foldl next zero).line = text.count '\n' := by
  induction text using List.reverseRecOn with
  | nil => rfl
  | append_singleton text c ih =>
    by_cases feed : c = '\n' <;> simp [next, feed, ih]

theorem column_foldl_next (text : List Char) :
    (text.foldl next zero).column = (text.rtakeWhile (· ≠ '\n')).length := by
  induction text using List.reverseRecOn with
  | nil => rfl
  | append_singleton text c ih =>
    by_cases feed : c = '\n' <;> simp [next, feed, ih]

/-- The line of an offset counts line feeds, its column the characters since the last of them. -/
theorem lineColumn_append (before after : List Char) :
    lineColumn (before ++ after) (Text.byteLength before) =
      (before.count '\n', (before.rtakeWhile (· ≠ '\n')).length) := by
  have counted := lineColumnFrom_append zero before after 0
  rwa [Nat.add_zero, line_foldl_next, column_foldl_next, lineColumnFrom_zero] at counted

/-- An offset that is no boundary stands on the line of the boundary before it. -/
theorem lineColumn_of_between {before after : List Char} {n : Nat} (behind : 0 < n)
    (within : ∀ c ∈ after.head?, n < c.utf8Size) :
    lineColumn (before ++ after) (Text.byteLength before + n) = (before.count '\n', 0) := by
  have counted := lineColumnFrom_append zero before after n
  obtain ⟨n, rfl⟩ := Nat.exists_eq_succ_of_ne_zero (Nat.ne_of_gt behind)
  rw [line_foldl_next] at counted
  refine Eq.trans counted ?_
  cases after with
  | nil => rfl
  | cons c r =>
    have := within c rfl
    rw [lineColumnFrom, if_neg (by omega)]

/-! ## Order -/

theorem Precedes.trans {p q r : Position} (first : p.Precedes q) (second : q.Precedes r) : p.Precedes r := by
  unfold Precedes at *
  omega

theorem precedes_next (p : Position) (c : Char) : p.Precedes (p.next c) := by
  by_cases feed : c = '\n' <;> simp [Precedes, next, feed]

theorem precedes_foldl_next (p : Position) {text : List Char} (nonempty : text ≠ []) :
    p.Precedes (text.foldl next p) := by
  induction text generalizing p with
  | nil => exact absurd rfl nonempty
  | cons c r ih =>
    rw [List.foldl_cons]
    cases r with
    | nil => exact precedes_next p c
    | cons d s => exact (precedes_next p c).trans (ih (p.next c) (List.cons_ne_nil d s))

theorem precedes_of_lt {source : List Char} {m n : Nat} (hm : Text.isBoundary source m = true)
    (hn : Text.isBoundary source n = true) (first : m < n) : (ofOffset source m).Precedes (ofOffset source n) := by
  obtain ⟨a, b, rfl, rfl⟩ := Text.exists_append_of_isBoundary hm
  obtain ⟨c, d, same, rfl⟩ := Text.exists_append_of_isBoundary hn
  obtain ⟨between, rfl, rfl⟩ | ⟨between, rfl, rfl⟩ := List.append_eq_append_iff.1 same
  · have nonempty : between ≠ [] := by
      rintro rfl
      rw [List.append_nil] at first
      exact Nat.lt_irrefl _ first
    rw [ofOffset_byteLength, same, ofOffset_byteLength, List.foldl_append]
    exact precedes_foldl_next _ nonempty
  · rw [Text.byteLength_append] at first
    omega

theorem precedes_ofOffset_iff {source : List Char} {m n : Nat} (hm : Text.isBoundary source m = true)
    (hn : Text.isBoundary source n = true) : (ofOffset source m).Precedes (ofOffset source n) ↔ m < n := by
  constructor
  · intro first
    rcases Nat.lt_trichotomy m n with before | rfl | behind
    · exact before
    · unfold Precedes at first
      omega
    · have second := precedes_of_lt hn hm behind
      unfold Precedes at first second
      omega
  · exact precedes_of_lt hm hn

end Position

/-! ## A table of line starts -/

namespace LineTable

/-- The places behind the line feeds of a text that stands at an offset. -/
def startsFrom (offset : Nat) : List Char → List Nat
  | [] => []
  | c :: r =>
    if c = '\n' then (offset + c.utf8Size) :: startsFrom (offset + c.utf8Size) r
    else startsFrom (offset + c.utf8Size) r

/-- The places where the lines of a source start. -/
def starts (source : List Char) : Array Nat := (0 :: startsFrom 0 source).toArray

/-- A search in a sorted table between two indices, by halves: the index at which the number stands, or as an error the
    index of the first greater one. -/
def search (table : Array Nat) (sought low high : Nat) : Except Nat Nat :=
  if low < high then
    let middle := (low + high) / 2
    if table.getD middle 0 = sought then .ok middle
    else if table.getD middle 0 < sought then search table sought (middle + 1) high
    else search table sought low middle
  else .error low
termination_by high - low

/-- The line of a sought offset: where a line starts there, that line, else the one before the next. -/
def lineFound : Except Nat Nat → Nat
  | .ok line => line
  | .error next => next - 1

/-- Line and column of an offset, the line found by a search. -/
def lineColumn (source : List Char) (offset : Nat) : Nat × Nat :=
  let table := starts source
  let line := lineFound (search table offset 0 table.size)
  (line, ((Text.slice? source (table.getD line 0) offset).map List.length).getD 0)

/-- A table in which every number is greater than those before it. -/
def Ascending (table : Array Nat) : Prop := ∀ i j, i < j → j < table.size → table.getD i 0 < table.getD j 0

/-- What a search is to come to. -/
def SearchesTo (table : Array Nat) (sought : Nat) : Except Nat Nat → Prop
  | .ok i => i < table.size ∧ table.getD i 0 = sought
  | .error i =>
    i ≤ table.size ∧ (∀ j < i, table.getD j 0 < sought) ∧ ∀ j, i ≤ j → j < table.size → sought < table.getD j 0

/-- What lies outside of the bounds of a search is less before them and greater behind them. -/
theorem searchesTo_search {table : Array Nat} {sought low high : Nat} (ascending : Ascending table) (order : low ≤ high)
    (inside : high ≤ table.size) (less : ∀ j < low, table.getD j 0 < sought)
    (greater : ∀ j, high ≤ j → j < table.size → sought < table.getD j 0) :
    SearchesTo table sought (search table sought low high) := by
  fun_induction search table sought low high with
  | case1 low high more middle here => exact ⟨by omega, here⟩
  | case2 low high more middle other before ih =>
    refine ih (by omega) inside ?_ greater
    intro j first
    rcases Nat.lt_or_eq_of_le (Nat.le_of_lt_succ first) with further | rfl
    · exact Nat.lt_trans (ascending j middle further (by omega)) before
    · exact before
  | case3 low high more middle other behind ih =>
    have beyond : sought < table.getD middle 0 := by omega
    refine ih (by omega) (by omega) less ?_
    intro j later short
    rcases Nat.lt_or_eq_of_le later with further | rfl
    · exact Nat.lt_trans beyond (ascending middle j further short)
    · exact beyond
  | case4 low high done =>
    obtain rfl : low = high := by omega
    exact ⟨inside, less, greater⟩

/-- Where a search leads if the first numbers, and only these, are not greater than the one sought. -/
theorem SearchesTo.lineFound_eq {table : Array Nat} {sought count : Nat} {result : Except Nat Nat}
    (found : SearchesTo table sought result) (ascending : Ascending table) (some : count < table.size)
    (notGreater : ∀ j ≤ count, table.getD j 0 ≤ sought)
    (greater : ∀ j, count < j → j < table.size → sought < table.getD j 0) :
    lineFound result = count := by
  cases result with
  | ok i =>
    obtain ⟨inside, same⟩ := found
    rcases Nat.lt_trichotomy i count with before | here | behind
    · have := ascending i count before some
      have := notGreater count (Nat.le_refl _)
      omega
    · exact here
    · have := greater i behind inside
      omega
  | error i =>
    obtain ⟨inside, less, rest⟩ := found
    have behind : count < i := by
      by_contra early
      have := rest i (Nat.le_refl _) (by omega)
      have := notGreater i (by omega)
      omega
    have next : i ≤ count + 1 := by
      by_contra late
      have := less (count + 1) (by omega)
      have := greater (count + 1) (by omega) (by omega)
      omega
    rw [lineFound]
    omega

theorem startsFrom_append (offset : Nat) (a b : List Char) :
    startsFrom offset (a ++ b) = startsFrom offset a ++ startsFrom (offset + Text.byteLength a) b := by
  induction a generalizing offset with
  | nil => rw [List.nil_append, Text.byteLength, startsFrom, Nat.add_zero, List.nil_append]
  | cons c r ih =>
    rw [List.cons_append, startsFrom, startsFrom, ih, Text.byteLength, Nat.add_assoc]
    split <;> rfl

theorem length_startsFrom (offset : Nat) (text : List Char) :
    (startsFrom offset text).length = text.count '\n' := by
  induction text generalizing offset with
  | nil => rfl
  | cons c r ih =>
    rw [startsFrom]
    by_cases feed : c = '\n' <;> simp [feed, ih]

/-- Lines start behind the first character, and not behind the end. -/
theorem bounds_of_mem_startsFrom {offset x : Nat} {text : List Char} (mem : x ∈ startsFrom offset text) :
    (∃ c ∈ text.head?, offset + c.utf8Size ≤ x) ∧ x ≤ offset + Text.byteLength text := by
  induction text generalizing offset with
  | nil => cases mem
  | cons c r ih =>
    rw [Text.byteLength]
    have later (mem : x ∈ startsFrom (offset + c.utf8Size) r) :
        offset + c.utf8Size ≤ x ∧ x ≤ offset + (c.utf8Size + Text.byteLength r) := by
      obtain ⟨⟨d, -, least⟩, most⟩ := ih mem
      omega
    have bounds : offset + c.utf8Size ≤ x ∧ x ≤ offset + (c.utf8Size + Text.byteLength r) := by
      rw [startsFrom] at mem
      split at mem
      · rcases List.mem_cons.1 mem with rfl | mem
        · omega
        · exact later mem
      · exact later mem
    exact ⟨⟨c, rfl, bounds.1⟩, bounds.2⟩

theorem pairwise_startsFrom (offset : Nat) (text : List Char) : (startsFrom offset text).Pairwise (· < ·) := by
  induction text generalizing offset with
  | nil => exact .nil
  | cons c r ih =>
    rw [startsFrom]
    split
    · refine .cons (fun x mem => ?_) (ih _)
      obtain ⟨⟨d, -, least⟩, -⟩ := bounds_of_mem_startsFrom mem
      have := d.utf8Size_pos
      omega
    · exact ih _

theorem getD_starts (source : List Char) (j : Nat) :
    (starts source).getD j 0 = (0 :: startsFrom 0 source).getD j 0 := by
  rw [starts, Array.getD_eq_getD_getElem?, List.getElem?_toArray, List.getD_eq_getElem?_getD]

theorem size_starts (source : List Char) : (starts source).size = source.count '\n' + 1 := by
  rw [starts, List.size_toArray, List.length_cons, length_startsFrom]

theorem ascending_starts (source : List Char) : Ascending (starts source) := by
  have sorted : (0 :: startsFrom 0 source).Pairwise (· < ·) := by
    refine .cons (fun x mem => ?_) (pairwise_startsFrom 0 source)
    obtain ⟨⟨d, -, least⟩, -⟩ := bounds_of_mem_startsFrom mem
    have := d.utf8Size_pos
    omega
  intro i j first short
  have short' : j < (0 :: startsFrom 0 source).length := short
  rw [getD_starts, getD_starts, List.getD_eq_getElem _ _ short', List.getD_eq_getElem _ _ (first.trans short')]
  exact List.pairwise_iff_getElem.1 sorted i j _ _ first

/-- The last line of a text starts where the table says. -/
theorem exists_lastLine (before : List Char) :
    ∃ front, before = front ++ before.rtakeWhile (· ≠ '\n') ∧
      (0 :: startsFrom 0 before).getD (before.count '\n') 0 = Text.byteLength front := by
  induction before using List.reverseRecOn with
  | nil => exact ⟨[], rfl, rfl⟩
  | append_singleton text c ih =>
    obtain ⟨front, split, start⟩ := ih
    rw [startsFrom_append, Nat.zero_add]
    by_cases feed : c = '\n'
    · subst feed
      refine ⟨text ++ ['\n'], by simp, ?_⟩
      have last : text.count '\n' = (startsFrom 0 text).length := (length_startsFrom 0 text).symm
      simp [startsFrom, last, Text.byteLength_append, Text.byteLength]
    · refine ⟨front, ?_, ?_⟩
      · rw [List.rtakeWhile_concat_pos _ _ _ (by simpa using feed), ← List.append_assoc, ← split]
      · simpa [startsFrom, feed] using start

section
variable {before after : List Char} {n : Nat} (within : ∀ c ∈ after.head?, n < c.utf8Size)
include within

/-- The lines that start in the text before an offset are those that start no later. -/
theorem lineFound_search : lineFound (search (starts (before ++ after)) (Text.byteLength before + n) 0
    (starts (before ++ after)).size) = before.count '\n' := by
  have split : (0 :: startsFrom 0 (before ++ after)) =
      (0 :: startsFrom 0 before) ++ startsFrom (Text.byteLength before) after := by
    rw [startsFrom_append, Nat.zero_add, List.cons_append]
  have length : (0 :: startsFrom 0 before).length = before.count '\n' + 1 := by
    rw [List.length_cons, length_startsFrom]
  refine (searchesTo_search (ascending_starts _) (Nat.zero_le _) (Nat.le_refl _) ?_ ?_).lineFound_eq
    (ascending_starts _) ?_ ?_ ?_
  · intro j early
    omega
  · intro j late short
    omega
  · rw [size_starts, List.count_append]
    omega
  · intro j early
    have short : j < (0 :: startsFrom 0 before).length := by omega
    rw [getD_starts, split, List.getD_append _ _ _ _ short, List.getD_eq_getElem _ _ short]
    rcases List.mem_cons.1 (List.getElem_mem short) with zero | mem
    · omega
    · have := (bounds_of_mem_startsFrom mem).2
      omega
  · intro j late short
    have short' : j < ((0 :: startsFrom 0 before) ++ startsFrom (Text.byteLength before) after).length := by
      rw [← split]
      exact short
    rw [List.length_append] at short'
    have inside : j - (0 :: startsFrom 0 before).length < (startsFrom (Text.byteLength before) after).length := by
      omega
    rw [getD_starts, split, List.getD_append_right _ _ _ _ (by omega), List.getD_eq_getElem _ _ inside]
    obtain ⟨⟨c, head, least⟩, -⟩ := bounds_of_mem_startsFrom (List.getElem_mem inside)
    have := within c head
    omega

theorem lineColumn_append :
    lineColumn (before ++ after) (Text.byteLength before + n) =
      Position.lineColumn (before ++ after) (Text.byteLength before + n) := by
  obtain ⟨front, split, start⟩ := exists_lastLine before
  have start' : (starts (before ++ after)).getD (before.count '\n') 0 = Text.byteLength front := by
    rw [← start, getD_starts, startsFrom_append, ← List.cons_append]
    refine List.getD_append _ _ _ _ ?_
    rw [List.length_cons, length_startsFrom]
    omega
  rw [lineColumn]
  simp only [lineFound_search within, start']
  rcases Nat.eq_zero_or_pos n with rfl | behind
  · have line := Text.slice?_append front (before.rtakeWhile (· ≠ '\n')) after
    rw [← split] at line
    rw [Nat.add_zero, line, Position.lineColumn_append]
    rfl
  · have size : Text.byteLength front + Text.byteLength (before.rtakeWhile (· ≠ '\n')) = Text.byteLength before := by
      rw [← Text.byteLength_append, ← split]
    have cut : Text.slice? (before ++ after) (Text.byteLength front) (Text.byteLength before + n) = none := by
      rw [Text.slice?, if_pos (by omega)]
      nth_rewrite 1 [split]
      rw [List.append_assoc, Text.dropBytes?_append, Option.bind_some, ← size, Nat.add_assoc, Nat.add_sub_cancel_left]
      exact Text.takeBytes?_of_between _ behind within
    rw [cut, Position.lineColumn_of_between behind within]
    rfl

end

/-- A search in the table of line starts finds the line and column that counting gives. -/
theorem lineColumn_eq (source : List Char) (offset : Nat) :
    lineColumn source offset = Position.lineColumn source offset := by
  obtain ⟨before, after, n, rfl, rfl, within⟩ := Text.exists_boundary_before source offset
  exact lineColumn_append within

end LineTable

/-! ## Merging -/

theorem Span.merge_ofOffsets (source : List Char) (a b c d : Nat) :
    (ofOffsets source a b).merge (ofOffsets source c d) = ofOffsets source (min a c) (max b d) := by
  have offset (n : Nat) : (Position.ofOffset source n).offset = n := rfl
  rw [merge, ofOffsets, ofOffsets, ofOffsets]
  simp only [offset]
  congr 1
  · split
    · next first => rw [Nat.min_eq_left first]
    · next first => rw [Nat.min_eq_right (by omega)]
  · split
    · next last => rw [Nat.max_eq_left last]
    · next last => rw [Nat.max_eq_right (by omega)]

/-- At a character boundary the line is the number of line feeds before it and the column the number of characters since
    the last of them, and at every offset a search in a table of line starts finds what counting gives. Boundaries are in
    the order of their positions, and two of them have different positions. Spans of a source are merged by taking the
    lesser start and the greater end, so that their order, grouping and repetition make no difference. -/
theorem lineColumn_exact (source : List Char) :
    (∀ offset, Text.isBoundary source offset = true → ∃ before, Text.takeBytes? source offset = some before ∧
      Position.lineColumn source offset = (before.count '\n', (before.rtakeWhile (· ≠ '\n')).length)) ∧
    (∀ offset, LineTable.lineColumn source offset = Position.lineColumn source offset) ∧
    (∀ m n, Text.isBoundary source m = true → Text.isBoundary source n = true →
      ((Position.ofOffset source m).Precedes (Position.ofOffset source n) ↔ m < n) ∧
      (Position.lineColumn source m = Position.lineColumn source n → m = n)) ∧
    (∀ a b c d, (Span.ofOffsets source a b).merge (Span.ofOffsets source c d) =
      Span.ofOffsets source (min a c) (max b d)) ∧
    ∀ a b c d e f, let x := Span.ofOffsets source a b; let y := Span.ofOffsets source c d
      let z := Span.ofOffsets source e f
      x.merge y = y.merge x ∧ (x.merge y).merge z = x.merge (y.merge z) ∧ x.merge x = x := by
  refine ⟨?_, LineTable.lineColumn_eq source, ?_, Span.merge_ofOffsets source, ?_⟩
  · intro offset boundary
    obtain ⟨before, after, rfl, rfl⟩ := Text.exists_append_of_isBoundary boundary
    exact ⟨before, Text.takeBytes?_append before after, Position.lineColumn_append before after⟩
  · intro m n hm hn
    have order := Position.precedes_ofOffset_iff hm hn
    have order' := Position.precedes_ofOffset_iff hn hm
    refine ⟨order, fun same => ?_⟩
    simp only [Position.Precedes, Position.ofOffset, same] at order order'
    omega
  · intro a b c d e f x y z
    refine ⟨?_, ?_, Span.merge_self x⟩
    · rw [Span.merge_ofOffsets, Span.merge_ofOffsets, Nat.min_comm, Nat.max_comm]
    · simp only [x, y, z, Span.merge_ofOffsets, Nat.min_assoc, Nat.max_assoc]

/-- In a source with a letter of two bytes and an empty line, the end of the first line comes before the end of the last,
    which is one character into line two. -/
theorem lineColumn_exact_emptyLine :
    (∃ before, Text.takeBytes? ['é', '\n', '\n', 'b'] 5 = some before ∧
      Position.lineColumn ['é', '\n', '\n', 'b'] 5 = (before.count '\n', (before.rtakeWhile (· ≠ '\n')).length) ∧
      (before.count '\n', (before.rtakeWhile (· ≠ '\n')).length) = (2, 1)) ∧
    (Position.ofOffset ['é', '\n', '\n', 'b'] 2).Precedes (Position.ofOffset ['é', '\n', '\n', 'b'] 5) := by
  obtain ⟨counted, -, order, -⟩ := lineColumn_exact ['é', '\n', '\n', 'b']
  obtain ⟨before, cut, position⟩ := counted 5 (by decide)
  refine ⟨⟨before, cut, position, ?_⟩, (order 2 5 (by decide) (by decide)).1.2 (by decide)⟩
  rw [← position]
  decide

end FlowScript
