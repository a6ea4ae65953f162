import FlowScript.Text.Slice

/-!
# Cutting at the end of a prefix

Cutting a text after as many bytes as a prefix has gives that prefix and the rest, and a text can be cut nowhere else.
-/

namespace FlowScript.Text

theorem byteLength_eq_zero {cs : List Char} : byteLength cs = 0 ↔ cs = [] := by
  cases cs with
  | nil => simp [byteLength]
  | cons c r =>
    have := c.utf8Size_pos
    simp [byteLength]
    omega

theorem dropBytes?_cons (c : Char) (r : List Char) (n : Nat) :
    dropBytes? (c :: r) (c.utf8Size + n) = dropBytes? r n := by
  obtain ⟨k, size⟩ : ∃ k, c.utf8Size + n = k + 1 := ⟨c.utf8Size + n - 1, by have := c.utf8Size_pos; omega⟩
  rw [size, dropBytes?, if_pos (by omega), ← size, Nat.add_sub_cancel_left]

theorem takeBytes?_cons (c : Char) (r : List Char) (n : Nat) :
    takeBytes? (c :: r) (c.utf8Size + n) = (takeBytes? r n).map (c :: ·) := by
  obtain ⟨k, size⟩ : ∃ k, c.utf8Size + n = k + 1 := ⟨c.utf8Size + n - 1, by have := c.utf8Size_pos; omega⟩
  rw [size, takeBytes?, if_pos (by omega), ← size, Nat.add_sub_cancel_left]

theorem dropBytes?_append (a b : List Char) : dropBytes? (a ++ b) (byteLength a) = some b := by
  induction a with
  | nil => simp [byteLength]
  | cons c r ih => rw [byteLength, List.cons_append, dropBytes?_cons, ih]

theorem takeBytes?_append (a b : List Char) : takeBytes? (a ++ b) (byteLength a) = some a := by
  induction a with
  | nil => simp [byteLength]
  | cons c r ih =>
    rw [byteLength, List.cons_append, takeBytes?_cons, ih]
    rfl

/-- A text cannot be cut inside the character behind a beginning of it, nor behind its end. -/
theorem takeBytes?_of_between (a : List Char) {b : List Char} {n : Nat} (behind : 0 < n)
    (within : ∀ c ∈ b.head?, n < c.utf8Size) : takeBytes? (a ++ b) (byteLength a + n) = none := by
  induction a with
  | nil =>
    rw [List.nil_append, byteLength, Nat.zero_add]
    obtain ⟨n, rfl⟩ := Nat.exists_eq_succ_of_ne_zero (Nat.ne_of_gt behind)
    cases b with
    | nil => rfl
    | cons c r =>
      have := within c rfl
      rw [takeBytes?, if_neg (by omega)]
  | cons c r ih =>
    rw [byteLength, List.cons_append, Nat.add_assoc, takeBytes?_cons, ih]
    rfl

theorem isBoundary_append (a b : List Char) : isBoundary (a ++ b) (byteLength a) = true := by
  rw [isBoundary, dropBytes?_append]
  rfl

theorem slice?_append (a b c : List Char) :
    slice? (a ++ b ++ c) (byteLength a) (byteLength (a ++ b)) = some b := by
  rw [slice?, if_pos (by rw [byteLength_append]; omega), List.append_assoc, dropBytes?_append, Option.bind_some,
    byteLength_append, Nat.add_sub_cancel_left, takeBytes?_append]

theorem slice?_of_append {source a b c : List Char} (whole : source = a ++ b ++ c) {m n : Nat} (start : m = byteLength a)
    (stop : n = byteLength (a ++ b)) : slice? source m n = some b := by
  rw [whole, start, stop, slice?_append]

/-- A character boundary is the end of a beginning of the text. -/
theorem exists_append_of_isBoundary {cs : List Char} {n : Nat} (h : isBoundary cs n = true) :
    ∃ a b, cs = a ++ b ∧ n = byteLength a := by
  induction cs generalizing n with
  | nil =>
    cases n with
    | zero => exact ⟨[], [], rfl, rfl⟩
    | succ n => cases h
  | cons c r ih =>
    cases n with
    | zero => exact ⟨[], c :: r, rfl, rfl⟩
    | succ n =>
      rw [isBoundary, dropBytes?] at h
      split at h
      · rename_i fits
        obtain ⟨a, b, rfl, size⟩ := ih h
        exact ⟨c :: a, b, rfl, by rw [byteLength, ← size]; omega⟩
      · cases h

/-- Every offset is a character boundary, or stands between one and the next. -/
theorem exists_boundary_before (cs : List Char) (offset : Nat) :
    ∃ a b n, cs = a ++ b ∧ offset = byteLength a + n ∧ ∀ c ∈ b.head?, n < c.utf8Size := by
  induction cs generalizing offset with
  | nil => exact ⟨[], [], offset, rfl, (Nat.zero_add _).symm, by simp⟩
  | cons c r ih =>
    by_cases inside : offset < c.utf8Size
    · exact ⟨[], c :: r, offset, rfl, (Nat.zero_add _).symm, by simpa using inside⟩
    · obtain ⟨a, b, n, rfl, size, within⟩ := ih (offset - c.utf8Size)
      refine ⟨c :: a, b, n, rfl, ?_, within⟩
      rw [byteLength]
      omega

end FlowScript.Text
