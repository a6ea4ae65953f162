import FlowScript.Proofs.Text.Ink
import FlowScript.Source.Trailing

/-!
# What is left without trailing trivia

Cutting trivia off the end of a text leaves a beginning of it, and where the text begins with a token, that beginning
has at least the token's first character. Where the text up to its last token does not look like trivia at its end
(`Clear`), all of it is left.
-/

namespace FlowScript.Source

theorem beforeLast?_isPrefix {mark text before : List Char} (h : beforeLast? mark text = some before) :
    before <+: text := by
  induction text generalizing before with
  | nil => cases h
  | cons c r ih =>
    unfold beforeLast? at h
    split at h
    · rename_i rest found
      cases h
      exact List.cons_prefix_cons.2 ⟨rfl, ih found⟩
    · split at h <;> cases h
      exact List.nil_prefix

theorem beforeLineComment?_isPrefix {quote : Option Char} {text before : List Char}
    (h : beforeLineComment? quote text = some before) : before <+: text := by
  fun_induction beforeLineComment? quote text generalizing before with
  | case1 => cases h
  | case2 => cases h
  | case3 mark d r ih =>
    obtain ⟨b, found, rfl⟩ := Option.map_eq_some_iff.1 h
    exact List.cons_prefix_cons.2 ⟨rfl, List.cons_prefix_cons.2 ⟨rfl, ih found⟩⟩
  | case4 mark c d r _ ih | case5 c d r _ ih | case7 c d r _ _ ih =>
    obtain ⟨b, found, rfl⟩ := Option.map_eq_some_iff.1 h
    exact List.cons_prefix_cons.2 ⟨rfl, ih found⟩
  | case6 c d r _ _ =>
    cases h
    exact List.nil_prefix

theorem exists_of_beforeLastLineComment? {text before : List Char} (h : beforeLastLineComment? text = some before) :
    ∃ b, beforeLineComment? none (splitLastLine text).2 = some b ∧ before = (splitLastLine text).1 ++ b := by
  obtain ⟨b, found, rfl⟩ := Option.map_eq_some_iff.1 h
  exact ⟨b, found, rfl⟩

theorem beforeLastLineComment?_isPrefix {text before : List Char} (h : beforeLastLineComment? text = some before) :
    before <+: text := by
  obtain ⟨b, found, rfl⟩ := exists_of_beforeLastLineComment? h
  have joined := splitLastLine_append text
  calc (splitLastLine text).1 ++ b
      <+: (splitLastLine text).1 ++ (splitLastLine text).2 :=
        (List.prefix_append_right_inj _).2 (beforeLineComment?_isPrefix found)
    _ = text := joined

theorem beforeComment?_isPrefix {text before : List Char} (h : beforeComment? text = some before) : before <+: text := by
  unfold beforeComment? at h
  split at h
  · exact beforeLast?_isPrefix h
  · exact beforeLastLineComment?_isPrefix h

theorem dropTrivia_isPrefix (text : List Char) : dropTrivia text <+: text := by
  induction text using dropTrivia.induct with
  | case1 text before found ih =>
    rw [dropTrivia, found]
    exact ih.trans ((beforeComment?_isPrefix found).trans (Text.trimEnd_isPrefix text))
  | case2 text none =>
    rw [dropTrivia, none]
    exact Text.trimEnd_isPrefix text

/-! ## A token at the front -/

theorem beforeLineComment?_ne_nil {quote : Option Char} {c : Char} {r before : List Char} (token : c ≠ '/')
    (h : beforeLineComment? quote (c :: r) = some before) : before ≠ [] := by
  unfold beforeLineComment? at h
  split at h
  · cases h
  · cases h
  · rename_i mark c' d r' same
    split at h
    all_goals
      obtain ⟨b, -, rfl⟩ := Option.map_eq_some_iff.1 h
      exact List.cons_ne_nil _ _
  · rename_i c' d r' same
    obtain ⟨rfl, -⟩ := List.cons.inj same
    split at h
    · obtain ⟨b, -, rfl⟩ := Option.map_eq_some_iff.1 h
      exact List.cons_ne_nil _ _
    · split at h
      · rename_i mark
        exact absurd mark.1 token
      · obtain ⟨b, -, rfl⟩ := Option.map_eq_some_iff.1 h
        exact List.cons_ne_nil _ _

theorem beforeComment?_ne_nil {c : Char} {r before : List Char} (token : c ≠ '/')
    (h : beforeComment? (c :: r) = some before) : before ≠ [] := by
  unfold beforeComment? at h
  split at h
  · unfold beforeLast? at h
    split at h
    · cases h
      exact List.cons_ne_nil _ _
    · simp [token.symm] at h
  · obtain ⟨b, found, rfl⟩ := exists_of_beforeLastLineComment? h
    intro nothing
    obtain ⟨first, rest⟩ := List.append_eq_nil_iff.1 nothing
    have joined := splitLastLine_append (c :: r)
    rw [first, List.nil_append] at joined
    rw [joined] at found
    exact beforeLineComment?_ne_nil token found rest

/-- A text that begins with a token keeps the token's first character. -/
theorem dropTrivia_cons {c : Char} (token : c ≠ '/') (dark : Text.isBlank c = false) (r : List Char) :
    ∃ s, dropTrivia (c :: r) = c :: s := by
  generalize whole : c :: r = text
  induction text using dropTrivia.induct generalizing r with
  | case1 text before found ih =>
    rw [dropTrivia, found]
    subst whole
    rw [Text.trimEnd_cons_of_not_isBlank dark] at found
    obtain ⟨d, s, rfl⟩ := List.exists_cons_of_ne_nil (beforeComment?_ne_nil token found)
    obtain ⟨rfl, -⟩ := List.cons_prefix_cons.1 (beforeComment?_isPrefix found)
    exact ih s rfl
  | case2 text none =>
    rw [dropTrivia, none]
    subst whole
    exact ⟨_, Text.trimEnd_cons_of_not_isBlank dark r⟩

/-! ## A token at the end -/

/-- No comment begins with the last character of the first text and the first one of the second. -/
def Apart (a b : List Char) : Prop :=
  a.getLast? = some '/' → ∀ c, b.head? = some c → c ≠ '/' ∧ c ≠ '*'

theorem Apart.of_suffix {a a' b : List Char} (h : Apart a b) (shorter : a' <:+ a) : Apart a' b := by
  intro slash
  obtain ⟨lead, rfl⟩ := shorter
  exact h (by rw [List.getLast?_append, slash]; rfl)

theorem Apart.of_cons {c : Char} {a b : List Char} (h : Apart (c :: a) b) : Apart a b :=
  h.of_suffix (List.suffix_cons c a)

theorem Apart.of_prefix {a b b' : List Char} (h : Apart a b) (shorter : b' <+: b) : Apart a b' := by
  intro slash c first
  refine h slash c ?_
  obtain ⟨rest, rfl⟩ := shorter
  rw [List.head?_append, first]
  rfl

theorem beforeLast?_append {a b : List Char} (none : ¬['/', '*'] <:+: a) (apart : Apart a b) :
    beforeLast? ['/', '*'] (a ++ b) = (beforeLast? ['/', '*'] b).map (a ++ ·) := by
  induction a with
  | nil => simp
  | cons c r ih =>
    have rest := ih (fun inside => none (List.infix_cons inside)) apart.of_cons
    have opens : ¬['/', '*'] <+: c :: (r ++ b) := by
      intro mark
      obtain ⟨rfl, second⟩ := List.cons_prefix_cons.1 mark
      cases r with
      | nil =>
        obtain ⟨tail, rfl⟩ := second
        exact (apart rfl '*' rfl).2 rfl
      | cons d s =>
        obtain ⟨rfl, -⟩ := List.cons_prefix_cons.1 second
        exact none ⟨[], s, rfl⟩
    rw [List.cons_append, beforeLast?, rest]
    cases beforeLast? ['/', '*'] b with
    | some before => rfl
    | none => simpa using opens

/-- Unless a comment opens there, the first character of a line is kept. -/
theorem beforeLineComment?_cons {quote : Option Char} {c : Char} {r before : List Char} (apart : Apart [c] r)
    (h : beforeLineComment? quote (c :: r) = some before) : [c] <+: before := by
  cases r with
  | nil => cases quote <;> cases h
  | cons d s =>
    have opens : ¬(c = '/' ∧ d = '/') := by
      rintro ⟨rfl, rfl⟩
      exact (apart rfl '/' rfl).1 rfl
    cases quote with
    | none =>
      rw [beforeLineComment?, if_neg opens] at h
      split at h
      all_goals
        obtain ⟨b, -, rfl⟩ := Option.map_eq_some_iff.1 h
        exact ⟨b, rfl⟩
    | some mark =>
      rw [beforeLineComment?] at h
      split at h
      all_goals
        obtain ⟨b, -, rfl⟩ := Option.map_eq_some_iff.1 h
        exact ⟨_, rfl⟩

theorem beforeLineComment?_append {quote : Option Char} {a b before : List Char}
    (none : beforeLineComment? quote a = none) (apart : Apart a b)
    (h : beforeLineComment? quote (a ++ b) = some before) : a <+: before := by
  fun_induction beforeLineComment? quote a generalizing before with
  | case1 => exact List.nil_prefix
  | case2 quote c => exact beforeLineComment?_cons apart h
  | case3 mark d r ih =>
    rw [List.cons_append, List.cons_append, beforeLineComment?, if_pos rfl] at h
    obtain ⟨rest, found, rfl⟩ := Option.map_eq_some_iff.1 h
    have kept := ih (Option.map_eq_none_iff.1 none) apart.of_cons.of_cons found
    exact List.cons_prefix_cons.2 ⟨rfl, List.cons_prefix_cons.2 ⟨rfl, kept⟩⟩
  | case4 mark c d r plain ih =>
    rw [List.cons_append, List.cons_append, beforeLineComment?, if_neg plain] at h
    obtain ⟨rest, found, rfl⟩ := Option.map_eq_some_iff.1 h
    exact List.cons_prefix_cons.2 ⟨rfl, ih (Option.map_eq_none_iff.1 none) apart.of_cons found⟩
  | case5 c d r opens ih =>
    rw [List.cons_append, List.cons_append, beforeLineComment?, if_pos opens] at h
    obtain ⟨rest, found, rfl⟩ := Option.map_eq_some_iff.1 h
    exact List.cons_prefix_cons.2 ⟨rfl, ih (Option.map_eq_none_iff.1 none) apart.of_cons found⟩
  | case6 => cases none
  | case7 c d r plain other ih =>
    rw [List.cons_append, List.cons_append, beforeLineComment?, if_neg plain, if_neg other] at h
    obtain ⟨rest, found, rfl⟩ := Option.map_eq_some_iff.1 h
    exact List.cons_prefix_cons.2 ⟨rfl, ih (Option.map_eq_none_iff.1 none) apart.of_cons found⟩

theorem splitLastLine_of_not_mem {text : List Char} (line : '\n' ∉ text) : splitLastLine text = ([], text) := by
  induction text with
  | nil => rfl
  | cons c r ih =>
    obtain ⟨first, rest⟩ := not_or.1 (mt List.mem_cons.2 line)
    rw [splitLastLine, ih rest]
    simp [Ne.symm first]

theorem splitLastLine_fst_ne_nil {text : List Char} (line : '\n' ∈ text) : (splitLastLine text).1 ≠ [] := by
  induction text with
  | nil => cases line
  | cons c r ih =>
    rw [splitLastLine]
    rcases List.mem_cons.1 line with rfl | rest
    · split <;> simp
    · have more := ih rest
      split
      · rename_i same
        exact absurd (by rw [same]) more
      · exact List.cons_ne_nil _ _

theorem splitLastLine_append_of_mem (a : List Char) {b : List Char} (line : '\n' ∈ b) :
    splitLastLine (a ++ b) = (a ++ (splitLastLine b).1, (splitLastLine b).2) := by
  induction a with
  | nil => rfl
  | cons c r ih =>
    rw [List.cons_append, splitLastLine, ih]
    have more : r ++ (splitLastLine b).1 ≠ [] := by simp [splitLastLine_fst_ne_nil line]
    split
    · rename_i same
      exact absurd (congrArg Prod.fst same) more
    · rename_i same
      cases same
      rfl

theorem splitLastLine_append_of_not_mem (a : List Char) {b : List Char} (line : '\n' ∉ b) :
    splitLastLine (a ++ b) = ((splitLastLine a).1, (splitLastLine a).2 ++ b) := by
  induction a with
  | nil => exact splitLastLine_of_not_mem line
  | cons c r ih =>
    rw [List.cons_append, splitLastLine, ih, splitLastLine]
    obtain ⟨before, last⟩ := splitLastLine r
    cases before with
    | nil => by_cases first : c = '\n' <;> simp [first]
    | cons d s => rfl

/-- A text in which no comment is seen: it opens no block comment, and has no line comment on its last line. -/
structure Clear (text : List Char) : Prop where
  no_block : ¬['/', '*'] <:+: text
  no_line : beforeLastLineComment? text = none

theorem beforeLastLineComment?_append {a b before : List Char} (none : beforeLastLineComment? a = none)
    (apart : Apart a b) (h : beforeLastLineComment? (a ++ b) = some before) : a <+: before := by
  obtain ⟨last, found, rfl⟩ := exists_of_beforeLastLineComment? h
  by_cases line : '\n' ∈ b
  · rw [splitLastLine_append_of_mem a line, List.append_assoc]
    exact List.prefix_append ..
  · rw [splitLastLine_append_of_not_mem a line] at found ⊢
    have kept : (splitLastLine a).2 <+: last := by
      refine beforeLineComment?_append (Option.map_eq_none_iff.1 none) (apart.of_suffix ?_) found
      exact ⟨_, splitLastLine_append a⟩
    calc a = (splitLastLine a).1 ++ (splitLastLine a).2 := (splitLastLine_append a).symm
      _ <+: (splitLastLine a).1 ++ last := (List.prefix_append_right_inj _).2 kept

theorem beforeComment?_append {a b before : List Char} (clear : Clear a) (apart : Apart a b)
    (h : beforeComment? (a ++ b) = some before) : a <+: before := by
  unfold beforeComment? at h
  split at h
  · rw [beforeLast?_append clear.no_block apart] at h
    obtain ⟨rest, -, rfl⟩ := Option.map_eq_some_iff.1 h
    exact List.prefix_append ..
  · exact beforeLastLineComment?_append clear.no_line apart h

/-- A clear text that does not end in a blank is kept as a whole, whatever is cut off behind it. -/
theorem isPrefix_dropTrivia {solid gap : List Char} (dark : ∀ c, solid.getLast? = some c → Text.isBlank c = false)
    (clear : Clear solid) (apart : Apart solid gap) : solid <+: dropTrivia (solid ++ gap) := by
  generalize whole : solid ++ gap = text
  induction text using dropTrivia.induct generalizing gap with
  | case1 text before found ih =>
    rw [dropTrivia, found]
    subst whole
    rw [Text.trimEnd_append dark] at found
    have shorter := apart.of_prefix (Text.trimEnd_isPrefix gap)
    obtain ⟨gap', rfl⟩ := beforeComment?_append clear shorter found
    have rest := (List.prefix_append_right_inj _).1 (beforeComment?_isPrefix found)
    exact ih (shorter.of_prefix rest) rfl
  | case2 text none =>
    rw [dropTrivia, none]
    subst whole
    rw [Text.trimEnd_append dark]
    exact List.prefix_append ..

/-- Behind which only blanks stand, a text is kept as it is exactly when no comment is seen at its end. -/
theorem dropTrivia_append_blanks {solid gap : List Char}
    (dark : ∀ c, solid.getLast? = some c → Text.isBlank c = false) (blank : gap.all Text.isBlank = true) :
    dropTrivia (solid ++ gap) = solid ↔ beforeComment? solid = none := by
  have trimmed : Text.trimEnd (solid ++ gap) = solid := by
    rw [Text.trimEnd_append dark, Text.trimEnd_eq_nil_of_all blank, List.append_nil]
  rw [dropTrivia, trimmed]
  cases found : beforeComment? solid with
  | none => simp
  | some before =>
    have less := beforeComment?_length found
    have le := (dropTrivia_isPrefix before).length_le
    simp only [reduceCtorEq, iff_false]
    intro same
    rw [same] at le
    omega

end FlowScript.Source
