import FlowScript.Text.Entity
import Mathlib.Data.List.Basic

/-!
# Entities are read back

An entity is a name between `&` and `;`. Reading replaces every entity by its character and leaves all other text as it is.
A written text keeps no character that means something in markup, apart from the `&` that begins an entity, so nothing in
it can be read in two ways: reading gives back the text that was written, also where that text looks written already. The
texts without such characters are exactly the written ones.
-/

namespace FlowScript.Text.Entity

/-- The characters that mean something in markup, each with the name of its entity. -/
def table : List (Char × List Char) :=
  [('&', "amp".toList), ('<', "lt".toList), ('>', "gt".toList), ('\x22', "quot".toList), ('\x27', "#039".toList)]

/-- The characters that mean something in markup. -/
def marks : List Char := table.map Prod.fst

/-- The entity of a name. -/
def ofName (name : List Char) : List Char := '&' :: (name ++ [';'])

/-! ## Reading -/

/-- What the entity of a name stands for: its character, or itself if it has none. -/
def meaningOf (name : List Char) : List Char :=
  match table.find? (·.2 = name) with
  | some entry => [entry.1]
  | none => ofName name

/-- What written text stands for, read on from outside of an entity, or from inside of one of whose name a part is read. -/
def decodeFrom : Option (List Char) → List Char → List Char
  | none, [] => []
  | some name, [] => '&' :: name
  | none, c :: r => if c = '&' then decodeFrom (some []) r else c :: decodeFrom none r
  | some name, c :: r => if c = ';' then meaningOf name ++ decodeFrom none r else decodeFrom (some (name ++ [c])) r

/-- What a written text stands for. -/
def decode (written : String) : String := String.ofList (decodeFrom none written.toList)

/-! ## Characters and their entities -/

section
variable {c : Char} {name cs : List Char}

theorem listed_or_not_mem (c : Char) : (∃ name, (c, name) ∈ table) ∨ c ∉ marks := by
  by_cases marked : c ∈ marks
  · obtain ⟨⟨c, name⟩, listed, rfl⟩ := List.mem_map.1 marked
    exact .inl ⟨name, listed⟩
  · exact .inr marked

theorem not_mem_marks_iff : c ∉ marks ↔ c ≠ '&' ∧ c ∉ ['<', '>', '\x22', '\x27'] := by
  simp [marks, table]

theorem ofChar_of_listed (listed : (c, name) ∈ table) : ofChar c = ofName name := by
  have each : ∀ entry ∈ table, ofChar entry.1 = ofName entry.2 := by decide
  exact each _ listed

theorem ofChar_of_not_mem (unmarked : c ∉ marks) : ofChar c = [c] := by
  simp only [not_mem_marks_iff, List.mem_cons, List.not_mem_nil, or_false, not_or] at unmarked
  simp [ofChar, unmarked]

theorem ofChar_ne_nil (c : Char) : ofChar c ≠ [] := by
  rcases listed_or_not_mem c with ⟨name, listed⟩ | unmarked
  · rw [ofChar_of_listed listed]
    exact List.cons_ne_nil _ _
  · rw [ofChar_of_not_mem unmarked]
    exact List.cons_ne_nil _ _

theorem meaningOf_of_listed (listed : (c, name) ∈ table) : meaningOf name = [c] := by
  have each : ∀ entry ∈ table, meaningOf entry.2 = [entry.1] := by decide
  exact each _ listed

/-- The end of a name is seen, and behind `&` nothing of an entity means something in markup. -/
theorem clear_of_listed (listed : (c, name) ∈ table) : ';' ∉ name ∧ ∀ d ∈ name ++ [';'], d ∉ marks := by
  -- `all` goes through the characters of a name, where a statement on characters would go through all that there are
  have each : ∀ entry ∈ table, ';' ∉ entry.2 ∧ (entry.2 ++ [';']).all (· ∉ marks) := by decide
  obtain ⟨closed, clear⟩ := each _ listed
  exact ⟨closed, by simpa only [List.all_eq_true, decide_eq_true_eq] using clear⟩

/-! ## Reading what is written -/

theorem decodeFrom_name (closed : ';' ∉ name) (read rest : List Char) :
    decodeFrom (some read) (name ++ ';' :: rest) = meaningOf (read ++ name) ++ decodeFrom none rest := by
  induction name generalizing read with
  | nil => rw [List.nil_append, List.append_nil, decodeFrom, if_pos rfl]
  | cons d ds ih =>
    obtain ⟨other, closed⟩ : d ≠ ';' ∧ ';' ∉ ds := by simpa [eq_comm] using closed
    rw [List.cons_append, decodeFrom, if_neg other, ih closed, List.append_assoc, List.singleton_append]

/-- Reading how a character is written gives the character and goes on right behind it. -/
theorem decodeFrom_ofChar (c : Char) (rest : List Char) :
    decodeFrom none (ofChar c ++ rest) = c :: decodeFrom none rest := by
  rcases listed_or_not_mem c with ⟨name, listed⟩ | unmarked
  · have written : ofChar c ++ rest = '&' :: (name ++ ';' :: rest) := by simp [ofChar_of_listed listed, ofName]
    rw [written, decodeFrom, if_pos rfl, decodeFrom_name (clear_of_listed listed).1, List.nil_append,
      meaningOf_of_listed listed, List.singleton_append]
  · rw [ofChar_of_not_mem unmarked, List.singleton_append, decodeFrom, if_neg (not_mem_marks_iff.1 unmarked).1]

theorem decodeFrom_flatMap (cs : List Char) : decodeFrom none (cs.flatMap ofChar) = cs := by
  induction cs with
  | nil => rfl
  | cons c cs ih => rw [List.flatMap_cons, decodeFrom_ofChar, ih]

theorem decode_encode (text : String) : decode (encode text) = text := by
  rw [decode, encode, String.toList_ofList, decodeFrom_flatMap, String.ofList_toList]

/-! ## What is written -/

/-- Text in which nothing but entities means something in markup: it has no angle brackets and no quotes, and wherever `&`
    stands, an entity begins. -/
structure Inert (cs : List Char) : Prop where
  bare : ∀ c ∈ ['<', '>', '\x22', '\x27'], c ∉ cs
  entity : ∀ rest, '&' :: rest <:+ cs → ∃ entry ∈ table, ofName entry.2 <+: '&' :: rest

theorem inert_nil : Inert [] := ⟨fun _ _ => List.not_mem_nil, fun _ ends => absurd (List.suffix_nil.1 ends) nofun⟩

/-- What a character in front of a text has to meet. -/
theorem inert_cons_iff : Inert (c :: cs) ↔
    c ∉ ['<', '>', '\x22', '\x27'] ∧ (c = '&' → ∃ entry ∈ table, ofName entry.2 <+: c :: cs) ∧ Inert cs := by
  constructor
  · rintro ⟨bare, entity⟩
    refine ⟨fun mark => bare c mark (List.mem_cons_self ..), ?_, ?_, ?_⟩
    · rintro rfl
      exact entity cs (List.suffix_refl _)
    · exact fun d mark mem => bare d mark (List.mem_cons_of_mem _ mem)
    · exact fun rest ends => entity rest (ends.trans (List.suffix_cons c cs))
  · rintro ⟨first, begins, ⟨bare, entity⟩⟩
    refine ⟨fun d mark mem => ?_, fun rest ends => ?_⟩
    · rcases List.mem_cons.1 mem with rfl | mem
      · exact first mark
      · exact bare d mark mem
    · rcases List.suffix_cons_iff.1 ends with whole | ends
      · obtain ⟨rfl, rfl⟩ := List.cons.inj whole
        exact begins rfl
      · exact entity rest ends

/-- Characters that mean nothing in markup make no difference. -/
theorem inert_append_iff {text : List Char} (clear : ∀ d ∈ text, d ∉ marks) : Inert (text ++ cs) ↔ Inert cs := by
  induction text with
  | nil => rfl
  | cons d ds ih =>
    obtain ⟨first, others⟩ := List.forall_mem_cons.1 clear
    obtain ⟨other, bare⟩ := not_mem_marks_iff.1 first
    rw [List.cons_append, inert_cons_iff, ih others]
    exact ⟨fun inert => inert.2.2, fun inert => ⟨bare, fun amp => absurd amp other, inert⟩⟩

/-- How a character is written makes no difference either. -/
theorem inert_ofChar_append_iff : Inert (ofChar c ++ cs) ↔ Inert cs := by
  rcases listed_or_not_mem c with ⟨name, listed⟩ | unmarked
  · have begins : ∃ entry ∈ table, ofName entry.2 <+: '&' :: ((name ++ [';']) ++ cs) :=
      ⟨(c, name), listed, List.prefix_append (ofName name) cs⟩
    rw [ofChar_of_listed listed, ofName, List.cons_append, inert_cons_iff, inert_append_iff (clear_of_listed listed).2]
    exact ⟨fun inert => inert.2.2, fun inert => ⟨by decide, fun _ => begins, inert⟩⟩
  · rw [ofChar_of_not_mem unmarked]
    exact inert_append_iff (List.forall_mem_singleton.2 unmarked)

theorem inert_flatMap (cs : List Char) : Inert (cs.flatMap ofChar) := by
  induction cs with
  | nil => exact inert_nil
  | cons c cs ih => exact inert_ofChar_append_iff.2 ih

/-- Inert text begins with a character as it is written. -/
theorem Inert.exists_ofChar {d : Char} (inert : Inert (d :: cs)) : ∃ c rest, d :: cs = ofChar c ++ rest := by
  obtain ⟨bare, begins, -⟩ := inert_cons_iff.1 inert
  by_cases amp : d = '&'
  · obtain ⟨⟨c, name⟩, listed, rest, whole⟩ := begins amp
    exact ⟨c, rest, by rw [ofChar_of_listed listed, whole]⟩
  · have unmarked : d ∉ marks := not_mem_marks_iff.2 ⟨amp, bare⟩
    exact ⟨d, cs, by rw [ofChar_of_not_mem unmarked, List.singleton_append]⟩

/-- Inert text is written text. -/
theorem Inert.exists_flatMap (inert : Inert cs) : ∃ text : List Char, text.flatMap ofChar = cs := by
  -- an entity is taken as a whole, so the induction is on the length and not on the characters
  induction size : cs.length using Nat.strongRecOn generalizing cs with
  | ind n ih =>
    cases cs with
    | nil => exact ⟨[], rfl⟩
    | cons d ds =>
      obtain ⟨c, rest, whole⟩ := inert.exists_ofChar
      have first := List.length_pos_of_ne_nil (ofChar_ne_nil c)
      rw [whole] at inert size
      have shorter : rest.length < n := by
        rw [List.length_append] at size
        omega
      obtain ⟨text, written⟩ := ih rest.length shorter (inert_ofChar_append_iff.1 inert) rfl
      exact ⟨c :: text, by rw [List.flatMap_cons, written, whole]⟩

end

/-- A written text is read back as what was written, so no two texts are written alike. The written texts are those in which
    no angle bracket and no quote occurs and every `&` begins one of the entities. -/
theorem encode_injective_onto_inert :
    (∀ text, decode (encode text) = text) ∧ Function.Injective encode ∧
    ∀ written : String, (∃ text, encode text = written) ↔ Inert written.toList := by
  refine ⟨decode_encode, Function.LeftInverse.injective decode_encode, fun written => ⟨?_, fun inert => ?_⟩⟩
  · rintro ⟨text, rfl⟩
    rw [encode, String.toList_ofList]
    exact inert_flatMap text.toList
  · obtain ⟨text, whole⟩ := inert.exists_flatMap
    exact ⟨String.ofList text, by rw [encode, String.toList_ofList, whole, String.ofList_toList]⟩

/-- A text that looks written already and ends inside of an entity. -/
example : encode "&lt; &am" = "&amp;lt; &amp;am" ∧ decode "&amp;lt; &amp;am" = "&lt; &am" := by decide +kernel

end FlowScript.Text.Entity
