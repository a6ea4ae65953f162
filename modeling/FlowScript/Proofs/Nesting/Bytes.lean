import FlowScript.Proofs.Nesting.Tokens

/-!
# Words, comments and quotes in bytes

The bytes of a text tell where its words, comments and quotes end: all that matters there is ASCII, and the bytes of
other characters count as parts of words. How many bytes each takes is read off here, beyond the end of the text where
a comment or a quote is not closed, and is what the tokens of the text say (`Passes`).
-/

namespace FlowScript.Nesting
open Text (byteLength byteLength_append)
open Token (isWordChar Place scan)

/-- The bytes of a text. -/
def bytes (cs : List Char) : List UInt8 := cs.flatMap String.utf8EncodeChar

/-- Bytes of words. -/
def isWordByte (b : UInt8) : Bool :=
  ('a'.toUInt8 ≤ b && b ≤ 'z'.toUInt8) || ('A'.toUInt8 ≤ b && b ≤ 'Z'.toUInt8) || ('0'.toUInt8 ≤ b && b ≤ '9'.toUInt8)
    || b == '_'.toUInt8 || b == '$'.toUInt8 || 0x80 ≤ b

/-- How many bytes the rest of a word takes. -/
def wordLength (bs : List UInt8) : Nat := (bs.takeWhile isWordByte).length

/-- How many bytes a line comment takes, the line feed left out. -/
def lineLength (bs : List UInt8) : Nat := (bs.takeWhile (· != '\n'.toUInt8)).length

/-- How many bytes the rest of a block comment takes with the mark that closes it. -/
def blockLength : List UInt8 → Nat
  | a :: b :: r => if a = '*'.toUInt8 ∧ b = '/'.toUInt8 then 2 else blockLength (b :: r) + 1
  | _ => 2

/-- How many bytes the rest of a quote takes with its mark; a backslash takes the next byte with it. -/
def quoteLength (mark : UInt8) : List UInt8 → Nat
  | [] => 1
  | b :: r =>
    if b = mark then 1
    else if b = '\\'.toUInt8 then
      match r with
      | [] => 3
      | _ :: r => quoteLength mark r + 2
    else quoteLength mark r + 1

/-! ## Bytes of characters -/

@[simp] theorem bytes_nil : bytes [] = [] := rfl

@[simp] theorem bytes_cons (c : Char) (cs : List Char) : bytes (c :: cs) = String.utf8EncodeChar c ++ bytes cs := rfl

theorem bytes_append (a b : List Char) : bytes (a ++ b) = bytes a ++ bytes b := List.flatMap_append

theorem length_bytes (cs : List Char) : (bytes cs).length = byteLength cs := by
  induction cs with
  | nil => rfl
  | cons c cs ih => rw [bytes_cons, List.length_append, String.length_utf8EncodeChar, ih, byteLength]

theorem utf8EncodeChar_ne_nil (c : Char) : String.utf8EncodeChar c ≠ [] :=
  List.ne_nil_of_length_pos (String.length_utf8EncodeChar c ▸ c.utf8Size_pos)

theorem bytes_cons_ne_nil (c : Char) (cs : List Char) : bytes (c :: cs) ≠ [] :=
  List.append_ne_nil_of_left_ne_nil (utf8EncodeChar_ne_nil c) _

/-- What holds of all ASCII characters one by one. -/
theorem ascii_forall {P : Char → Prop} (each : ∀ n, n < 0x80 → P (Char.ofNat n)) {c : Char} (ascii : c.toNat < 0x80) :
    P c := by
  have := each c.toNat ascii
  rwa [Char.ofNat_toNat] at this

theorem utf8EncodeChar_of_ascii {c : Char} (ascii : c.toNat < 0x80) : String.utf8EncodeChar c = [c.toUInt8] :=
  String.utf8EncodeChar_eq_singleton (Token.utf8Size_of_ascii ascii)

/-- The bytes of a character beyond ASCII are beyond ASCII too. -/
theorem le_of_mem_utf8EncodeChar {c : Char} (beyond : 0x80 ≤ c.toNat) {b : UInt8} (mem : b ∈ String.utf8EncodeChar c) :
    0x80 ≤ b := by
  have value : c.toNat = c.val.toNat := rfl
  have high : ∀ {m k : Nat}, 0x80 ≤ k → k + m ≤ 0x100 → 0 < m → ∀ v, 0x80 ≤ UInt8.ofNat (v % m + k) := by
    intro m k low small pos v
    have := Nat.mod_lt v pos
    rw [UInt8.le_iff_toNat_le, UInt8.toNat_ofNat']
    change 0x80 ≤ (v % m + k) % 256
    omega
  unfold String.utf8EncodeChar at mem
  simp only [← value] at mem
  split_ifs at mem
  · omega
  all_goals
    simp only [List.mem_cons, List.not_mem_nil, or_false] at mem
    rcases mem with rfl | rfl | rfl | rfl <;> exact high (by decide) (by decide) (by decide) _

theorem toUInt8_inj {c d : Char} (asciiC : c.toNat < 0x80) (asciiD : d.toNat < 0x80) : c.toUInt8 = d.toUInt8 ↔ c = d := by
  refine ⟨fun same => Char.toNat_inj.1 ?_, fun same => same ▸ rfl⟩
  have := congrArg UInt8.toNat same
  change c.toNat % 256 = d.toNat % 256 at this
  omega

/-- A byte beyond ASCII is that of no ASCII character. -/
theorem ne_of_le {b : UInt8} {c : Char} (ascii : c.toNat < 0x80) (beyond : 0x80 ≤ b) : b ≠ c.toUInt8 := by
  have high := UInt8.le_iff_toNat_le.1 beyond
  rintro rfl
  change 0x80 ≤ c.toNat % 256 at high
  omega

/-- An ASCII byte is that of no other character. -/
theorem ne_of_mem_utf8EncodeChar {c d : Char} (ascii : d.toNat < 0x80) (other : c ≠ d) {b : UInt8}
    (mem : b ∈ String.utf8EncodeChar c) : b ≠ d.toUInt8 := by
  rcases Nat.lt_or_ge c.toNat 0x80 with asciiC | beyond
  · rw [utf8EncodeChar_of_ascii asciiC, List.mem_singleton] at mem
    rw [mem]
    exact fun same => other ((toUInt8_inj asciiC ascii).1 same)
  · exact ne_of_le ascii (le_of_mem_utf8EncodeChar beyond mem)

theorem isWordByte_eq {c : Char} {b : UInt8} (mem : b ∈ String.utf8EncodeChar c) : isWordByte b = isWordChar c := by
  rcases Nat.lt_or_ge c.toNat 0x80 with ascii | beyond
  · rw [utf8EncodeChar_of_ascii ascii, List.mem_singleton] at mem
    rw [mem]
    exact ascii_forall (P := fun c => isWordByte c.toUInt8 = isWordChar c) (by decide +kernel) ascii
  · rw [isWordByte, isWordChar, decide_eq_true (le_of_mem_utf8EncodeChar beyond mem), decide_eq_true beyond, Bool.or_true,
      Bool.or_true]

/-- The first byte is that of an ASCII character exactly when the first character is that one. -/
theorem head?_bytes {d : Char} (ascii : d.toNat < 0x80) (cs : List Char) :
    (bytes cs).head? = some d.toUInt8 ↔ cs.head? = some d := by
  cases cs with
  | nil => simp
  | cons c cs =>
    by_cases same : c = d
    · simp [same, utf8EncodeChar_of_ascii ascii]
    · obtain ⟨b, bs, first⟩ := List.exists_cons_of_ne_nil (utf8EncodeChar_ne_nil c)
      have other := ne_of_mem_utf8EncodeChar ascii same (first ▸ List.mem_cons_self)
      simp [first, same, other]

/-- Counting characters and counting bytes come to the same when both are told apart in the same way. -/
theorem length_takeWhile_bytes {p : UInt8 → Bool} {q : Char → Bool}
    (agree : ∀ c, ∀ b ∈ String.utf8EncodeChar c, p b = q c) (cs : List Char) :
    ((bytes cs).takeWhile p).length = byteLength (cs.takeWhile q) := by
  induction cs with
  | nil => rfl
  | cons c cs ih =>
    rw [bytes_cons, List.takeWhile_cons]
    cases holds : q c with
    | true =>
      have all : ∀ b ∈ String.utf8EncodeChar c, p b = true := fun b mem => (agree c b mem).trans holds
      rw [List.takeWhile_append_of_pos all, List.length_append, String.length_utf8EncodeChar, ih, if_pos rfl, byteLength]
    | false =>
      obtain ⟨b, bs, first⟩ := List.exists_cons_of_ne_nil (utf8EncodeChar_ne_nil c)
      have stops : p b = false := (agree c b (first ▸ List.mem_cons_self)).trans holds
      rw [first, List.cons_append, List.takeWhile_cons_of_neg (by simp [stops]), if_neg Bool.false_ne_true]
      rfl

/-! ## Passing over a part -/

/-- Reading a text from an offset passes over so many bytes and goes on in code behind them, or passes over the end of
    the text and finds no token. -/
def Passes (cs : List Char) (read : Nat → List Token) (length : Nat) : Prop :=
  (∃ mid rest, cs = mid ++ rest ∧ length = byteLength mid ∧ ∀ n, read n = scan .code rest (n + length)) ∨
  (byteLength cs < length ∧ ∀ n, read n = [])

/-- A part in front is passed over with the rest. -/
theorem Passes.append {cs : List Char} {read : Nat → List Token} {length : Nat} (h : Passes cs read length)
    (part : List Char) {readAll : Nat → List Token} (later : ∀ n, readAll n = read (n + byteLength part)) :
    Passes (part ++ cs) readAll (length + byteLength part) := by
  rcases h with ⟨mid, rest, rfl, rfl, reads⟩ | ⟨beyond, reads⟩
  · refine .inl ⟨part ++ mid, rest, (List.append_assoc ..).symm, ?_, fun n => ?_⟩
    · rw [byteLength_append, Nat.add_comm]
    · rw [later, reads, Nat.add_assoc, Nat.add_comm (byteLength part)]
  · refine .inr ⟨?_, fun n => ?_⟩
    · rw [byteLength_append, Nat.add_comm]
      exact Nat.add_lt_add_right beyond _
    · rw [later, reads]

theorem Passes.cons {cs : List Char} {read : Nat → List Token} {length : Nat} (h : Passes cs read length) (c : Char)
    {readAll : Nat → List Token} (later : ∀ n, readAll n = read (n + c.utf8Size)) :
    Passes (c :: cs) readAll (length + c.utf8Size) :=
  h.append [c] later

theorem passes_word (cs : List Char) : Passes cs (scan .word cs) (wordLength (bytes cs)) := by
  have counted : wordLength (bytes cs) = byteLength (cs.takeWhile isWordChar) :=
    length_takeWhile_bytes (fun _ _ mem => isWordByte_eq mem) cs
  rw [counted]
  clear counted
  induction cs with
  | nil => exact .inl ⟨[], [], rfl, rfl, fun n => by rw [scan, scan]⟩
  | cons c cs ih =>
    cases word : isWordChar c with
    | true =>
      rw [List.takeWhile_cons_of_pos word, byteLength, Nat.add_comm]
      exact ih.cons _ fun n => by rw [scan, if_pos word]
    | false =>
      have other : ¬ isWordChar c = true := by simp [word]
      rw [List.takeWhile_cons_of_neg other]
      exact .inl ⟨[], c :: cs, rfl, rfl, fun n => by rw [scan, scan, if_neg other, if_neg other]; rfl⟩

theorem passes_lineComment (cs : List Char) : Passes cs (scan .lineComment cs) (lineLength (bytes cs)) := by
  have counted : lineLength (bytes cs) = byteLength (cs.takeWhile (· != '\n')) := by
    refine length_takeWhile_bytes (fun c b mem => ?_) cs
    by_cases feed : c = '\n'
    · subst feed
      rw [utf8EncodeChar_of_ascii (by decide), List.mem_singleton] at mem
      rw [mem]
      decide
    · have := ne_of_mem_utf8EncodeChar (by decide) feed mem
      rw [bne_iff_ne.2 feed, bne_iff_ne.2 this]
  rw [counted]
  clear counted
  induction cs with
  | nil => exact .inl ⟨[], [], rfl, rfl, fun n => by rw [scan, scan]⟩
  | cons c cs ih =>
    by_cases feed : c = '\n'
    · subst feed
      exact .inl ⟨[], '\n' :: cs, rfl, rfl, fun n => rfl⟩
    · rw [List.takeWhile_cons_of_pos (by simpa using feed), byteLength, Nat.add_comm]
      exact ih.cons _ fun n => by rw [scan, if_neg feed]

/-- Bytes that begin no closing mark are passed over one by one. -/
theorem blockLength_append {bs r : List UInt8} (plain : ∀ b ∈ bs, b ≠ '*'.toUInt8) (more : r ≠ []) :
    blockLength (bs ++ r) = blockLength r + bs.length := by
  induction bs with
  | nil => rfl
  | cons b bs ih =>
    obtain ⟨d, ds, tail⟩ := List.exists_cons_of_ne_nil (List.append_ne_nil_of_right_ne_nil bs more)
    have rest := ih fun b mem => plain b (List.mem_cons_of_mem _ mem)
    rw [List.cons_append, tail, blockLength, if_neg fun ends => plain b List.mem_cons_self ends.1, ← tail, rest,
      List.length_cons, Nat.add_assoc]

theorem length_lt_blockLength {bs : List UInt8} (plain : ∀ b ∈ bs, b ≠ '*'.toUInt8) : bs.length < blockLength bs := by
  induction bs with
  | nil => decide
  | cons b bs ih =>
    cases bs with
    | nil => exact Nat.lt_succ_self 1
    | cons d ds =>
      have rest := ih fun b mem => plain b (List.mem_cons_of_mem _ mem)
      rw [blockLength, if_neg fun ends => plain b List.mem_cons_self ends.1, List.length_cons]
      omega

theorem passes_blockComment (cs : List Char) : Passes cs (scan .blockComment cs) (blockLength (bytes cs)) := by
  induction cs with
  | nil => exact .inr ⟨by decide, fun n => by rw [scan]⟩
  | cons c cs ih =>
    by_cases star : c = '*'
    · subst star
      have encoded : bytes ('*' :: cs) = '*'.toUInt8 :: bytes cs := rfl
      cases cs with
      | nil => exact .inr ⟨by decide, fun n => by simp [scan]⟩
      | cons d ds =>
        by_cases slash : d = '/'
        · subst slash
          exact .inl ⟨['*', '/'], ds, rfl, rfl, fun n => rfl⟩
        · have goes : ¬ (d :: ds).head? = some '/' := by simpa using slash
          have length : blockLength (bytes ('*' :: d :: ds)) = blockLength (bytes (d :: ds)) + 1 := by
            have some_ : (bytes (d :: ds)).head? ≠ some '/'.toUInt8 := fun at_ => goes ((head?_bytes (by decide) _).1 at_)
            rw [encoded]
            cases tail : bytes (d :: ds) with
            | nil => exact absurd tail (bytes_cons_ne_nil d ds)
            | cons b bs =>
              rw [tail] at some_
              rw [blockLength, if_neg fun ends => some_ (congrArg some ends.2)]
          rw [length]
          exact ih.cons _ fun n => by rw [scan, if_neg fun ends => goes ends.2]
    · have plain : ∀ b ∈ String.utf8EncodeChar c, b ≠ '*'.toUInt8 := fun b mem =>
        ne_of_mem_utf8EncodeChar (by decide) star mem
      have keeps : ∀ n, scan .blockComment (c :: cs) n = scan .blockComment cs (n + c.utf8Size) := fun n => by
        rw [scan, if_neg fun ends => star ends.1]
      cases cs with
      | nil =>
        refine .inr ⟨?_, fun n => by rw [keeps, scan]⟩
        have := length_lt_blockLength plain
        rwa [bytes_cons, bytes_nil, List.append_nil, ← length_bytes, bytes_cons, bytes_nil, List.append_nil]
      | cons d ds =>
        rw [bytes_cons, blockLength_append plain (bytes_cons_ne_nil d ds), String.length_utf8EncodeChar]
        exact ih.cons _ keeps

theorem quoteLength_mark (mark : UInt8) (bs : List UInt8) : quoteLength mark (mark :: bs) = 1 := by
  rw [quoteLength.eq_def]
  exact if_pos rfl

theorem quoteLength_cons {mark b : UInt8} (other : b ≠ mark) (plain : b ≠ '\\'.toUInt8) (bs : List UInt8) :
    quoteLength mark (b :: bs) = quoteLength mark bs + 1 := by
  rw [quoteLength.eq_def]
  exact (if_neg other).trans (if_neg plain)

theorem quoteLength_escape {mark : UInt8} (other : '\\'.toUInt8 ≠ mark) (b : UInt8) (bs : List UInt8) :
    quoteLength mark ('\\'.toUInt8 :: b :: bs) = quoteLength mark bs + 2 := by
  rw [quoteLength.eq_def]
  exact (if_neg other).trans (if_pos rfl)

/-- Bytes that neither close a quote nor escape are passed over one by one. -/
theorem quoteLength_append {mark : UInt8} {bs : List UInt8} (plain : ∀ b ∈ bs, b ≠ mark ∧ b ≠ '\\'.toUInt8)
    (r : List UInt8) : quoteLength mark (bs ++ r) = quoteLength mark r + bs.length := by
  induction bs with
  | nil => rfl
  | cons b bs ih =>
    have first := plain b List.mem_cons_self
    rw [List.cons_append, quoteLength_cons first.1 first.2, ih fun b mem => plain b (List.mem_cons_of_mem _ mem),
      List.length_cons, Nat.add_assoc]

/-- The byte behind a backslash is the first of a character, and the others of that character end no quote. -/
theorem quoteLength_bytes_escape {mark : Char} (ascii : mark.toNat < 0x80) (other : mark ≠ '\\') (c : Char)
    (cs : List Char) :
    quoteLength mark.toUInt8 (bytes ('\\' :: c :: cs)) = quoteLength mark.toUInt8 (bytes cs) + byteLength ['\\', c] := by
  obtain ⟨b, bs, all⟩ := List.exists_cons_of_ne_nil (utf8EncodeChar_ne_nil c)
  have size : bs.length + 1 = c.utf8Size := by rw [← String.length_utf8EncodeChar, all, List.length_cons]
  have plain : ∀ d ∈ bs, d ≠ mark.toUInt8 ∧ d ≠ '\\'.toUInt8 := by
    intro d mem
    have beyond : 0x80 ≤ c.toNat := by
      refine Nat.le_of_not_lt fun asciiC => ?_
      rw [utf8EncodeChar_of_ascii asciiC] at all
      rw [← (List.cons.inj all).2] at mem
      exact List.not_mem_nil mem
    have high := le_of_mem_utf8EncodeChar beyond (all ▸ List.mem_cons_of_mem b mem)
    exact ⟨ne_of_le ascii high, ne_of_le (by decide) high⟩
  have encoded : bytes ('\\' :: c :: cs) = '\\'.toUInt8 :: b :: (bs ++ bytes cs) := by
    rw [bytes_cons, bytes_cons, all]
    rfl
  rw [encoded, quoteLength_escape fun same => other ((toUInt8_inj (by decide) ascii).1 same).symm,
    quoteLength_append plain, byteLength, byteLength, ← size]
  have : '\\'.utf8Size = 1 := rfl
  rw [this, byteLength]
  omega

theorem passes_quote {mark : Char} (ascii : mark.toNat < 0x80) (other : mark ≠ '\\') (cs : List Char) :
    Passes cs (scan (.quote mark) cs) (quoteLength mark.toUInt8 (bytes cs)) := by
  -- a backslash takes two characters at once, so the induction is on the length
  induction size : cs.length using Nat.strongRecOn generalizing cs with
  | ind n ih =>
    rcases cs with _ | ⟨c, cs⟩
    · exact .inr ⟨Nat.one_pos, fun n => by rw [scan]⟩
    rw [List.length_cons] at size
    by_cases ends : c = mark
    · subst ends
      have encoded : bytes (c :: cs) = c.toUInt8 :: bytes cs := by
        rw [bytes_cons, utf8EncodeChar_of_ascii ascii, List.singleton_append]
      have one := Token.utf8Size_of_ascii ascii
      rw [encoded, quoteLength_mark]
      exact .inl ⟨[c], cs, rfl, by rw [byteLength, byteLength, one], fun n => by rw [scan, if_pos rfl, one]⟩
    by_cases escape : c = '\\'
    · subst escape
      rcases cs with _ | ⟨c, cs⟩
      · refine .inr ⟨?_, fun n => by rw [scan, if_neg ends, if_pos rfl, scan]⟩
        have differs : '\\'.toUInt8 ≠ mark.toUInt8 := fun same => ends ((toUInt8_inj (by decide) ascii).1 same)
        have length : quoteLength mark.toUInt8 (bytes ['\\']) = 3 := (if_neg differs).trans (if_pos rfl)
        rw [length]
        decide
      · rw [List.length_cons] at size
        rw [quoteLength_bytes_escape ascii other]
        refine (ih cs.length (by omega) cs rfl).append ['\\', c] fun n => ?_
        rw [scan, if_neg ends, if_pos rfl, scan, Nat.add_assoc]
        rfl
    · have plain : ∀ b ∈ String.utf8EncodeChar c, b ≠ mark.toUInt8 ∧ b ≠ '\\'.toUInt8 := fun b mem =>
        ⟨ne_of_mem_utf8EncodeChar ascii ends mem, ne_of_mem_utf8EncodeChar (by decide) escape mem⟩
      rw [bytes_cons, quoteLength_append plain, String.length_utf8EncodeChar]
      exact (ih cs.length (by omega) cs rfl).cons _ fun n => by rw [scan, if_neg ends, if_neg escape]

end FlowScript.Nesting
