import FlowScript.Parse.Module
import FlowScript.Proofs.Nesting.Bytes
import FlowScript.Proofs.Nesting.Weight

/-!
# A pass over the bytes of a source

One pass over the bytes bounds the nesting without keeping the tokens: it goes from index to index and adds up what the
open brackets keep as it goes. Each round takes at least one byte, the sum is always that of the levels, so what a
closing bracket takes off it is in it, and the pass refuses a source where the accounting of its tokens does.
-/

namespace FlowScript.Nesting
open Text (byteLength byteLength_append)
open Token (isWordChar scan)

/-- Bytes of digits. -/
def isDigitByte (b : UInt8) : Bool := '0'.toUInt8 ≤ b && b ≤ '9'.toUInt8

/-- The token that a byte of code begins which is part of no word, and its length. -/
def ofByte (b : UInt8) (r : List UInt8) : TokenKind × Nat :=
  if b = '('.toUInt8 ∨ b = '['.toUInt8 ∨ b = '\x7b'.toUInt8 then (.opening, 1)
  else if b = ')'.toUInt8 ∨ b = ']'.toUInt8 then (.closing false, 1)
  else if b = '\x7d'.toUInt8 then (.closing true, 1)
  else if b = ';'.toUInt8 then (.semicolon, 1)
  else if b = '?'.toUInt8 then
    if r.head? = some '?'.toUInt8 then (.other, 2)
    else if r.head? = some '.'.toUInt8 ∧ r.tail.head?.any isDigitByte = false then (.other, 2)
    else (.question, 1)
  else if b = '='.toUInt8 ∧ r.head? = some '>'.toUInt8 then (.arrow, 2)
  else if b = '\x22'.toUInt8 ∨ b = '\x27'.toUInt8 ∨ b = '\x60'.toUInt8 then (.other, quoteLength b r + 1)
  else (.other, 1)

/-- What one round of the pass reads. -/
inductive Reading
  | lineBreak
  /-- A blank or a comment. -/
  | gap (length : Nat)
  | token (kind : TokenKind) (length : Nat)

/-- What is read at a byte, with the bytes behind it; `text` gives the text of so many bytes. -/
def Reading.ofBytes (text : Nat → List Char) (b : UInt8) (r : List UInt8) : Reading :=
  if b = '\n'.toUInt8 then .lineBreak
  else if b = ' '.toUInt8 ∨ b = '\t'.toUInt8 ∨ b = '\r'.toUInt8 then .gap 1
  else if b = '/'.toUInt8 ∧ r.head? = some '/'.toUInt8 then .gap (lineLength (b :: r))
  else if b = '/'.toUInt8 ∧ r.head? = some '*'.toUInt8 then .gap (blockLength r.tail + 2)
  else if isWordByte b then .token (.word (text (wordLength (b :: r)))) (wordLength (b :: r))
  else .token (ofByte b r).1 (ofByte b r).2

/-- What is read at an index; nothing at the end of the source. -/
def Reading.at? (source : List Char) (i : Nat) : Option Reading :=
  match (bytes source).drop i with
  | [] => none
  | b :: r => some (ofBytes (fun length => (Text.slice? source i (i + length)).getD []) b r)

/-- The pass at one point. -/
structure Pass extends State where
  index : Nat
  /-- What `levels` keeps, added up along the way. -/
  saved : Nat

/-- How many bytes are passed over. -/
def Reading.length : Reading → Nat
  | lineBreak => 1
  | gap length | token _ length => length

theorem Reading.length_pos {source : List Char} {i : Nat} {reading : Reading} (at_ : at? source i = some reading) :
    0 < reading.length ∧ i < byteLength source := by
  rw [at?] at at_
  cases left : (bytes source).drop i with
  | nil => rw [left] at at_; cases at_
  | cons b r =>
    rw [left] at at_
    cases at_
    have inside := congrArg List.length left
    rw [List.length_drop, length_bytes, List.length_cons] at inside
    refine ⟨?_, by omega⟩
    unfold ofBytes
    split_ifs with feed blank line block word
    · exact Nat.one_pos
    · exact Nat.one_pos
    · rw [length, lineLength, line.1]
      exact Nat.succ_pos _
    · exact Nat.succ_pos _
    · rw [length, wordLength, List.takeWhile_cons_of_pos word]
      exact Nat.succ_pos _
    · unfold ofByte
      split_ifs <;> exact Nat.succ_pos _

/-- What comes of one round. -/
inductive Outcome
  | ended
  | refused (start stop : Nat)
  | goesOn (p : Pass)

namespace Pass

def start : Pass := ⟨.start, 0, 0⟩

/-- The pass knows the weight without adding up the levels again. -/
def weight (p : Pass) : Nat := p.levels.length + p.saved + p.chain

/-- Accounts for one token: an opening bracket adds the nesting it keeps to the sum, a closing one takes off what the
    last open one kept. -/
def account (p : Pass) (kind : TokenKind) : Pass where
  toState := p.toState.step kind
  index := p.index
  saved :=
    match kind, p.levels with
    | .opening, _ => p.saved + p.chain
    | .closing _, outer :: _ => p.saved - outer
    | _, _ => p.saved

/-- Moves the index. -/
def skip (p : Pass) (length : Nat) : Pass := { p with index := p.index + length }

/-- What is read is accounted for and passed over. -/
def take (source : List Char) (p : Pass) : Reading → Outcome
  | .lineBreak => .goesOn ((p.account .lineBreak).skip 1)
  | .gap length => .goesOn (p.skip length)
  | .token kind length =>
    if limit < (p.account kind).weight then .refused p.index (min (p.index + length) (byteLength source))
    else .goesOn ((p.account kind).skip length)

/-- One round. -/
def round (source : List Char) (p : Pass) : Outcome :=
  match Reading.at? source p.index with
  | none => .ended
  | some reading => p.take source reading

/-- A round that goes on accounts for what is read, or for nothing, and passes over it. -/
theorem exists_of_goesOn {source : List Char} {p q : Pass} (goes : p.round source = .goesOn q) :
    ∃ reading r, Reading.at? source p.index = some reading ∧ q = skip r reading.length ∧
      (r = p ∨ ∃ kind, r = p.account kind) := by
  rw [round] at goes
  cases at_ : Reading.at? source p.index with
  | none => rw [at_] at goes; cases goes
  | some reading =>
    rw [at_] at goes
    cases reading with
    | lineBreak => cases goes; exact ⟨_, _, rfl, rfl, .inr ⟨_, rfl⟩⟩
    | gap length => cases goes; exact ⟨_, _, rfl, rfl, .inl rfl⟩
    | token kind length =>
      dsimp only [take] at goes
      split_ifs at goes
      cases goes
      exact ⟨_, _, rfl, rfl, .inr ⟨_, rfl⟩⟩

/-- A round that goes on takes at least one byte. -/
theorem index_lt_of_round {source : List Char} {p q : Pass} (goes : p.round source = .goesOn q) :
    p.index < q.index ∧ p.index < byteLength source := by
  obtain ⟨reading, r, at_, rfl, accounted⟩ := exists_of_goesOn goes
  obtain ⟨some_, inside⟩ := Reading.length_pos at_
  have index : r.index = p.index := by
    rcases accounted with rfl | ⟨kind, rfl⟩ <;> rfl
  refine ⟨?_, inside⟩
  rw [skip, index]
  exact Nat.lt_add_of_pos_right some_

/-- Round after round up to the end of the source or the refusal. -/
def run (source : List Char) (p : Pass) : Option (Nat × Nat) :=
  match _goes : p.round source with
  | .ended => none
  | .refused start stop => some (start, stop)
  | .goesOn q => run source q
termination_by byteLength source - p.index
decreasing_by
  have := index_lt_of_round _goes
  omega

theorem run_ended {source : List Char} {p : Pass} (ended : p.round source = .ended) : p.run source = none := by
  rw [run]
  split <;> simp_all

theorem run_refused {source : List Char} {p : Pass} {start stop : Nat} (refused : p.round source = .refused start stop) :
    p.run source = some (start, stop) := by
  rw [run]
  split <;> simp_all

theorem run_goesOn {source : List Char} {p q : Pass} (goes : p.round source = .goesOn q) :
    p.run source = q.run source := by
  rw [run]
  split <;> simp_all

/-- The points that the pass comes to. -/
inductive Reached (source : List Char) : Pass → Prop
  | start : Reached source start
  | round {p q : Pass} (before : Reached source p) (goes : p.round source = .goesOn q) : Reached source q

end Pass

/-! ## What is read -/

theorem any_isDigitByte (cs : List Char) : (bytes cs).head?.any isDigitByte = cs.head?.any Char.isDigit := by
  cases cs with
  | nil => rfl
  | cons c cs =>
    obtain ⟨b, bs, first⟩ := List.exists_cons_of_ne_nil (utf8EncodeChar_ne_nil c)
    have mem : b ∈ String.utf8EncodeChar c := first ▸ List.mem_cons_self
    have agree : isDigitByte b = c.isDigit := by
      rcases Nat.lt_or_ge c.toNat 0x80 with ascii | beyond
      · rw [utf8EncodeChar_of_ascii ascii, List.mem_singleton] at mem
        rw [mem]
        exact ascii_forall (P := fun c => isDigitByte c.toUInt8 = c.isDigit) (by decide +kernel) ascii
      · have high := UInt8.le_iff_toNat_le.1 (le_of_mem_utf8EncodeChar beyond mem)
        have low : ¬ b ≤ '9'.toUInt8 := fun le => absurd (Nat.le_trans high (UInt8.le_iff_toNat_le.1 le)) (by decide)
        have other : ¬ c.val ≤ '9'.val := fun le =>
          absurd (Nat.le_trans beyond (UInt32.le_iff_toNat_le.1 le)) (by decide)
        rw [isDigitByte, Char.isDigit, decide_eq_false low, decide_eq_false other, Bool.and_false, Bool.and_false]
    simp [first, agree]

theorem ofByte_eq {c : Char} (ascii : c.toNat < 0x80) (unquoted : ¬ (c = '\x22' ∨ c = '\x27' ∨ c = '\x60')) (r : List Char) :
    ofByte c.toUInt8 (bytes r) = ((Token.ofChar c r).1, if (Token.ofChar c r).2 then 2 else 1) := by
  have same {d : Char} (asciiD : d.toNat < 0x80) := toUInt8_inj ascii asciiD
  have tail : r.head? = some '.' → (bytes r).tail = bytes r.tail := by
    cases r with
    | nil => nofun
    | cons d ds =>
      intro dot
      cases dot
      rfl
  rw [Token.ofChar_eq, ofByte]
  simp (disch := decide) only [same, head?_bytes, if_neg unquoted]
  split_ifs <;> simp_all [any_isDigitByte]

namespace Reading

/-- The first token of a text is of a kind, and so many bytes are passed over with it. It has as many bytes, unless it is
    of the kind that quotes have: only the mark in front is the token there. -/
def BeginsWith (cs : List Char) (kind : TokenKind) (length : Nat) : Prop :=
  ∃ stop tail, (∀ n, scan .code cs n = ⟨kind, n, n + stop⟩ :: tail n) ∧ (stop = length ∨ kind = .other) ∧
    Passes cs tail length

/-- What was read is what a text begins with. -/
def Fits (reading : Reading) (cs : List Char) : Prop :=
  match reading with
  | lineBreak => BeginsWith cs .lineBreak 1
  | gap length => Passes cs (scan .code cs) length
  | token kind length => BeginsWith cs kind length

theorem fits_word {c : Char} {r : List Char} (word : isWordChar c = true) :
    Fits (token (.word (c :: r.takeWhile isWordChar)) (byteLength (c :: r.takeWhile isWordChar))) (c :: r) := by
  refine ⟨_, fun n => scan .word r (n + c.utf8Size), fun n => ?_, .inl rfl, ?_⟩
  · rw [scan, if_pos word]
  · have passes := passes_word r
    rw [wordLength, length_takeWhile_bytes (fun _ _ mem => isWordByte_eq mem)] at passes
    rw [byteLength, Nat.add_comm]
    exact passes.cons c fun n => rfl

theorem fits_ofByte {c : Char} {r : List Char} (other : isWordChar c = false) (feed : c ≠ '\n')
    (blank : ¬ (c = ' ' ∨ c = '\t' ∨ c = '\r')) (line : ¬ (c = '/' ∧ r.head? = some '/'))
    (block : ¬ (c = '/' ∧ r.head? = some '*')) :
    Fits (token (ofByte c.toUInt8 (bytes r)).1 (ofByte c.toUInt8 (bytes r)).2) (c :: r) := by
  have ascii := Token.isWordChar_eq_false other
  have size := Token.utf8Size_of_ascii ascii
  have begun : ∀ n, scan .code (c :: r) n =
      ((Token.begins c r).1.map (Token.beginningAt n)).toList ++ scan (Token.begins c r).2 r (n + c.utf8Size) := by
    intro n
    rw [Token.scan_cons, Token.read, other]
    rfl
  by_cases quote : c = '\x22' ∨ c = '\x27' ∨ c = '\x60'
  · have begins : Token.begins c r = (some (.other, 1), .quote c) := by
      rcases quote with rfl | rfl | rfl <;> rfl
    have kind : ofByte c.toUInt8 (bytes r) = (.other, quoteLength c.toUInt8 (bytes r) + c.utf8Size) := by
      rcases quote with rfl | rfl | rfl <;> rfl
    have unescaped : c ≠ '\\' := by
      rcases quote with rfl | rfl | rfl <;> decide
    rw [kind]
    refine ⟨1, fun n => scan (.quote c) r (n + c.utf8Size), fun n => ?_, .inr rfl, ?_⟩
    · rw [begun, begins]
      rfl
    · exact (passes_quote ascii unescaped r).cons c fun n => rfl
  · have begins := Token.begins_eq feed blank line block quote
    rw [ofByte_eq ascii quote]
    rcases read : Token.ofChar c r with ⟨kind, two⟩
    rw [read] at begins
    cases two with
    | false =>
      refine ⟨1, fun n => scan .code r (n + 1), fun n => ?_, .inl rfl, .inl ⟨[c], r, rfl, ?_, fun n => rfl⟩⟩
      · rw [begun, begins, size]
        rfl
      · simp [byteLength, size]
    | true =>
      obtain ⟨d, rest, rfl, small⟩ := Token.exists_of_ofChar read
      refine ⟨2, fun n => scan (.passing .code) (d :: rest) (n + 1), fun n => ?_, .inl rfl,
        .inl ⟨[c, d], rest, rfl, ?_, fun n => ?_⟩⟩
      · rw [begun, begins, size]
        rfl
      · simp [byteLength, size, small]
      · exact congrArg (scan .code rest) (congrArg (n + 1 + ·) small)

theorem fits_lineComment (r : List Char) : Fits (gap (lineLength (bytes ('/' :: '/' :: r)))) ('/' :: '/' :: r) :=
  (passes_lineComment ('/' :: r)).cons '/' fun _ => rfl

theorem fits_blockComment (r : List Char) : Fits (gap (blockLength (bytes r) + 2)) ('/' :: '*' :: r) :=
  (passes_blockComment r).append ['/', '*'] fun _ => rfl

/-- What follows a part of a source is read by the bytes of what follows alone. -/
theorem at?_append (before rest : List Char) : at? (before ++ rest) (byteLength before) =
    match bytes rest with
    | [] => none
    | b :: r => some (ofBytes (fun length => (Text.takeBytes? rest length).getD []) b r) := by
  have slice (length : Nat) : Text.slice? (before ++ rest) (byteLength before) (byteLength before + length) =
      Text.takeBytes? rest length := by
    rw [Text.slice?, if_pos (Nat.le_add_right _ _), Text.dropBytes?_append, Option.bind_some, Nat.add_sub_cancel_left]
  rw [at?, bytes_append, ← length_bytes, List.drop_left]
  simp only [length_bytes, slice]

theorem fits_ofBytes_of_word {c : Char} {cs : List Char} (word : isWordChar c = true) {b : UInt8} {bs : List UInt8}
    (encoded : bytes (c :: cs) = b :: bs) :
    Fits (ofBytes (fun length => (Text.takeBytes? (c :: cs) length).getD []) b bs) (c :: cs) := by
  have wordByte : isWordByte b = true := by
    obtain ⟨d, ds, all⟩ := List.exists_cons_of_ne_nil (utf8EncodeChar_ne_nil c)
    rw [bytes_cons, all, List.cons_append] at encoded
    rw [← (List.cons.inj encoded).1, isWordByte_eq (c := c) (all ▸ List.mem_cons_self), word]
  have no {d : Char} (plain : isWordByte d.toUInt8 = false) : b ≠ d.toUInt8 := by
    rintro rfl
    exact Bool.false_ne_true (plain.symm.trans wordByte)
  have blank : ¬ (b = ' '.toUInt8 ∨ b = '\t'.toUInt8 ∨ b = '\r'.toUInt8) := by
    rintro (blank | blank | blank) <;> exact no rfl blank
  have size : wordLength (b :: bs) = byteLength (c :: cs.takeWhile isWordChar) := by
    rw [← encoded, wordLength, length_takeWhile_bytes fun _ _ mem => isWordByte_eq mem, List.takeWhile_cons_of_pos word]
  have text : Text.takeBytes? (c :: cs) (byteLength (c :: cs.takeWhile isWordChar)) =
      some (c :: cs.takeWhile isWordChar) := by
    have := Text.takeBytes?_append (c :: cs.takeWhile isWordChar) (cs.dropWhile isWordChar)
    rwa [List.cons_append, List.takeWhile_append_dropWhile] at this
  rw [ofBytes, if_neg (no rfl), if_neg blank, if_neg fun slash => no rfl slash.1, if_neg fun slash => no rfl slash.1,
    if_pos wordByte, size, text]
  exact fits_word word

theorem fits_ofBytes_of_ascii {c : Char} (other : isWordChar c = false) (text : Nat → List Char) (cs : List Char) :
    Fits (ofBytes text c.toUInt8 (bytes cs)) (c :: cs) := by
  have ascii := Token.isWordChar_eq_false other
  have size := Token.utf8Size_of_ascii ascii
  have plain : isWordByte c.toUInt8 = false := by
    rw [isWordByte_eq (c := c) (utf8EncodeChar_of_ascii ascii ▸ List.mem_cons_self), other]
  have same {d : Char} (asciiD : d.toNat < 0x80) := toUInt8_inj ascii asciiD
  -- each test of a byte is the test of a character
  unfold ofBytes
  simp (disch := decide) only [same, head?_bytes, plain, Bool.false_eq_true, if_false]
  split_ifs with feed blank line block
  · subst feed
    exact ⟨1, fun n => scan .code cs (n + 1), fun n => rfl, .inl rfl, .inl ⟨['\n'], cs, rfl, rfl, fun n => rfl⟩⟩
  · refine .inl ⟨[c], cs, rfl, by simp [byteLength, size], fun n => ?_⟩
    rcases blank with rfl | rfl | rfl <;> rfl
  · obtain ⟨rfl, slash⟩ := line
    obtain ⟨r, rfl⟩ := List.head?_eq_some_iff.1 slash
    exact fits_lineComment r
  · obtain ⟨rfl, star⟩ := block
    obtain ⟨r, rfl⟩ := List.head?_eq_some_iff.1 star
    exact fits_blockComment r
  · exact fits_ofByte other feed blank line block

/-- What is read at a byte is what the text from there on begins with. -/
theorem fits_ofBytes {c : Char} {cs : List Char} {b : UInt8} {bs : List UInt8} (encoded : bytes (c :: cs) = b :: bs) :
    Fits (ofBytes (fun length => (Text.takeBytes? (c :: cs) length).getD []) b bs) (c :: cs) := by
  cases word : isWordChar c with
  | true => exact fits_ofBytes_of_word word encoded
  | false =>
    rw [bytes_cons, utf8EncodeChar_of_ascii (Token.isWordChar_eq_false word), List.singleton_append] at encoded
    obtain ⟨rfl, rfl⟩ := List.cons.inj encoded
    exact fits_ofBytes_of_ascii word _ cs

end Reading

/-! ## One round -/

namespace Pass

/-- The tokens that a pass still has to read. -/
def Faces (source : List Char) (p : Pass) (ts : List Token) : Prop :=
  (∃ before rest, source = before ++ rest ∧ p.index = byteLength before ∧ ts = scan .code rest p.index) ∨
  (byteLength source < p.index ∧ ts = [])

/-- The sum that is kept along is that of the levels. -/
def Balanced (p : Pass) : Prop := p.saved = p.levels.foldr (· + ·) 0

theorem Balanced.account {p : Pass} (h : p.Balanced) (kind : TokenKind) : (p.account kind).Balanced := by
  unfold Balanced at *
  cases kind with
  | closing brace =>
    simp only [Pass.account, State.step]
    cases levels : p.levels with
    | nil => simp [levels, h]
    | cons outer rest => simp [levels, h]
  | opening => simp [Pass.account, State.step, h, Nat.add_comm]
  | _ => simp [Pass.account, State.step, h]

/-- What a closing bracket takes off is in the sum. -/
theorem Balanced.le_saved {p : Pass} (h : p.Balanced) {outer : Nat} {levels : List Nat}
    (open_ : p.levels = outer :: levels) : outer ≤ p.saved := by
  rw [h, open_, List.foldr_cons]
  exact Nat.le_add_right _ _

theorem Balanced.weight_eq {p : Pass} (h : p.Balanced) : p.weight = p.toState.weight := by
  rw [weight, State.weight, h]

theorem Faces.of_passes {source before rest : List Char} (whole : source = before ++ rest) {read : Nat → List Token}
    {length : Nat} (passes : Passes rest read length) {p : Pass} (index : p.index = byteLength before + length) :
    p.Faces source (read (byteLength before)) := by
  rcases passes with ⟨mid, rest, rfl, rfl, reads⟩ | ⟨beyond, reads⟩
  · refine .inl ⟨before ++ mid, rest, ?_, ?_, ?_⟩
    · rw [whole, List.append_assoc]
    · rw [index, byteLength_append]
    · rw [reads, index]
  · refine .inr ⟨?_, reads _⟩
    rw [whole, index, byteLength_append]
    exact Nat.add_lt_add_left beyond _

/-- A token that is read is accounted for; the round refuses it at its place unless the weight stays within the limit. -/
structure Accounts (source : List Char) (p : Pass) (t : Token) (rest : List Token) (length : Nat) : Prop where
  start : t.start = p.index
  stop : t.stop = p.index + length ∨ t.kind = .other
  inside : t.stop ≤ byteLength source
  round : p.round source =
    if limit < (p.account t.kind).weight then .refused p.index (min (p.index + length) (byteLength source))
    else .goesOn ((p.account t.kind).skip length)
  faces : ((p.account t.kind).skip length).Faces source rest

theorem accounts_of_beginsWith {source before cs : List Char} (whole : source = before ++ cs) {p : Pass}
    (index : p.index = byteLength before) {kind : TokenKind} {length : Nat} (begins : Reading.BeginsWith cs kind length)
    (goes : p.round source =
      if limit < (p.account kind).weight then .refused p.index (min (p.index + length) (byteLength source))
      else .goesOn ((p.account kind).skip length)) :
    ∃ t rest, scan .code cs p.index = t :: rest ∧ Accounts source p t rest length := by
  obtain ⟨stop, tail, reads, ends, passes⟩ := begins
  refine ⟨_, _, reads _, rfl, ends.imp_left fun same => by rw [same], ?_, goes, ?_⟩
  · have stands := Token.standsIn_of_mem_scan (reads p.index ▸ List.mem_cons_self)
    rw [whole, byteLength_append, ← index]
    exact stands.stop_le
  · rw [index]
    exact Faces.of_passes whole passes (congrArg (· + length) index)

/-- A round either comes to the end, passes over what is no token, or accounts for the next token. -/
theorem round_of_faces {source : List Char} {p : Pass} {ts : List Token} (faces : p.Faces source ts)
    (low : p.weight ≤ limit) :
    (ts = [] ∧ p.round source = .ended) ∨
    (∃ length, p.round source = .goesOn (p.skip length) ∧ (p.skip length).Faces source ts) ∨
    (∃ t rest length, ts = t :: rest ∧ Accounts source p t rest length) := by
  rcases faces with ⟨before, rest, whole, index, rfl⟩ | ⟨beyond, rfl⟩
  · cases rest with
    | nil =>
      refine .inl ⟨by rw [scan], ?_⟩
      rw [round, index, whole, Reading.at?_append]
      rfl
    | cons c r =>
      obtain ⟨b, bs, encoded⟩ := List.exists_cons_of_ne_nil (bytes_cons_ne_nil c r)
      obtain ⟨reading, at_, fits⟩ : ∃ reading, Reading.at? source p.index = some reading ∧ reading.Fits (c :: r) := by
        refine ⟨_, ?_, Reading.fits_ofBytes encoded⟩
        rw [whole, index, Reading.at?_append, encoded]
      have goes : p.round source = p.take source reading := by rw [round, at_]
      cases reading with
      | lineBreak =>
        have accounted := accounts_of_beginsWith whole index fits (goes.trans (if_neg (Nat.not_lt.2 low)).symm)
        exact .inr (.inr (accounted.imp fun t => .imp fun ts => .intro 1))
      | gap length =>
        refine .inr (.inl ⟨length, goes, ?_⟩)
        rw [index]
        exact Faces.of_passes whole fits (congrArg (· + length) index)
      | token kind length =>
        obtain ⟨t, ts, read, accounted⟩ := accounts_of_beginsWith whole index fits goes
        exact .inr (.inr ⟨t, ts, length, read, accounted⟩)
  · refine .inl ⟨rfl, ?_⟩
    have none_ : Reading.at? source p.index = none := by
      rw [Reading.at?, List.drop_eq_nil_of_le (by rw [length_bytes]; exact Nat.le_of_lt beyond)]
    rw [round, none_]

/-- The pass refuses a source where the accounting of its tokens does. -/
theorem run_eq {source : List Char} {p : Pass} {ts : List Token} (faces : p.Faces source ts) (balanced : p.Balanced)
    (low : p.weight ≤ limit) : p.run source = (tooDeepFrom p.toState ts).map fun t => (t.start, t.stop) := by
  -- only a quote may leave the end of its token open, and it adds nothing to the weight
  obtain ⟨ended, ended_⟩ | ⟨length, goes, later⟩ | ⟨t, rest, length, rfl, accounted⟩ := round_of_faces faces low
  · rw [run_ended ended_, ended, tooDeepFrom]
    rfl
  · rw [run_goesOn goes]
    exact run_eq later balanced low
  · rw [tooDeepFrom]
    have same : (p.account t.kind).weight = (p.toState.step t.kind).weight := (balanced.account t.kind).weight_eq
    by_cases deep : limit < (p.account t.kind).weight
    · have ends : t.stop = p.index + length := by
        refine accounted.stop.resolve_right fun other => ?_
        rw [other] at deep
        exact Nat.not_lt.2 low deep
      rw [run_refused (accounted.round.trans (if_pos deep)), if_pos (same ▸ deep), ← ends,
        Nat.min_eq_left accounted.inside, ← accounted.start]
      rfl
    · rw [run_goesOn (accounted.round.trans (if_neg deep)), if_neg (same ▸ deep)]
      exact run_eq accounted.faces (balanced.account t.kind) (Nat.le_of_not_lt deep)
termination_by byteLength source - p.index
decreasing_by
  · have := index_lt_of_round goes
    omega
  · have := index_lt_of_round (accounted.round.trans (if_neg deep))
    omega

theorem Reached.balanced {source : List Char} {p : Pass} (reached : Reached source p) : p.Balanced := by
  induction reached with
  | start => rfl
  | round before goes ih =>
    obtain ⟨reading, r, -, rfl, rfl | ⟨kind, rfl⟩⟩ := exists_of_goesOn goes
    · exact ih
    · exact ih.account kind

end Pass

end FlowScript.Nesting
