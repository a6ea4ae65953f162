import FlowScript.Toml.Document

/-!
# Tables in order

A document is read into a table that has its keys in order, each once, and so have the tables inside it. While it is read,
the entries under construction have each key once: whatever a line adds goes through `Entries.update?`, which looks for the
key first.
-/

namespace FlowScript.Toml

mutual

/-- A value that is ordered if it is a table. -/
def Value.Ordered : Value → Prop
  | .table entries => Ordered entries
  | _ => True

/-- A table with its keys in order, each once, as in the tables inside it; those in arrays are not looked at. -/
def Ordered : List (String × Value) → Prop
  | [] => True
  | (key, v) :: rest => (∀ e ∈ rest, key < e.1) ∧ v.Ordered ∧ Ordered rest

end

mutual

/-- A node that has each key once if it is a table, and is ordered if it is a value. -/
def Node.Proper : Node → Prop
  | .value v => v.Ordered
  | .table _ entries => Proper entries
  | .tables _ _ => True

/-- Entries under construction with each key once, as in the tables inside them. -/
def Proper : List (String × Node) → Prop
  | [] => True
  | (key, n) :: rest => (∀ e ∈ rest, e.1 ≠ key) ∧ n.Proper ∧ Proper rest

end

/-! ## Entries under construction -/

theorem proper_nil : Proper [] := trivial

namespace Entries

variable {es es' : Entries}

theorem proper_update? {key : String} {change : Option Node → Option Node} (proper : Proper es)
    (keeps : ∀ prior n, (∀ m, prior = some m → m.Proper) → change prior = some n → n.Proper)
    (made : es.update? key change = some es') : Proper es' ∧ ∀ e ∈ es', e.1 = key ∨ ∃ d ∈ es, d.1 = e.1 := by
  induction es generalizing es' with
  | nil =>
    obtain ⟨n, changed, rfl⟩ := Option.map_eq_some_iff.1 made
    exact ⟨⟨nofun, keeps none n nofun changed, trivial⟩, by simp⟩
  | cons e es ih =>
    obtain ⟨k, m⟩ := e
    obtain ⟨once, here, later⟩ := proper
    unfold update? at made
    split at made
    · rename_i same
      obtain ⟨n, changed, rfl⟩ := Option.map_eq_some_iff.1 made
      refine ⟨⟨once, keeps (some m) n (by rintro _ ⟨⟩; exact here) changed, later⟩, ?_⟩
      rintro e (_ | ⟨_, mem⟩)
      · exact .inl same
      · exact .inr ⟨e, List.mem_cons_of_mem _ mem, rfl⟩
    · rename_i other
      obtain ⟨rest, below, rfl⟩ := Option.map_eq_some_iff.1 made
      obtain ⟨proper, among⟩ := ih later below
      refine ⟨⟨fun e mem => ?_, here, proper⟩, ?_⟩
      · rcases among e mem with same | ⟨d, mem, same⟩
        · exact fun eq => other (eq.symm.trans same)
        · exact same ▸ once d mem
      · rintro e (_ | ⟨_, mem⟩)
        · exact .inr ⟨(k, m), List.mem_cons_self, rfl⟩
        · rcases among e mem with same | ⟨d, mem, same⟩
          · exact .inl same
          · exact .inr ⟨d, List.mem_cons_of_mem _ mem, same⟩

theorem proper_within? {change : Entries → Option Entries}
    (keeps : ∀ {es es'}, Proper es → change es = some es' → Proper es') {path : List String} (proper : Proper es)
    (made : es.within? change path = some es') : Proper es' := by
  induction path generalizing es es' with
  | nil => exact keeps proper made
  | cons key path ih =>
    refine (proper_update? proper (fun prior n before changed => ?_) made).1
    split at changed
    · obtain ⟨inner, made, rfl⟩ := Option.map_eq_some_iff.1 changed
      exact ih proper_nil made
    · obtain ⟨inner, made, rfl⟩ := Option.map_eq_some_iff.1 changed
      exact ih (before _ rfl) made
    · obtain ⟨inner, -, rfl⟩ := Option.map_eq_some_iff.1 changed
      trivial
    · cases changed

theorem proper_openTable? {path : List String} {key : String} (proper : Proper es)
    (made : es.openTable? path key = some es') : Proper es' := by
  refine proper_within? (fun proper made => ?_) proper made
  refine (proper_update? proper (fun prior n before changed => ?_) made).1
  split at changed
  · cases changed
    trivial
  · rename_i inner
    cases changed
    exact before (.table .implied inner) rfl
  · cases changed

theorem proper_openNext? {path : List String} {key : String} (proper : Proper es)
    (made : es.openNext? path key = some es') : Proper es' := by
  refine proper_within? (fun proper made => ?_) proper made
  refine (proper_update? proper (fun prior n before changed => ?_) made).1
  split at changed
  · cases changed
    trivial
  · cases changed
    trivial
  · cases changed

theorem proper_bindDotted? {v : Value} (ordered : v.Ordered) {path : List String} {key : String} (proper : Proper es)
    (made : es.bindDotted? v path key = some es') : Proper es' := by
  induction path generalizing es es' with
  | nil =>
    refine (proper_update? proper (fun prior n before changed => ?_) made).1
    split at changed
    · cases changed
      exact ordered
    · cases changed
  | cons part path ih =>
    refine (proper_update? proper (fun prior n before changed => ?_) made).1
    split at changed
    · obtain ⟨inner, made, rfl⟩ := Option.map_eq_some_iff.1 changed
      exact ih proper_nil made
    · cases changed
    · split at changed
      · cases changed
      · obtain ⟨inner, made, rfl⟩ := Option.map_eq_some_iff.1 changed
        exact ih (before _ rfl) made
    · obtain ⟨inner, made, rfl⟩ := Option.map_eq_some_iff.1 changed
      exact ih (before _ rfl) made
    · split at changed
      · cases changed
      · obtain ⟨inner, -, rfl⟩ := Option.map_eq_some_iff.1 changed
        trivial
    · cases changed

end Entries

/-! ## Tables -/

theorem mem_insertSorted {e : String × Value} {key : String} {v : Value} {table : Table} :
    e ∈ insertSorted key v table ↔ e = (key, v) ∨ e ∈ table := by
  induction table with
  | nil => exact List.mem_cons
  | cons d table ih =>
    unfold insertSorted
    split
    · exact List.mem_cons
    · rw [List.mem_cons, ih, List.mem_cons, or_left_comm]

theorem ordered_insertSorted {key : String} {v : Value} {table : Table} (fresh : ∀ e ∈ table, e.1 ≠ key)
    (value : v.Ordered) (ordered : Ordered table) : Ordered (insertSorted key v table) := by
  induction table with
  | nil => exact ⟨nofun, value, trivial⟩
  | cons d table ih =>
    obtain ⟨k, w⟩ := d
    obtain ⟨above, here, later⟩ := ordered
    unfold insertSorted
    split
    · rename_i lower
      exact ⟨List.forall_mem_cons.2 ⟨lower, fun e mem => String.lt_trans lower (above e mem)⟩, value, above, here, later⟩
    · rename_i upper
      refine ⟨fun e mem => ?_, here, ih (fun e mem => fresh e (List.mem_cons_of_mem _ mem)) later⟩
      rcases mem_insertSorted.1 mem with rfl | mem
      · refine String.not_le.1 fun lower => fresh (k, w) List.mem_cons_self ?_
        exact String.le_antisymm (String.not_lt.1 upper) lower
      · exact above e mem

theorem mem_tableOf {e : String × Value} {es : Entries} (mem : e ∈ tableOf es) : ∃ d ∈ es, d.1 = e.1 := by
  induction es with
  | nil => simp [tableOf] at mem
  | cons d es ih =>
    rw [tableOf] at mem
    rcases mem_insertSorted.1 mem with rfl | mem
    · exact ⟨d, List.mem_cons_self, rfl⟩
    · obtain ⟨d, mem, same⟩ := ih mem
      exact ⟨d, List.mem_cons_of_mem _ mem, same⟩

mutual

theorem Node.ordered_toValue {n : Node} (proper : n.Proper) : n.toValue.Ordered := by
  match n with
  | .value v => rwa [Node.toValue]
  | .table _ entries =>
    have inside : Proper entries := proper
    rw [Node.toValue]
    exact ordered_tableOf inside
  | .tables _ _ =>
    rw [Node.toValue]
    trivial

theorem ordered_tableOf {es : Entries} (proper : Proper es) : Ordered (tableOf es) := by
  match es with
  | [] =>
    rw [tableOf]
    trivial
  | (key, n) :: es =>
    obtain ⟨once, here, later⟩ := proper
    rw [tableOf]
    refine ordered_insertSorted (fun e mem => ?_) (Node.ordered_toValue here) (ordered_tableOf later)
    obtain ⟨d, mem, same⟩ := mem_tableOf mem
    exact same ▸ once d mem

end

/-! ## Reading -/

theorem ordered_ofWord? {word : List Char} {v : Value} (read : ofWord? word = some v) : v.Ordered := by
  have ofInt {negative : Bool} {base : Nat} {digits : List Char} {v : Value}
      (read : intOf? negative base digits = some v) : v.Ordered := by
    obtain ⟨n, -, read⟩ := Option.bind_eq_some_iff.1 read
    obtain ⟨i, -, rfl⟩ := Option.map_eq_some_iff.1 read
    trivial
  unfold ofWord? at read
  split at read
  · cases read
    trivial
  split at read
  · cases read
    trivial
  split at read
  · cases read
    trivial
  split at read
  · rename_i based
    cases read
    unfold basedInt? at based
    split at based
    · obtain ⟨base, -, read⟩ := Option.bind_eq_some_iff.1 based
      obtain ⟨digits, -, read⟩ := Option.bind_eq_some_iff.1 read
      exact ofInt read
    · cases based
  split at read
  · rename_i decimal
    cases read
    obtain ⟨digits, -, read⟩ := Option.bind_eq_some_iff.1 decimal
    exact ofInt read
  · obtain ⟨text, -, read⟩ := Option.bind_eq_some_iff.1 read
    dsimp only at read
    split at read
    · cases read
    · cases read
      trivial

theorem ordered_scalar? {cs rest : List Char} {v : Value} (read : scalar? cs = some (v, rest)) : v.Ordered := by
  unfold scalar? at read
  dsimp only at read
  split at read
  all_goals
    obtain ⟨w, word, same⟩ := Option.map_eq_some_iff.1 read
    cases same
    exact ordered_ofWord? word

theorem ordered_value? (fuel : Nat) :
    (∀ {levels cs v rest}, value? fuel levels cs = some (v, rest) → v.Ordered) ∧
      ∀ {levels es cs es' rest}, Proper es → members? fuel levels es cs = some (es', rest) → Proper es' := by
  induction fuel with
  | zero => exact ⟨nofun, nofun⟩
  | succ fuel ih =>
    obtain ⟨values, inside⟩ := ih
    constructor
    · intro levels cs v rest read
      unfold value? at read
      split at read
      · cases read
      split at read
      · obtain ⟨text, -, same⟩ := Option.map_eq_some_iff.1 read
        cases same
        trivial
      split at read
      · split at read
        · cases read
        · obtain ⟨items, -, same⟩ := Option.map_eq_some_iff.1 read
          cases same
          trivial
      split at read
      · split at read
        · cases read
        split at read
        · cases read
        split at read
        · cases read
          trivial
        · obtain ⟨⟨entries, beyond⟩, made, same⟩ := Option.map_eq_some_iff.1 read
          cases same
          exact ordered_tableOf (inside proper_nil made)
      · exact ordered_scalar? read
    · intro levels es cs es' rest proper read
      unfold members? at read
      obtain ⟨⟨name, beyond⟩, -, read⟩ := Option.bind_eq_some_iff.1 read
      dsimp only at read
      split at read
      · cases read
      split at read
      · obtain ⟨⟨v, beyond⟩, value, read⟩ := Option.bind_eq_some_iff.1 read
        obtain ⟨entries, bound, read⟩ := Option.bind_eq_some_iff.1 read
        have proper := Entries.proper_bindDotted? (values value) proper bound
        split at read
        · cases read
        split at read
        · cases read
          exact proper
        split at read
        · exact inside proper read
        · cases read
      · cases read

theorem ordered_line? {cs rest : List Char} {name : KeyPath} {v : Value}
    (read : line? cs = some (.binding name v, rest)) : v.Ordered := by
  have header {cs rest : List Char} : header? cs ≠ some (.binding name v, rest) := by
    intro read
    unfold header? at read
    split at read
    all_goals
      obtain ⟨⟨name, beyond⟩, -, read⟩ := Option.bind_eq_some_iff.1 read
      dsimp only at read
      split at read <;> cases read
  unfold line? at read
  split at read
  · cases read
  split at read
  · cases read
  split at read
  · exact absurd read header
  · obtain ⟨⟨name, beyond⟩, -, read⟩ := Option.bind_eq_some_iff.1 read
    dsimp only at read
    split at read
    · cases read
    split at read
    · obtain ⟨⟨w, beyond⟩, value, same⟩ := Option.map_eq_some_iff.1 read
      cases same
      exact (ordered_value? _).1 value
    · cases read

theorem proper_linesFrom? {rounds : Nat} {table : List String} {es es' : Entries} {cs : List Char} (proper : Proper es)
    (read : linesFrom? table es rounds cs = some es') : Proper es' := by
  induction rounds generalizing table es cs with
  | zero =>
    cases cs with
    | nil =>
      cases read
      exact proper
    | cons c r => cases read
  | succ rounds ih =>
    cases cs with
    | nil =>
      cases read
      exact proper
    | cons c r =>
      obtain ⟨⟨line, beyond⟩, first, read⟩ := Option.bind_eq_some_iff.1 read
      obtain ⟨beyond, -, read⟩ := Option.bind_eq_some_iff.1 read
      cases line with
      | blank => exact ih proper read
      | header name =>
        obtain ⟨opened, made, read⟩ := Option.bind_eq_some_iff.1 read
        exact ih (Entries.proper_openTable? proper made) read
      | nextHeader name =>
        obtain ⟨opened, made, read⟩ := Option.bind_eq_some_iff.1 read
        exact ih (Entries.proper_openNext? proper made) read
      | binding name v =>
        obtain ⟨bound, made, read⟩ := Option.bind_eq_some_iff.1 read
        have keeps {es es' : Entries} (proper : Proper es) (made : es.bindDotted? v name.path name.key = some es') :=
          Entries.proper_bindDotted? (ordered_line? first) proper made
        exact ih (Entries.proper_within? keeps proper made) read

/-- What a document is read into is ordered. -/
theorem ordered_of_parse? {text : String} {table : Table} (read : parse? text = some table) : Ordered table := by
  obtain ⟨entries, lines, rfl⟩ := Option.map_eq_some_iff.1 read
  exact ordered_tableOf (proper_linesFrom? proper_nil lines)

end FlowScript.Toml
