import FlowScript.Message.Flatten
import FlowScript.Proofs.Toml.Ordered
import Mathlib.Data.List.Nodup

/-!
# Flattening tables into catalogs

The leaves of a table are the values in it, and in the tables inside it, that are no tables. A catalog takes each leaf that
is text under the names on the way to it, with dots between them. No two leaves have the same key as long as the names
have no dots and are not empty: the names are read back from the key.
-/

namespace FlowScript

/-! ## Catalogs as maps -/

namespace Catalog

theorem mem_keys {entries : List (String × String)} {key text : String} (mem : (key, text) ∈ entries) :
    key ∈ entries.map Prod.fst :=
  List.mem_map.2 ⟨_, mem, rfl⟩

theorem lookup_eq_some_iff {entries : List (String × String)} (once : (entries.map Prod.fst).Nodup) {key text : String} :
    entries.lookup key = some text ↔ (key, text) ∈ entries := by
  induction entries with
  | nil => simp
  | cons e es ih =>
    obtain ⟨k, t⟩ := e
    obtain ⟨fresh, later⟩ := List.nodup_cons.1 once
    rw [List.lookup_cons]
    by_cases same : key = k
    · subst same
      have others : (key, text) ∉ es := fun mem => fresh (mem_keys mem)
      simp [others, eq_comm]
    · have apart : (key == k) = false := by simpa using same
      simp [apart, ih later, same]

/-- A key has the template that it has an entry for. -/
theorem get?_eq_some_iff (catalog : Catalog) {key text : String} :
    catalog.get? key = some text ↔ (key, text) ∈ catalog.entries :=
  lookup_eq_some_iff catalog.once

theorem get?_insertAll (catalog : Catalog) {entries : List (String × String)} (once : (entries.map Prod.fst).Nodup)
    (key : String) : (catalog.insertAll entries).get? key = (entries.lookup key).or (catalog.get? key) := by
  induction entries generalizing catalog with
  | nil => rfl
  | cons e es ih =>
    obtain ⟨k, t⟩ := e
    obtain ⟨fresh, later⟩ := List.nodup_cons.1 once
    rw [insertAll, List.foldl_cons, ← insertAll, ih _ later, get?_insert, List.lookup_cons]
    by_cases same : key = k
    · subst same
      have none_ : es.lookup key = none := by
        refine Option.eq_none_iff_forall_ne_some.2 fun text found => fresh ?_
        exact mem_keys ((lookup_eq_some_iff later).1 found)
      simp [none_]
    · have apart : (key == k) = false := by simpa using same
      simp [apart, same]

/-- The entries of the other catalog win. -/
theorem get?_extend (a b : Catalog) (key : String) : (a.extend b).get? key = (b.get? key).or (a.get? key) :=
  get?_insertAll a b.once key

theorem insertEntry_of_fresh {key : String} {entries : List (String × String)} (fresh : key ∉ entries.map Prod.fst)
    (text : String) : insertEntry key text entries = entries ++ [(key, text)] := by
  induction entries with
  | nil => rfl
  | cons e es ih =>
    obtain ⟨other, fresh⟩ := List.ne_and_not_mem_of_not_mem_cons fresh
    rw [insertEntry, if_neg (Ne.symm other), ih fresh, List.cons_append]

theorem entries_insertAll (catalog : Catalog) {entries : List (String × String)}
    (once : ((catalog.entries ++ entries).map Prod.fst).Nodup) :
    (catalog.insertAll entries).entries = catalog.entries ++ entries := by
  induction entries generalizing catalog with
  | nil => exact (List.append_nil _).symm
  | cons e es ih =>
    have fresh : e.1 ∉ catalog.entries.map Prod.fst := by
      rw [List.map_append, List.map_cons, List.nodup_append] at once
      exact fun mem => once.2.2 _ mem _ List.mem_cons_self rfl
    have grown : (catalog.insert e.1 e.2).entries = catalog.entries ++ [e] := insertEntry_of_fresh fresh e.2
    rw [insertAll, List.foldl_cons, ← insertAll, ih _ (by rw [grown]; simpa using once), grown, List.append_assoc]
    rfl

/-- Entries without a key twice are the catalog of them. -/
theorem entries_ofEntries {entries : List (String × String)} (once : (entries.map Prod.fst).Nodup) :
    (ofEntries entries).entries = entries :=
  entries_insertAll empty once

end Catalog

/-! ## Leaves -/

namespace Toml

mutual

/-- The value itself if it is no table, and else the leaves of the table. -/
def Value.leaves : Value → List (List String × Value)
  | .table entries => leaves entries
  | v => [([], v)]

/-- The values of a table that are no tables, with the names on the way to them, as they are visited. -/
def leaves : List (String × Value) → List (List String × Value)
  | [] => []
  | (name, v) :: rest => v.leaves.map (fun leaf => (name :: leaf.1, leaf.2)) ++ leaves rest

end

/-- The leaf is text. -/
def IsText (leaf : Value) : Prop := ∃ text, leaf = .str text

instance : DecidablePred IsText
  | .str text => .isTrue ⟨text, rfl⟩
  | .int _ | .float _ | .bool _ | .dateTime _ | .array _ | .table _ => .isFalse (by rintro ⟨_, ⟨⟩⟩)

/-- A name that is not empty and has no dot in it. -/
def IsSegment (name : String) : Prop := name ≠ "" ∧ '.' ∉ name.toList

instance : DecidablePred IsSegment := fun name => inferInstanceAs (Decidable (name ≠ "" ∧ '.' ∉ name.toList))

/-- The names on the way to the leaves are not empty and have no dots in them. -/
def Plain (table : Table) : Prop := ∀ leaf ∈ leaves table, ∀ name ∈ leaf.1, IsSegment name

instance : DecidablePred Plain :=
  fun table => inferInstanceAs (Decidable (∀ leaf ∈ leaves table, ∀ name ∈ leaf.1, IsSegment name))

/-- The names of a way with dots between them. -/
def dotted (path : List String) : String := ".".intercalate path

theorem path_of_mem_leaves {table : Table} {leaf : List String × Value} (mem : leaf ∈ leaves table) :
    ∃ e ∈ table, ∃ path, leaf.1 = e.1 :: path := by
  induction table with
  | nil => simp [leaves] at mem
  | cons e table ih =>
    obtain ⟨name, v⟩ := e
    rw [leaves, List.mem_append] at mem
    rcases mem with here | later
    · obtain ⟨inner, -, rfl⟩ := List.mem_map.1 here
      exact ⟨(name, v), List.mem_cons_self, inner.1, rfl⟩
    · obtain ⟨e, mem, path⟩ := ih later
      exact ⟨e, List.mem_cons_of_mem _ mem, path⟩

mutual

theorem Value.nodup_leaves {v : Value} (ordered : v.Ordered) : (v.leaves.map Prod.fst).Nodup := by
  match v with
  | .table entries =>
    have inside : Ordered entries := ordered
    exact nodup_leaves inside
  | .str _ | .int _ | .float _ | .bool _ | .dateTime _ | .array _ => exact List.pairwise_singleton _ _

/-- No two leaves of an ordered table are found on the same way. -/
theorem nodup_leaves {table : Table} (ordered : Ordered table) : ((leaves table).map Prod.fst).Nodup := by
  match table with
  | [] => exact List.nodup_nil
  | (name, v) :: table =>
    obtain ⟨above, here, later⟩ := ordered
    rw [leaves, List.map_append, List.nodup_append]
    refine ⟨?_, nodup_leaves later, ?_⟩
    · rw [List.map_map]
      have inner := List.Nodup.map (List.cons_injective (a := name)) (Value.nodup_leaves here)
      rwa [List.map_map] at inner
    · rintro path first other second rfl
      obtain ⟨leaf, mem, rfl⟩ := List.mem_map.1 first
      obtain ⟨inner, -, rfl⟩ := List.mem_map.1 mem
      obtain ⟨leaf, mem, same⟩ := List.mem_map.1 second
      obtain ⟨e, mem, rest, path⟩ := path_of_mem_leaves mem
      obtain ⟨same, -⟩ := List.cons.inj (same.symm.trans path)
      exact String.lt_irrefl name (same ▸ above e mem)

end

/-- The names of a way are read back from the dotted text of them. -/
theorem dotted_injOn {path other : List String} (some_ : path ≠ []) (other_some : other ≠ [])
    (free : ∀ name ∈ path, '.' ∉ name.toList) (other_free : ∀ name ∈ other, '.' ∉ name.toList)
    (same : dotted path = dotted other) : path = other := by
  have joined : ['.'].intercalate (path.map String.toList) = ['.'].intercalate (other.map String.toList) := by
    have chars := congrArg String.toList same
    rwa [dotted, dotted, String.toList_intercalate, String.toList_intercalate] at chars
  have parts := congrArg (List.splitOn '.') joined
  rw [List.splitOn_intercalate _ (by simpa using free) (by simpa using some_),
    List.splitOn_intercalate _ (by simpa using other_free) (by simpa using other_some)] at parts
  exact List.map_injective_iff.2 (fun _ _ => String.toList_injective) parts

end Toml

/-! ## Flattening -/

namespace Catalog

open Toml

/-- The key of what is found on a way from the table with a key. -/
def keyAt (key : String) (path : List String) : String := path.foldl keyIn key

/-- The entry of a leaf, which is an error unless it is text. -/
def entryOf (key : String) (leaf : List String × Value) : Except CatalogError (String × String) :=
  match leaf.2 with
  | .str text => .ok (keyAt key leaf.1, text)
  | _ => .error (.notText (keyAt key leaf.1))

mutual

theorem entriesOf_eq (key : String) (v : Value) : entriesOf key v = v.leaves.mapM (entryOf key) := by
  match v with
  | .table entries => exact entriesOfTable_eq key entries
  | .str _ | .int _ | .float _ | .bool _ | .dateTime _ | .array _ => rfl

/-- Flattening a table visits its leaves in turn and stops at the first that is no text. -/
theorem entriesOfTable_eq (key : String) (table : Table) :
    entriesOfTable key table = (leaves table).mapM (entryOf key) := by
  match table with
  | [] => rfl
  | (name, v) :: table =>
    have first : (v.leaves.map fun leaf => (name :: leaf.1, leaf.2)).mapM (entryOf key) =
        v.leaves.mapM (entryOf (keyIn key name)) := by
      rw [List.mapM_map]
      rfl
    rw [leaves, List.mapM_append, first, ← entriesOf_eq, ← entriesOfTable_eq, entriesOfTable]
    cases entriesOf (keyIn key name) v with
    | error e => rfl
    | ok entries => cases entriesOfTable key table <;> rfl

end

theorem keyAt_of_ne {key : String} (some_ : key ≠ "") (path : List String) : keyAt key path = dotted (key :: path) := by
  induction path generalizing key with
  | nil => exact String.intercalate_singleton.symm
  | cons name path ih =>
    have longer : keyIn key name = key ++ "." ++ name := if_neg (by simpa using some_)
    have step : keyAt key (name :: path) = keyAt (key ++ "." ++ name) path := by rw [← longer]; rfl
    have grown : key ++ "." ++ name ≠ "" := by simp [some_]
    rw [step, ih grown, dotted, dotted]
    cases path with
    | nil =>
      rw [String.intercalate_cons_of_ne_nil (List.cons_ne_nil _ _), String.intercalate_singleton,
        String.intercalate_singleton]
    | cons next path =>
      rw [String.intercalate_cons_of_ne_nil (List.cons_ne_nil next path),
        String.intercalate_cons_of_ne_nil (List.cons_ne_nil name _),
        String.intercalate_cons_of_ne_nil (List.cons_ne_nil next path)]
      simp only [String.append_assoc]

/-- The key of a leaf is the names on the way to it with dots between them. -/
theorem keyAt_empty {path : List String} (segments : ∀ name ∈ path, IsSegment name) : keyAt "" path = dotted path := by
  cases path with
  | nil => rfl
  | cons name path =>
    obtain ⟨some_, -⟩ := segments name List.mem_cons_self
    exact keyAt_of_ne some_ path

/-- Leaves that are text, all of them. -/
theorem exists_texts {found : List (List String × Value)} (each : ∀ leaf ∈ found, IsText leaf.2) :
    ∃ texts : List (List String × String), found = texts.map fun entry => (entry.1, .str entry.2) := by
  induction found with
  | nil => exact ⟨[], rfl⟩
  | cons leaf found ih =>
    obtain ⟨path, v⟩ := leaf
    obtain ⟨⟨text, rfl⟩, later⟩ := List.forall_mem_cons.1 each
    obtain ⟨texts, rfl⟩ := ih later
    exact ⟨(path, text) :: texts, rfl⟩

theorem mapM_entryOf_texts (key : String) (texts : List (List String × String)) :
    (texts.map fun entry => (entry.1, Value.str entry.2)).mapM (entryOf key) =
      .ok (texts.map fun entry => (keyAt key entry.1, entry.2)) := by
  induction texts with
  | nil => rfl
  | cons entry texts ih =>
    rw [List.map_cons, List.mapM_cons, ih]
    rfl

theorem entryOf_of_not_text (key : String) {path : List String} {leaf : Value} (other : ¬ IsText leaf) :
    entryOf key (path, leaf) = .error (.notText (keyAt key path)) := by
  unfold entryOf
  split
  · rename_i text same
    exact absurd ⟨text, same⟩ other
  · rfl

/-- Every list of leaves is text, or there is a first leaf in it that is none. -/
theorem texts_or_first (found : List (List String × Value)) :
    (∀ leaf ∈ found, IsText leaf.2) ∨
      ∃ before path leaf after, found = before ++ (path, leaf) :: after ∧ (∀ l ∈ before, IsText l.2) ∧ ¬ IsText leaf := by
  induction found with
  | nil => exact .inl nofun
  | cons leaf found ih =>
    by_cases text : IsText leaf.2
    · rcases ih with all | ⟨before, path, v, after, rfl, each, other⟩
      · exact .inl (List.forall_mem_cons.2 ⟨text, all⟩)
      · exact .inr ⟨leaf :: before, path, v, after, rfl, List.forall_mem_cons.2 ⟨text, each⟩, other⟩
    · exact .inr ⟨[], leaf.1, leaf.2, found, rfl, nofun, text⟩

section
variable {table : Table} (plain : Plain table)
include plain

/-- A table whose leaves are text becomes the catalog of them. -/
theorem ofTable_of_texts (ordered : Ordered table) {texts : List (List String × String)}
    (same : leaves table = texts.map fun entry => (entry.1, .str entry.2)) :
    ∃ catalog, ofTable table = .ok catalog ∧ catalog.entries = texts.map fun entry => (dotted entry.1, entry.2) := by
  have ways : ∀ path ∈ texts.map Prod.fst, path ≠ [] ∧ ∀ name ∈ path, IsSegment name := by
    intro path mem
    obtain ⟨entry, among, rfl⟩ := List.mem_map.1 mem
    have leaf : (entry.1, Value.str entry.2) ∈ leaves table := same ▸ List.mem_map.2 ⟨entry, among, rfl⟩
    obtain ⟨e, -, path, way⟩ := path_of_mem_leaves leaf
    exact ⟨way ▸ List.cons_ne_nil e.1 path, plain _ leaf⟩
  have keys : (texts.map fun entry => (keyAt "" entry.1, entry.2)) = texts.map fun entry => (dotted entry.1, entry.2) :=
    List.map_congr_left fun entry mem => by rw [keyAt_empty (ways entry.1 (List.mem_map_of_mem mem)).2]
  have once : ((texts.map fun entry => (dotted entry.1, entry.2)).map Prod.fst).Nodup := by
    have apart : (texts.map Prod.fst).Nodup := by
      have apart := nodup_leaves ordered
      rwa [same, List.map_map] at apart
    have injective := apart.map_on fun path mem other mem' same =>
      dotted_injOn (ways path mem).1 (ways other mem').1 (fun name among => ((ways path mem).2 name among).2)
        (fun name among => ((ways other mem').2 name among).2) same
    rwa [List.map_map] at injective ⊢
  refine ⟨ofEntries (texts.map fun entry => (dotted entry.1, entry.2)), ?_, entries_ofEntries once⟩
  rw [ofTable, entriesOfTable_eq, same, mapM_entryOf_texts, keys]
  rfl

/-- The first leaf that is no text is the error. -/
theorem ofTable_of_first {before after : List (List String × Value)} {path : List String} {leaf : Value}
    (split : leaves table = before ++ (path, leaf) :: after) (each : ∀ l ∈ before, IsText l.2) (other : ¬ IsText leaf) :
    ofTable table = .error (.notText (dotted path)) := by
  have segments : ∀ name ∈ path, IsSegment name :=
    plain (path, leaf) (split ▸ List.mem_append_right before List.mem_cons_self)
  obtain ⟨texts, rfl⟩ := exists_texts each
  rw [ofTable, entriesOfTable_eq, split, List.mapM_append, mapM_entryOf_texts, List.mapM_cons,
    entryOf_of_not_text "" other, keyAt_empty segments]
  rfl

end

/-- What a table is flattened into: nothing gets lost where all leaves are text, and else the first leaf that is none is
named. -/
structure Flattened (table : Table) (result : Except CatalogError Catalog) : Prop where
  succeeds : (∃ catalog, result = .ok catalog) ↔ ∀ leaf ∈ leaves table, IsText leaf.2
  size : ∀ catalog, result = .ok catalog → catalog.size = (leaves table).length
  get : ∀ catalog, result = .ok catalog → ∀ key text,
    catalog.get? key = some text ↔ ∃ path, (path, .str text) ∈ leaves table ∧ key = dotted path
  fails : (¬ ∃ catalog, result = .ok catalog) → ∃ before path leaf after,
    leaves table = before ++ (path, leaf) :: after ∧ (∀ l ∈ before, IsText l.2) ∧ ¬ IsText leaf ∧
      result = .error (.notText (dotted path))

theorem flattened_ofTable {table : Table} (ordered : Ordered table) (plain : Plain table) :
    Flattened table (ofTable table) := by
  rcases texts_or_first (leaves table) with all | ⟨before, path, leaf, after, split, each, other⟩
  · obtain ⟨texts, same⟩ := exists_texts all
    obtain ⟨catalog, made, entries⟩ := ofTable_of_texts plain ordered same
    rw [made]
    refine ⟨iff_of_true ⟨catalog, rfl⟩ all, ?_, ?_, fun none_ => absurd ⟨catalog, rfl⟩ none_⟩
    · rintro _ ⟨⟩
      rw [size, entries, same, List.length_map, List.length_map]
    · rintro _ ⟨⟩ key text
      rw [get?_eq_some_iff, entries, same]
      constructor
      · intro mem
        obtain ⟨entry, among, pair⟩ := List.mem_map.1 mem
        cases pair
        exact ⟨entry.1, List.mem_map.2 ⟨entry, among, rfl⟩, rfl⟩
      · rintro ⟨path, mem, rfl⟩
        obtain ⟨entry, among, pair⟩ := List.mem_map.1 mem
        cases pair
        exact List.mem_map.2 ⟨entry, among, rfl⟩
  · have failed := ofTable_of_first plain split each other
    rw [failed]
    have some_ : (path, leaf) ∈ leaves table := split ▸ List.mem_append_right before List.mem_cons_self
    exact ⟨iff_of_false nofun fun all => other (all _ some_), nofun, nofun,
      fun _ => ⟨before, path, leaf, after, split, each, other, rfl⟩⟩

/-- Flattening loses nothing: every ordered table with plain names is flattened, the table of a document is ordered, and
putting a catalog over another keeps what it does not replace. -/
theorem flattening_loses_nothing :
    (∀ table, Ordered table → Plain table → Flattened table (ofTable table)) ∧
      (∀ text table, parse? text = some table → Ordered table ∧ ofToml text = ofTable table) ∧
      ∀ (a b : Catalog) key, (a.extend b).get? key = (b.get? key).or (a.get? key) := by
  refine ⟨fun table => flattened_ofTable, fun text table read => ⟨ordered_of_parse? read, ?_⟩, get?_extend⟩
  rw [ofToml, read]

/-- Three texts, one of them two tables deep. -/
theorem flattening_loses_nothing_nested : ∃ table catalog,
    parse? "top = 'Top'\n[steps]\nthen = 'Then'\n[steps.nested]\ndeep = 'Deep'\n" = some table ∧ Plain table ∧
      ofToml "top = 'Top'\n[steps]\nthen = 'Then'\n[steps.nested]\ndeep = 'Deep'\n" = .ok catalog ∧ catalog.size = 3 := by
  obtain ⟨table, read, holds⟩ : ∃ table,
      parse? "top = 'Top'\n[steps]\nthen = 'Then'\n[steps.nested]\ndeep = 'Deep'\n" = some table ∧
        decide (Plain table ∧ (leaves table).length = 3 ∧ ∀ leaf ∈ leaves table, IsText leaf.2) = true :=
    (Option.any_eq_true _ _).1 (by decide +kernel)
  obtain ⟨plain, three, texts⟩ := of_decide_eq_true holds
  obtain ⟨flattens, reads, -⟩ := flattening_loses_nothing
  obtain ⟨ordered, same⟩ := reads _ table read
  have flattened := flattens table ordered plain
  obtain ⟨catalog, made⟩ := flattened.succeeds.2 texts
  exact ⟨table, catalog, read, plain, same.trans made, (flattened.size catalog made).trans three⟩

end Catalog
end FlowScript
