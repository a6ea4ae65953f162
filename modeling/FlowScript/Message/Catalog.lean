import FlowScript.Message.Basic
import FlowScript.Message.English
import FlowScript.Message.Template

/-!
# Catalogs of messages

A catalog maps each key to a template. Later entries of a key replace earlier ones.
-/

namespace FlowScript

/-- Templates by key, no key twice. -/
structure Catalog where
  entries : List (String × String)
  once : (entries.map Prod.fst).Nodup
deriving DecidableEq

namespace Catalog

/-- No templates at all. -/
def empty : Catalog := ⟨[], List.nodup_nil⟩

instance : Inhabited Catalog := ⟨empty⟩

/-- The template of a key. -/
def get? (catalog : Catalog) (key : String) : Option String := catalog.entries.lookup key

/-- How many keys have a template. -/
def size (catalog : Catalog) : Nat := catalog.entries.length

/-- Entries with the template of a key put in place. -/
def insertEntry (key template : String) : List (String × String) → List (String × String)
  | [] => [(key, template)]
  | (k, t) :: es => if k = key then (key, template) :: es else (k, t) :: insertEntry key template es

theorem mem_keys_insertEntry {key template k : String} {entries : List (String × String)} :
    k ∈ (insertEntry key template entries).map Prod.fst ↔ k = key ∨ k ∈ entries.map Prod.fst := by
  induction entries with
  | nil => simp [insertEntry]
  | cons e es ih =>
    unfold insertEntry
    split
    · rename_i same
      simp [same]
    · rw [List.map_cons, List.mem_cons, ih, List.map_cons, List.mem_cons, or_left_comm]

theorem nodup_insertEntry {entries : List (String × String)} (once : (entries.map Prod.fst).Nodup) (key template : String) :
    ((insertEntry key template entries).map Prod.fst).Nodup := by
  induction entries with
  | nil => exact List.pairwise_singleton _ key
  | cons e es ih =>
    obtain ⟨fresh, others⟩ := List.nodup_cons.1 once
    unfold insertEntry
    split
    · rename_i same
      exact same ▸ once
    · rename_i other
      exact List.nodup_cons.2 ⟨fun mem => (mem_keys_insertEntry.1 mem).elim other fresh, ih others⟩

/-- The catalog with the template of a key put in place. -/
def insert (catalog : Catalog) (key template : String) : Catalog :=
  ⟨insertEntry key template catalog.entries, nodup_insertEntry catalog.once key template⟩

/-- The catalog with entries put in place in order, later ones winning. -/
def insertAll (catalog : Catalog) (entries : List (String × String)) : Catalog :=
  entries.foldl (fun c (key, template) => c.insert key template) catalog

/-- The catalog with the entries of another, which win. -/
def extend (catalog other : Catalog) : Catalog := catalog.insertAll other.entries

/-- The catalog of entries in order, later ones winning. -/
def ofEntries (entries : List (String × String)) : Catalog := empty.insertAll entries

/-- The English catalog. -/
def english : Catalog := ⟨English.entries, by decide +kernel⟩

/-- Fills the template of the key; a key without a template stands for itself. -/
def localizer (catalog : Catalog) : Localizer := fun key args =>
  match catalog.get? key with
  | some template => Template.fill template args
  | none => key

theorem lookup_insertEntry (key template k : String) (entries : List (String × String)) :
    (insertEntry key template entries).lookup k = if k = key then some template else entries.lookup k := by
  induction entries with
  | nil =>
    by_cases h : k = key
    · simp [insertEntry, h]
    · have hb : (k == key) = false := by simpa using h
      simp [insertEntry, List.lookup_cons, hb, h]
  | cons e es ih =>
    obtain ⟨key', t⟩ := e
    simp only [insertEntry]
    split
    · rename_i same
      subst same
      by_cases h : k = key'
      · simp [h]
      · have hb : (k == key') = false := by simpa using h
        simp [List.lookup_cons, hb, h]
    · rename_i other
      by_cases h : k = key'
      · subst h
        simp [other]
      · have hb : (k == key') = false := by simpa using h
        simp [List.lookup_cons, hb, ih]

theorem get?_insert (catalog : Catalog) (key template k : String) :
    (catalog.insert key template).get? k = if k = key then some template else catalog.get? k :=
  lookup_insertEntry key template k catalog.entries

end Catalog
end FlowScript
