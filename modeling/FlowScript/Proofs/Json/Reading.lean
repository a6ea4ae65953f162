import FlowScript.Json.Record
import Mathlib.Data.List.Basic

/-!
# Reading what was written

A reader with a bound reads a value back if it yields the value for every bound that is not less than the depth of what
was written. Arrays, values that may be null and objects are read back when their parts are.
-/

namespace FlowScript.Json

/-! ## Depth -/

theorem depth_le_of_mem_members {m : String × Json} {members : List (String × Json)} (mem : m ∈ members) :
    m.2.depth ≤ depthOfMembers members := by
  induction members with
  | nil => simp at mem
  | cons k ms ih =>
    rw [depthOfMembers]
    rcases List.mem_cons.1 mem with rfl | later
    · exact Nat.le_max_left _ _
    · exact Nat.le_trans (ih later) (Nat.le_max_right _ _)

theorem depth_le_of_mem_items {v : Json} {items : List Json} (mem : v ∈ items) : v.depth ≤ depthOfItems items := by
  induction items with
  | nil => simp at mem
  | cons w ws ih =>
    rw [depthOfItems]
    rcases List.mem_cons.1 mem with rfl | later
    · exact Nat.le_max_left _ _
    · exact Nat.le_trans (ih later) (Nat.le_max_right _ _)

/-! ## Members -/

section
variable {α : Type} {name key : String} {v : Json} {ms : List (String × Json)} {read : Json → Option α} {missing : α}

theorem member?_cons_self : member? name (obj ((name, v) :: ms)) = some v :=
  List.lookup_cons_self

theorem member?_cons_of_ne (other : key ≠ name) : member? name (obj ((key, v) :: ms)) = member? name (obj ms) := by
  rw [member?, member?, List.lookup_cons, beq_eq_false_iff_ne.2 other.symm]

@[simp] theorem field?_cons_self : field? (obj ((name, v) :: ms)) name read = read v := by
  rw [field?, member?_cons_self, Option.bind_some]

@[simp] theorem field?_cons_of_ne (other : key ≠ name) :
    field? (obj ((key, v) :: ms)) name read = field? (obj ms) name read := by
  rw [field?, member?_cons_of_ne other, field?]

@[simp] theorem optional?_cons_self : optional? (obj ((name, v) :: ms)) name read = nullable? read v := by
  rw [optional?, member?_cons_self]

@[simp] theorem optional?_cons_of_ne (other : key ≠ name) :
    optional? (obj ((key, v) :: ms)) name read = optional? (obj ms) name read := by
  rw [optional?, member?_cons_of_ne other, optional?]

@[simp] theorem default?_cons_self : default? (obj ((name, v) :: ms)) name read missing = read v := by
  rw [default?, member?_cons_self]

@[simp] theorem default?_cons_of_ne (other : key ≠ name) :
    default? (obj ((key, v) :: ms)) name read missing = default? (obj ms) name read missing := by
  rw [default?, member?_cons_of_ne other, default?]

end

@[simp] theorem str?_str (s : String) : str? (str s) = some s := rfl

@[simp] theorem bool?_bool (b : Bool) : bool? (bool b) = some b := rfl

@[simp] theorem list?_str (texts : List String) : list? str? (arr (texts.map str)) = some texts := by
  show (texts.map str).mapM str? = some texts
  induction texts with
  | nil => rfl
  | cons s ss ih =>
    rw [List.map_cons, List.mapM_cons, str?_str, ih]
    rfl

@[simp] theorem nullable?_str (text : Option String) : nullable? str? (ofOption str text) = some text := by
  cases text <;> rfl

/-! ## Values that are read back -/

section
variable {α : Type} {read : Nat → Json → Option α} {write : α → Json}

/-- The value is read back from what is written for it, whatever bound allows for the depth. -/
def ReadsBack (read : Nat → Json → Option α) (write : α → Json) (a : α) : Prop :=
  ∀ n, (write a).depth ≤ n → read n (write a) = some a

/-- A member of an object is read once the members may be read. -/
theorem ReadsBack.member {a : α} {n : Nat} {members : List (String × Json)} (h : ReadsBack read write a) (name : String)
    (deep : ∀ m ∈ members, m.2.depth ≤ n) (mem : (name, write a) ∈ members) : read n (write a) = some a :=
  h n (deep _ mem)

/-- An object is read back if it is read back once its members may be read. -/
theorem ReadsBack.of_obj {a : α} {members : List (String × Json)} (written : write a = obj members)
    (reads : ∀ n, (∀ m ∈ members, m.2.depth ≤ n) → read (n + 1) (obj members) = some a) : ReadsBack read write a := by
  intro n deep
  rw [written, depth] at deep
  obtain ⟨n, rfl⟩ : ∃ k, n = k + 1 := ⟨n - 1, by omega⟩
  rw [written]
  exact reads n fun m mem => Nat.le_trans (depth_le_of_mem_members mem) (by omega)

/-- An array is read back if its items are. -/
theorem ReadsBack.list {as : List α} (each : ∀ a ∈ as, ReadsBack read write a) :
    ReadsBack (fun n => list? (read n)) (fun as => arr (as.map write)) as := by
  intro n deep
  have items : ∀ a ∈ as, read n (write a) = some a := by
    intro a mem
    refine each a mem n ?_
    have := depth_le_of_mem_items (List.mem_map_of_mem (f := write) mem)
    rw [depth] at deep
    omega
  clear each deep
  show (as.map write).mapM (read n) = some as
  induction as with
  | nil => rfl
  | cons a as ih =>
    rw [List.map_cons, List.mapM_cons, items a List.mem_cons_self, ih fun b mem => items b (List.mem_cons_of_mem _ mem)]
    rfl

/-- A value that may be absent is read back if it is when it is there, and null stands for nothing else. -/
theorem ReadsBack.nullable {o : Option α} (refused : ∀ n, read n null = none) (each : ∀ a ∈ o, ReadsBack read write a) :
    ReadsBack (fun n => nullable? (read n)) (ofOption write) o := by
  intro n deep
  refine nullable?_ofOption (fun a mem => ?_) fun a mem written => ?_
  · obtain rfl := Option.mem_def.1 mem
    exact each a rfl n deep
  · -- What is written for a value is not null, as null would not be read as the value.
    have read_ := each a mem (write a).depth (Nat.le_refl _)
    rw [written, refused] at read_
    contradiction

end

end FlowScript.Json
