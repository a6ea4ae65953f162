/-!
# JSON values

Objects keep the order of their members. Of numbers only the natural ones have a meaning here; any other is kept as
written.
-/

namespace FlowScript

/-- A JSON value. -/
inductive Json
  | null
  | bool (value : Bool)
  | nat (value : Nat)
  /-- A number that is no natural number, as written. -/
  | otherNumber (text : String)
  | str (value : String)
  | arr (items : List Json)
  | obj (members : List (String × Json))
deriving Inhabited

namespace Json

/-- The value of the first member of a name. -/
def member? (name : String) : Json → Option Json
  | obj members => members.lookup name
  | _ => none

mutual

/-- How many values lie inside one another. -/
def depth : Json → Nat
  | arr items => depthOfItems items + 1
  | obj members => depthOfMembers members + 1
  | _ => 1

def depthOfItems : List Json → Nat
  | [] => 0
  | v :: vs => max v.depth (depthOfItems vs)

def depthOfMembers : List (String × Json) → Nat
  | [] => 0
  | (_, v) :: ms => max v.depth (depthOfMembers ms)

end

mutual

/-- The value without the members of a name, at any depth. -/
def without (name : String) : Json → Json
  | arr items => arr (withoutInItems name items)
  | obj members => obj (withoutInMembers name members)
  | v => v

def withoutInItems (name : String) : List Json → List Json
  | [] => []
  | v :: vs => v.without name :: withoutInItems name vs

def withoutInMembers (name : String) : List (String × Json) → List (String × Json)
  | [] => []
  | (key, v) :: ms => if key = name then withoutInMembers name ms else (key, v.without name) :: withoutInMembers name ms

end

/-! ## Reading values -/

/-- The largest natural number that a size may be. -/
def maxSize : Nat := Nat.pow 2 64 - 1

def str? : Json → Option String
  | str s => some s
  | _ => none

def bool? : Json → Option Bool
  | bool b => some b
  | _ => none

/-- A natural number in the range of sizes. -/
def size? : Json → Option Nat
  | nat n => if n ≤ maxSize then some n else none
  | _ => none

/-- Every item of an array, read in order. -/
def list? {α : Type} (read : Json → Option α) : Json → Option (List α)
  | arr items => items.mapM read
  | _ => none

/-- A value that may be null. -/
def nullable? {α : Type} (read : Json → Option α) : Json → Option (Option α)
  | null => some none
  | v => (read v).map some

/-- A member that must be there. -/
def field? {α : Type} (v : Json) (name : String) (read : Json → Option α) : Option α :=
  (v.member? name).bind read

/-- A member that may be missing or null. -/
def optional? {α : Type} (v : Json) (name : String) (read : Json → Option α) : Option (Option α) :=
  match v.member? name with
  | none => some none
  | some member => nullable? read member

/-- A member with a default in case it is missing. -/
def default? {α : Type} (v : Json) (name : String) (read : Json → Option α) (missing : α) : Option α :=
  match v.member? name with
  | none => some missing
  | some member => read member

/-! ## Writing values -/

/-- A value, or null. -/
def ofOption {α : Type} (write : α → Json) : Option α → Json
  | none => null
  | some a => write a

/-- A member that is left out when there is no value. -/
def memberOf {α : Type} (name : String) (write : α → Json) : Option α → List (String × Json)
  | none => []
  | some a => [(name, write a)]

theorem nullable?_ofOption {α : Type} {read : Json → Option α} {write : α → Json} {o : Option α}
    (round : ∀ a ∈ o, read (write a) = some a) (null : ∀ a ∈ o, write a ≠ Json.null) :
    nullable? read (ofOption write o) = some o := by
  cases o with
  | none => rfl
  | some a =>
    have h := null a rfl
    simp only [ofOption]
    unfold nullable?
    split
    · contradiction
    · simp [round a rfl]

end Json
end FlowScript
