/-!
# Messages and localizers

A view says what it wants to say by a message: a key and named arguments. A localizer turns messages into text. A
`Worded` value carries the number of texts looked up while it was made.
-/

namespace FlowScript

/-- What is to be said: a key, and arguments in order. -/
structure Message where
  key : String
  args : List (String × String)
deriving Repr, DecidableEq, Inhabited

/-- The text for a key and arguments. -/
abbrev Localizer := (key : String) → (args : List (String × String)) → String

namespace Message

/-- A message without arguments. -/
def plain (key : String) : Message := ⟨key, []⟩

/-- The text of a message. -/
def localize (m : Message) (localizer : Localizer) : String := localizer m.key m.args

end Message

namespace Localizer

/-- Shows the key and the arguments themselves. -/
def echo : Localizer := fun key args =>
  key ++ "[" ++ ",".intercalate (args.map fun (name, value) => name ++ "=" ++ value) ++ "]"

/-- Shows the key alone. -/
def keyOnly : Localizer := fun key _ => key

end Localizer

/-- A value together with the number of texts that were looked up to make it. -/
structure Worded (α : Type) where
  value : α
  lookups : Nat
deriving Repr

namespace Worded

instance : Monad Worded where
  pure a := ⟨a, 0⟩
  bind x f := ⟨(f x.value).value, x.lookups + (f x.value).lookups⟩

@[simp] theorem value_pure {α : Type} (a : α) : (pure a : Worded α).value = a := rfl

@[simp] theorem lookups_pure {α : Type} (a : α) : (pure a : Worded α).lookups = 0 := rfl

@[simp] theorem value_bind {α β : Type} (x : Worded α) (f : α → Worded β) :
    (x >>= f).value = (f x.value).value := rfl

@[simp] theorem lookups_bind {α β : Type} (x : Worded α) (f : α → Worded β) :
    (x >>= f).lookups = x.lookups + (f x.value).lookups := rfl

@[simp] theorem value_map {α β : Type} (f : α → β) (x : Worded α) : (f <$> x).value = f x.value := rfl

@[ext] theorem ext {α : Type} {x y : Worded α} (value : x.value = y.value) (lookups : x.lookups = y.lookups) :
    x = y := by
  cases x; cases y; simp_all

end Worded

/-- Looks the text of a message up. -/
def Message.worded (m : Message) (localizer : Localizer) : Worded String := ⟨m.localize localizer, 1⟩

@[simp] theorem Message.value_worded (m : Message) (localizer : Localizer) :
    (m.worded localizer).value = m.localize localizer := rfl

end FlowScript
