/-!
# Environment variables
-/

namespace FlowScript

/-- Environment variables: names with values, in the order in which they were set, no name twice. -/
abbrev Variables := List (String × String)

namespace Variables

/-- The value of a variable, if it is set. -/
def get? (vs : Variables) (name : String) : Option String := vs.lookup name

/-- Sets a variable that is not set yet. -/
def setIfUnset (vs : Variables) (name value : String) : Variables :=
  if (vs.get? name).isSome then vs else vs ++ [(name, value)]

end Variables
end FlowScript
