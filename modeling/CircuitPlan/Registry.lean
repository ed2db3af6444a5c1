/-!
# Registry of executors

Executors are found by the name they are registered under. Each entry holds the name that the
executor calls itself.
-/

namespace CircuitPlan

/-- Entries in ascending order of their names, by code point. -/
structure Registry where
  entries : List (String × String)

namespace Registry

def place (name label : String) : List (String × String) → List (String × String)
  | [] => [(name, label)]
  | entry :: rest =>
      if name < entry.1 then (name, label) :: entry :: rest
      else if name = entry.1 then (name, label) :: rest
      else entry :: place name label rest

def register (registry : Registry) (name label : String) : Registry :=
  ⟨place name label registry.entries⟩

def get? (registry : Registry) (name : String) : Option String := registry.entries.lookup name

def contains (registry : Registry) (name : String) : Bool := (registry.get? name).isSome

def names (registry : Registry) : List String := registry.entries.map (·.1)

def registerHost (registry : Registry) : Registry := registry.register "cpu" "cpu"

def initial : Registry := registerHost ⟨[]⟩

end Registry
end CircuitPlan
