import CircuitPlan.Ascending

/-!
# Grouping by key

Lists of keyed values are split by key, with keys in ascending order and the values of a key in
the order of the list.
-/

namespace CircuitPlan

def groupByKey {α : Type} (entries : List (Nat × α)) : List (Nat × List α) :=
  (Ascending.ofList (entries.map (·.1))).map fun key =>
    (key, (entries.filter fun entry => entry.1 == key).map (·.2))

end CircuitPlan
