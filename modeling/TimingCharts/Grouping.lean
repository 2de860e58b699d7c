/-!
# Ordered groups

`group` collects the values that share a key. Groups are in increasing order of their keys,
and the values of a group are in the order in which they came.
-/

namespace TimingCharts

variable {κ τ α : Type} [Ord κ]

def addToGroup (key : κ) (value : τ) : List (κ × List τ) → List (κ × List τ)
  | [] => [(key, [value])]
  | (k, values) :: rest =>
    match compare key k with
    | .lt => (key, [value]) :: (k, values) :: rest
    | .eq => (k, values ++ [value]) :: rest
    | .gt => (k, values) :: addToGroup key value rest

def group (key : α → κ) (value : α → τ) (items : List α) : List (κ × List τ) :=
  items.foldl (fun groups a => addToGroup (key a) (value a) groups) []

end TimingCharts
