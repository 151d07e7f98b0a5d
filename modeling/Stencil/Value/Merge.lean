import Stencil.Value.Basic

/-!
# Merged maps and contexts

* `Value.merge`: one map from many values. Later maps write over earlier ones,
  and what is no map is passed over;
* `Value.context`: the map of explicit pairs over a list of bases. The pairs
  come first, then the bases from left to right.
-/

namespace Stencil.Value

/-- The entries of all maps in a list, later ones written over earlier ones. -/
def mergeEntries (vs : List Value) : Entries Value :=
  vs.foldl (fun out v => Entries.merge out (v.entries?.getD [])) []

/-- One map from many. -/
def merge (vs : List Value) : Value := map (mergeEntries vs)

/-- The context of explicit pairs and bases. -/
def context (pairs : List (String × Value)) (bases : List Value) : Value :=
  if bases.isEmpty then ofPairs pairs else merge (bases.reverse ++ [ofPairs pairs])

end Stencil.Value
