import Stencil.Value.Basic
import Stencil.Decimal.Numeral

/-!
# Looking into values

Values are looked into by name or by index. What cannot be found is undefined;
no look-up fails.

* `Value.item`: by index. Texts are indexed by character, and a map by the
  decimal text of the index;
* `Value.attr`: by name. Sequences and texts answer to `length` and to
  whole numbers.
-/

namespace Stencil.Value

/-- An index is a whole number of sixty-four bits. -/
def index? (name : String) : Option Nat :=
  (Decimal.natural? name.toList).filter (· < Nat.pow 2 64)

/-- The item at an index. -/
def item (v : Value) (index : Nat) : Value :=
  match v with
  | seq items => items[index]?.getD undefined
  | string s => (s.toList[index]?.map ofChar).getD undefined
  | map entries => (Entries.get? entries (toString index)).getD undefined
  | _ => undefined

/-- The attribute under a name. -/
def attr (v : Value) (name : String) : Value :=
  match v with
  | map entries => (Entries.get? entries name).getD undefined
  | seq _ | string _ =>
    if name = "length" then (v.length?.map ofNat).getD undefined
    else ((index? name).map v.item).getD undefined
  | _ => undefined

end Stencil.Value
