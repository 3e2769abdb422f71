import Mathlib.Data.Nat.Notation

/-!
# Histories

A history is a list of what has happened, the oldest first. What it says of the present is often
said by the last of its entries that have a say at all (`lastValue?`).
-/

namespace Machine6809

variable {α β : Type}

/-- The last value that the entries of a history give. -/
def lastValue? (value? : α → Option β) (history : List α) : Option β :=
  history.reverse.findSome? value?

variable (value? : α → Option β)

/-- Nothing has been said in a history without entries. -/
@[simp] theorem lastValue?_nil : lastValue? value? [] = none := rfl

/-- What the later part of a history says counts, and what the earlier part says if that is nothing.
-/
theorem lastValue?_append (first second : List α) :
    lastValue? value? (first ++ second)
      = (lastValue? value? second).or (lastValue? value? first) := by
  unfold lastValue?
  rw [List.reverse_append, List.findSome?_append]

/-- There is no last value exactly if no entry gives one. -/
theorem lastValue?_eq_none_iff (history : List α) :
    lastValue? value? history = none ↔ ∀ x ∈ history, value? x = none := by
  unfold lastValue?
  rw [List.findSome?_eq_none_iff]
  simp only [List.mem_reverse]

/-- The oldest entry counts only if no later one has a say. -/
theorem lastValue?_cons (x : α) (history : List α) :
    lastValue? value? (x :: history) = (lastValue? value? history).or (value? x) := by
  rw [← List.singleton_append, lastValue?_append]
  refine congrArg _ ?_
  show List.findSome? value? [x] = value? x
  rw [List.findSome?_singleton]

/-- The newest entry counts before all others. -/
theorem lastValue?_concat (history : List α) (x : α) :
    lastValue? value? (history ++ [x]) = (value? x).or (lastValue? value? history) := by
  rw [lastValue?_append, lastValue?_cons, lastValue?_nil, Option.none_or]

end Machine6809
