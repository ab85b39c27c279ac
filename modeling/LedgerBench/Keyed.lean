/-!
Lists with one entry for each key.

A value is stored under a key by putting it in front of the entries of all other keys.
-/

namespace LedgerBench

/-- The value that was put under a key is found there, and under any other key what was there
before. -/
theorem lookup_put {α β : Type} [BEq α] [LawfulBEq α] (entries : List (α × β)) (key : α)
    (value : β) (other : α) :
    ((key, value) :: entries.filter fun entry => entry.1 != key).lookup other =
      if other == key then some value else entries.lookup other := by
  have hothers (hne : other ≠ key) :
      (entries.filter fun entry => entry.1 != key).lookup other = entries.lookup other := by
    induction entries with
    | nil => rfl
    | cons entry rest ih =>
      obtain ⟨k, stored⟩ := entry
      by_cases hk : k = key
      · simpa [List.lookup_cons, hk, beq_false_of_ne hne] using ih
      · rw [List.filter_cons_of_pos (by simpa using hk), List.lookup_cons, List.lookup_cons, ih]
  by_cases hother : other = key
  · simp [hother]
  · simp [List.lookup_cons, beq_false_of_ne hother, hothers hother]

end LedgerBench
