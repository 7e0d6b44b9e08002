/-!
# Searching in texts

Whether a text holds another. Main statement: it does exactly when the other stands somewhere
inside (`contains_iff_infix`).
-/

namespace ContentGraph.Text

/-- Holds when `part` stands somewhere in a text. -/
def contains (part : List Char) : List Char → Bool
  | [] => part.isEmpty
  | c :: s => part.isPrefixOf (c :: s) || contains part s

@[simp] theorem contains_nil_left (s : List Char) : contains [] s = true := by
  cases s <;> rfl

theorem contains_iff_infix {part s : List Char} : contains part s = true ↔ part <:+: s := by
  induction s with
  | nil => cases part <;> simp [contains]
  | cons c s ih => simp [contains, List.infix_cons_iff, ih]

end ContentGraph.Text
