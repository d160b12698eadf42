/-!
# Search

Whether one text occurs in another.
-/

namespace LivePlayback.Text
set_option autoImplicit false

def contains (part : List Char) : List Char → Bool
  | [] => part.isEmpty
  | c :: rest => part.isPrefixOf (c :: rest) || contains part rest

theorem contains_iff {part text : List Char} : contains part text = true ↔ part <:+: text := by
  induction text with
  | nil => simp [contains, List.infix_nil]
  | cons c rest ih => simp [contains, ih, List.infix_cons_iff]

end LivePlayback.Text
