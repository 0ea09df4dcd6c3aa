/-!
# Lists between commas

Where a text lists something, its items stand between commas, and each is read
on its own. No text lists nothing, and neither does the empty one, although it
has one part.
-/

namespace ListQuery.Text

/-- What `read` makes of the parts of a text between its commas; nothing when
there is no text or an empty one. Sort keys and selections are both read so. -/
def listed? {α : Type} (read : List Char → α) (text : Option String) : Option (List α) := do
  let chars ← text.map String.toList
  if chars.isEmpty then none else some ((chars.splitOn ',').map read)

end ListQuery.Text
