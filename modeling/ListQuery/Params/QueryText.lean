import ListQuery.Params
import ListQuery.Params.Error
import ListQuery.Text.Cut
import ListQuery.Text.Percent

/-!
# Parameters in a query text

A query text is a sequence of segments between ampersands, behind an optional
question mark. A segment that is not empty gives one string for one key, cut at
its first equals sign; a segment without one gives the empty string. Segments,
keys and values are cut before anything in them is decoded, so what is escaped
never cuts. The first part that cannot be decoded fails the whole text.
-/

namespace ListQuery.Params

namespace QueryText

/-- A query text without the question mark in front of it. -/
def stripMark : List Char → List Char
  | '?' :: rest => rest
  | text => text

/-- The segments of a query text that are not empty, in order. Ampersands cut
it, decoded or not, and a question mark counts only as its first character. -/
def segments (text : List Char) : List (List Char) :=
  ((stripMark text).splitOn '&').filter fun segment => !segment.isEmpty

/-- A key or a value, decoded. What cannot be decoded is reported as it stands
in the query text, before `spaced` replaces its plus signs. -/
def decodePart (part : List Char) : Except Error String :=
  match Text.Percent.decode part with
  | .ok text => .ok (String.ofList text)
  | .error fault => .error (.badEncoding (String.ofList part) fault)

/-- The key and the string of a segment; a fault in the key comes first. -/
def decodeSegment (segment : List Char) : Except Error (String × String) := do
  let key ← decodePart (Text.before '=' segment)
  let text ← decodePart (Text.after '=' segment)
  return (key, text)

/-- The keys and strings of a query text, in order, or the first fault. -/
def pairs (text : List Char) : Except Error (List (String × String)) :=
  (segments text).mapM decodeSegment

end QueryText

/-- The parameters that a query text gives: the strings of its `segments` one
after the other, as if each were appended to what is there. -/
def ofQueryText (text : String) : Except Error Params :=
  (QueryText.pairs text.toList).map ofPairs

end ListQuery.Params
