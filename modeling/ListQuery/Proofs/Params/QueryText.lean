import ListQuery.Params.QueryText
import ListQuery.Proofs.Text.Percent

/-!
# Reading query texts back

The query texts of a list of parameters, and that reading any of them gives the
list back.

* **`EncodesSegment`**, **`EncodesSegments`**, **`EncodesQuery`** — what may be
  written for one parameter, for a list of them with empty segments anywhere,
  and for the whole text.
* **`decodeSegment_of_encodes`** — a segment gives its parameter: neither half
  of it holds the character that the next cut looks for.
* **`mapM_decodeSegment`** — by induction on the segments, all of them give the
  list.
* **`ofQueryText_of_encodes`** — the headline. What is escaped is decoded behind
  all cuts, so it makes no parameter, splits none and joins none.
-/

namespace ListQuery.Params.QueryText

open Text.Percent (Encodes Escapes)

/-! ## The query texts of a list of parameters -/

/-- The characters that a value must escape: `&`, which ends it, and `+`, which
would be read as a space. -/
def reservedInValue : List Char := ['&', '+']

/-- The characters that a key must escape: it ends at the first `=`, too. -/
def reservedInKey : List Char := '=' :: reservedInValue

/-- `EncodesSegment pair segment` says that the segment gives the string of the
pair for its key. The equals sign may be left out in front of the empty string,
if anything is left of the segment then. -/
inductive EncodesSegment : String × String → List Char → Prop where
  | assigned {key text : String} {k v : List Char} (hkey : Encodes reservedInKey key.toList k)
      (htext : Encodes reservedInValue text.toList v) :
      EncodesSegment (key, text) (k ++ '=' :: v)
  | bare {key : String} {k : List Char} (hkey : Encodes reservedInKey key.toList k) (hk : k ≠ []) :
      EncodesSegment (key, "") k

/-- `EncodesSegments pairs run` says that the segments give the keys and strings
of the pairs in order. Empty segments may stand anywhere, as they do where an
ampersand is doubled or ends the text. -/
inductive EncodesSegments : List (String × String) → List (List Char) → Prop where
  | nil : EncodesSegments [] []
  | empty {pairs : List (String × String)} {segments : List (List Char)}
      (h : EncodesSegments pairs segments) : EncodesSegments pairs ([] :: segments)
  | cons {pair : String × String} {segment : List Char} {pairs : List (String × String)}
      {segments : List (List Char)} (hsegment : EncodesSegment pair segment)
      (h : EncodesSegments pairs segments) : EncodesSegments (pair :: pairs) (segment :: segments)

/-- `EncodesQuery pairs text` says that the query text gives the keys and
strings in order: segments between ampersands, behind a question mark. The mark
may be left out where the segments do not start with one. -/
inductive EncodesQuery (pairs : List (String × String)) : List Char → Prop where
  | marked {segments : List (List Char)} (h : EncodesSegments pairs segments) :
      EncodesQuery pairs ('?' :: ['&'].intercalate segments)
  | unmarked {segments : List (List Char)} (h : EncodesSegments pairs segments)
      (hmark : (['&'].intercalate segments).head? ≠ some '?') :
      EncodesQuery pairs (['&'].intercalate segments)

/-! ## One segment -/

/-- A key that is written with `reservedInKey` escaped holds neither an equals
sign nor an ampersand, so that it ends where it is meant to. -/
theorem not_mem_of_encodes_key {key k : List Char} (h : Encodes reservedInKey key k) :
    '=' ∉ k ∧ '&' ∉ k :=
  ⟨Text.Percent.not_mem_of_encodes h (by decide) (by decide) (by decide) (by decide),
    Text.Percent.not_mem_of_encodes h (by decide) (by decide) (by decide) (by decide)⟩

/-- `decodePart` reads what `Encodes` a text as this text, if plus signs in it
are escaped. -/
theorem decodePart_of_encodes {reserved code : List Char} {text : String} (hplus : '+' ∈ reserved)
    (h : Encodes reserved text.toList code) : decodePart code = .ok text := by
  rw [decodePart, Text.Percent.decode_of_encodes hplus h]
  simp

/-- A segment that `EncodesSegment` writes is not empty and is not cut where it
is not meant to be, so it is found again between the ampersands. -/
theorem ne_nil_of_encodesSegment {pair : String × String} {segment : List Char}
    (h : EncodesSegment pair segment) : segment ≠ [] ∧ '&' ∉ segment := by
  cases h with
  | assigned hkey htext =>
    have hvalue := Text.Percent.not_mem_of_encodes htext (c := '&') (by decide) (by decide)
      (by decide) (by decide)
    refine ⟨by simp, ?_⟩
    rw [List.mem_append, List.mem_cons]
    rintro (hk | heq | hv)
    · exact (not_mem_of_encodes_key hkey).2 hk
    · exact absurd heq (by decide)
    · exact hvalue hv
  | bare hkey hk => exact ⟨hk, (not_mem_of_encodes_key hkey).2⟩

/-- `decodeSegment` gives the key and the string that a segment was written for:
neither half of it holds the character that the next cut looks for. -/
theorem decodeSegment_of_encodes {pair : String × String} {segment : List Char}
    (h : EncodesSegment pair segment) : decodeSegment segment = .ok pair := by
  cases h with
  | assigned hkey htext =>
    have hsep := (not_mem_of_encodes_key hkey).1
    rw [decodeSegment, Text.before_append_sep hsep, Text.after_append_sep hsep,
      decodePart_of_encodes (by decide) hkey, decodePart_of_encodes (by decide) htext]
    rfl
  | bare hkey hk =>
    have hsep := (not_mem_of_encodes_key hkey).1
    have hempty : decodePart [] = .ok "" := rfl
    rw [decodeSegment, Text.before_of_not_mem hsep, Text.after_of_not_mem hsep,
      decodePart_of_encodes (by decide) hkey, hempty]
    rfl

/-! ## The whole text -/

/-- No segment that `EncodesSegments` writes holds an ampersand. Induction on
the segments. -/
theorem not_mem_of_encodesSegments {pairs : List (String × String)} {run : List (List Char)}
    (h : EncodesSegments pairs run) : ∀ segment ∈ run, '&' ∉ segment := by
  induction h with
  | nil => simp
  | empty _ ih => simpa using ih
  | cons hsegment _ ih => simpa using ⟨(ne_nil_of_encodesSegment hsegment).2, ih⟩

/-- `splitOn` behind `intercalate` leaves the segments that are not empty. Empty
ones may come up or get lost on the way. -/
theorem filter_splitOn_intercalate {run : List (List Char)} (h : ∀ segment ∈ run, '&' ∉ segment) :
    ((['&'].intercalate run).splitOn '&').filter (fun segment => !segment.isEmpty) =
      run.filter fun segment => !segment.isEmpty := by
  by_cases hrun : run = []
  · -- no segments make the empty text, and this has one segment, which is empty
    subst hrun
    rfl
  · rw [List.splitOn_intercalate '&' h hrun]

theorem stripMark_of_head {text : List Char} (h : text.head? ≠ some '?') :
    stripMark text = text := by
  cases text with
  | nil => rfl
  | cons c rest =>
    rw [stripMark]
    rintro _ heq
    exact h (by rw [heq]; rfl)

theorem segments_marked {run : List (List Char)} (h : ∀ segment ∈ run, '&' ∉ segment) :
    segments ('?' :: ['&'].intercalate run) = run.filter fun segment => !segment.isEmpty := by
  rw [segments, stripMark, filter_splitOn_intercalate h]

/-- Where there is no question mark in front, `segments` gives those that were
joined too, as long as these do not start with one. -/
theorem segments_unmarked {run : List (List Char)} (h : ∀ segment ∈ run, '&' ∉ segment)
    (hmark : (['&'].intercalate run).head? ≠ some '?') :
    segments (['&'].intercalate run) = run.filter fun segment => !segment.isEmpty := by
  rw [segments, stripMark_of_head hmark, filter_splitOn_intercalate h]

/-- `decodeSegment` gives, segment by segment, the list of parameters that they
were written for. Induction on the segments. -/
theorem mapM_decodeSegment {pairs : List (String × String)} {run : List (List Char)}
    (h : EncodesSegments pairs run) :
    (run.filter fun segment => !segment.isEmpty).mapM decodeSegment = .ok pairs := by
  induction h with
  | nil => rfl
  | empty _ ih => simpa using ih
  | cons hsegment _ ih =>
    -- a segment is not empty, so it is not filtered out with the empty ones
    have hne := (ne_nil_of_encodesSegment hsegment).1
    rw [List.filter_cons_of_pos (by simpa using hne), List.mapM_cons,
      decodeSegment_of_encodes hsegment, ih]
    rfl

/-- `pairs` gives the keys and strings that a query text was written for,
whichever of its many forms it has. -/
theorem pairs_of_encodes {params : List (String × String)} {text : List Char}
    (h : EncodesQuery params text) : pairs text = .ok params := by
  cases h with
  | marked hrun =>
    rw [pairs, segments_marked (not_mem_of_encodesSegments hrun), mapM_decodeSegment hrun]
  | unmarked hrun hmark =>
    rw [pairs, segments_unmarked (not_mem_of_encodesSegments hrun) hmark, mapM_decodeSegment hrun]

/-- **Reading a query text back.** `pairs` gives back the list of parameters
from every text that `EncodesQuery` it, and `ofQueryText` the parameters that
result from giving one string after the other (`append`). -/
theorem ofQueryText_of_encodes {params : List (String × String)} {text : String}
    (h : EncodesQuery params text.toList) :
    pairs text.toList = .ok params ∧
      ofQueryText text =
        .ok (params.foldl (fun built pair => append built pair.1 pair.2) OrderedMap.empty) := by
  have hpairs := pairs_of_encodes h
  refine ⟨hpairs, ?_⟩
  unfold ofQueryText
  rw [hpairs]
  rfl

/-- `ofQueryText_of_encodes` at a mark in front of a key that starts with one,
escapes of separators in either case, a plus sign for a space, a percent sign
that stands for itself, empty segments and a segment without an equals sign. -/
theorem ofQueryText_of_encodes_separators :
    EncodesQuery [("?&", "+ =%4"), ("é", "")] "??%26=%2b+=%4&&%C3%a9&".toList ∧
      pairs "??%26=%2b+=%4&&%C3%a9&".toList = .ok [("?&", "+ =%4"), ("é", "")] ∧
      ofQueryText "??%26=%2b+=%4&&%C3%a9&" =
        .ok ([("?&", "+ =%4"), ("é", "")].foldl (fun built pair => append built pair.1 pair.2)
          OrderedMap.empty) := by
  have hamp : Escapes (String.utf8EncodeChar '&') ['%', '2', '6'] :=
    show Escapes [0x26] _ from .cons (by decide) (by decide) .nil
  have hplus : Escapes (String.utf8EncodeChar '+') ['%', '2', 'b'] :=
    show Escapes [0x2B] _ from .cons (by decide) (by decide) .nil
  have haccent : Escapes (String.utf8EncodeChar 'é') ['%', 'C', '3', '%', 'a', '9'] :=
    show Escapes [0xC3, 0xA9] _ from
      .cons (by decide) (by decide) (.cons (by decide) (by decide) .nil)
  have hfirst : EncodesSegment ("?&", "+ =%4") "?%26=%2b+=%4".toList :=
    .assigned (k := ['?', '%', '2', '6'])
      (.literal (by decide) (by decide) (.escaped hamp .nil))
      (.escaped hplus (.plus (.literal (by decide) (by decide) (.literal (by decide) (by decide)
        (.literal (by decide) (by decide) .nil)))))
  have hsecond : EncodesSegment ("é", "") "%C3%a9".toList :=
    .bare (.escaped haccent .nil) (by decide)
  have hquery : EncodesQuery [("?&", "+ =%4"), ("é", "")] "??%26=%2b+=%4&&%C3%a9&".toList :=
    .marked (.cons hfirst (.empty (.cons hsecond (.empty .nil))))
  exact ⟨hquery, ofQueryText_of_encodes hquery⟩

end ListQuery.Params.QueryText
