import Mathlib.Logic.Basic
import ListQuery.Session
import ListQuery.Proofs.Params.QueryText
import ListQuery.Proofs.Text.Percent.Bytes
import ListQuery.Proofs.Text.Split
import ListQuery.Proofs.Traversal

/-!
# Query texts that cannot be read

A query text fails for one reason only: a key or a value in it stands for bytes
that are not well-formed.

* **`Parts`** — the keys and values of a query text as they stand in it, in
  order.
* **`mapM_decodePart`** — the transport: reading segment by segment, the key of
  each before its value, is reading part by part.
* **`ofQueryText_eq_error_iff`** — the headline: the first part with a fault is
  blamed, and nothing behind it matters.
-/

namespace ListQuery.Params.QueryText

open Text.Percent (StandsFor AsciiEscapes)
open Text.Utf8 (WellFormed)

/-! ## The parts of a query text -/

/-- `SegmentParts run parts` gives the keys and values of segments, in order. A
segment has its key in front of its first equals sign, and an empty value if it
has no such sign. An empty segment has neither. -/
inductive SegmentParts : List (List Char) → List (List Char) → Prop where
  | nil : SegmentParts [] []
  | empty {run parts : List (List Char)} (h : SegmentParts run parts) :
      SegmentParts ([] :: run) parts
  | assigned {key value : List Char} {run parts : List (List Char)} (hkey : '=' ∉ key)
      (h : SegmentParts run parts) :
      SegmentParts ((key ++ '=' :: value) :: run) (key :: value :: parts)
  | bare {key : List Char} {run parts : List (List Char)} (hkey : '=' ∉ key) (hne : key ≠ [])
      (h : SegmentParts run parts) : SegmentParts (key :: run) (key :: [] :: parts)

/-- `Parts text parts` gives the keys and values of a query text, in order:
those of its segments, which are what stands between the ampersands, behind one
question mark. Nothing is decoded here, so this says where a text is cut and no
more. -/
inductive Parts : List Char → List (List Char) → Prop where
  | marked {run parts : List (List Char)} (hamp : ∀ segment ∈ run, '&' ∉ segment)
      (h : SegmentParts run parts) : Parts ('?' :: ['&'].intercalate run) parts
  | unmarked {run parts : List (List Char)} (hamp : ∀ segment ∈ run, '&' ∉ segment)
      (hmark : (['&'].intercalate run).head? ≠ some '?') (h : SegmentParts run parts) :
      Parts (['&'].intercalate run) parts

/-- All segments have `SegmentParts`. Induction on the segments. -/
theorem exists_segmentParts (run : List (List Char)) : ∃ parts, SegmentParts run parts := by
  induction run with
  | nil => exact ⟨[], .nil⟩
  | cons segment run ih =>
    obtain ⟨parts, h⟩ := ih
    by_cases hsep : '=' ∈ segment
    · obtain ⟨key, value, rfl, hkey⟩ := List.eq_append_cons_of_mem hsep
      exact ⟨_, .assigned hkey h⟩
    · by_cases hne : segment = []
      · subst hne
        exact ⟨_, .empty h⟩
      · exact ⟨_, .bare hsep hne h⟩

/-- Every query text has `Parts`: those of the segments that cutting it
gives. -/
theorem exists_parts (text : List Char) : ∃ parts, Parts text parts := by
  obtain ⟨parts, h⟩ := exists_segmentParts ((stripMark text).splitOn '&')
  have hamp : ∀ segment ∈ (stripMark text).splitOn '&', '&' ∉ segment :=
    fun _ => Text.not_mem_of_mem_splitOn
  have hjoin : ['&'].intercalate ((stripMark text).splitOn '&') = stripMark text :=
    List.intercalate_splitOn '&'
  refine ⟨parts, ?_⟩
  by_cases hmark : text.head? = some '?'
  · -- only one mark is taken off, so the rest may start with another one
    obtain ⟨rest, rfl⟩ : ∃ rest, text = '?' :: rest := List.head?_eq_some_iff.mp hmark
    rw [← show ['&'].intercalate ((stripMark ('?' :: rest)).splitOn '&') = rest from hjoin]
    exact .marked hamp h
  · rw [stripMark_of_head hmark] at hjoin hamp h
    rw [← hjoin]
    exact .unmarked hamp (by rwa [hjoin]) h

/-- `SegmentParts` are what the cuts at the equals signs give, `Text.before` and
`Text.after`. Induction on the segments. -/
theorem eq_flatMap_of_segmentParts {run parts : List (List Char)} (h : SegmentParts run parts) :
    parts = (run.filter fun segment => !segment.isEmpty).flatMap fun segment =>
      [Text.before '=' segment, Text.after '=' segment] := by
  induction h with
  | nil => rfl
  | empty _ ih => simpa using ih
  | assigned hkey _ ih =>
    rw [List.filter_cons_of_pos (by simp), List.flatMap_cons, Text.before_append_sep hkey,
      Text.after_append_sep hkey, ← ih]
    rfl
  | bare hkey hne _ ih =>
    rw [List.filter_cons_of_pos (by simpa using hne), List.flatMap_cons,
      Text.before_of_not_mem hkey, Text.after_of_not_mem hkey, ← ih]
    rfl

/-- A query text has its `Parts` in one way only, since cutting at the
ampersands gives back the segments. -/
theorem parts_unique {text : List Char} {parts parts' : List (List Char)} (h : Parts text parts)
    (h' : Parts text parts') : parts = parts' := by
  have hparts : ∀ {parts}, Parts text parts →
      parts = (segments text).flatMap fun segment =>
        [Text.before '=' segment, Text.after '=' segment] := by
    intro parts h
    cases h with
    | marked hamp hrun => rw [segments_marked hamp, eq_flatMap_of_segmentParts hrun]
    | unmarked hamp hmark hrun =>
      rw [segments_unmarked hamp hmark, eq_flatMap_of_segmentParts hrun]
  rw [hparts h, hparts h']

/-- Every one of the `SegmentParts` stands within a segment. Induction on the
segments. -/
theorem infix_of_mem_segmentParts {run parts : List (List Char)} (h : SegmentParts run parts) :
    ∀ part ∈ parts, ∃ segment ∈ run, part <:+: segment := by
  induction h with
  | nil => simp
  | empty _ ih => simpa using fun part hpart => .inr (ih part hpart)
  | @assigned key value run parts _ _ ih =>
    have hkey : key <:+: key ++ '=' :: value := ⟨[], '=' :: value, rfl⟩
    have hvalue : value <:+: key ++ '=' :: value := ⟨key ++ ['='], [], by simp⟩
    simpa [hkey, hvalue] using fun part hpart => .inr (ih part hpart)
  | @bare key run parts _ _ _ ih =>
    simpa using fun part hpart => .inr (ih part hpart)

/-- Every one of the `Parts` stands within the query text, as it is written
there. So what holds of all stretches of the text holds of its parts. -/
theorem infix_of_mem_parts {text : List Char} {parts : List (List Char)} (h : Parts text parts) :
    ∀ part ∈ parts, part <:+: text := by
  intro part hpart
  cases h with
  | marked _ h =>
    obtain ⟨segment, hmem, hwithin⟩ := infix_of_mem_segmentParts h part hpart
    exact (hwithin.trans (Text.infix_intercalate '&' hmem)).trans ⟨['?'], [], by simp⟩
  | unmarked _ _ h =>
    obtain ⟨segment, hmem, hwithin⟩ := infix_of_mem_segmentParts h part hpart
    exact hwithin.trans (Text.infix_intercalate '&' hmem)

/-! ## Reading part by part -/

theorem decodePart_nil : decodePart [] = .ok "" := rfl

/-- `decodeSegment` by segments, the key of each before its value, is
`decodePart` by parts. Induction on the segments. -/
theorem mapM_decodePart {run parts : List (List Char)} (h : SegmentParts run parts) :
    parts.mapM decodePart =
      (fun pairs => pairs.flatMap fun pair => [pair.1, pair.2]) <$>
        (run.filter fun segment => !segment.isEmpty).mapM decodeSegment := by
  induction h with
  | nil => rfl
  | empty _ ih => simpa using ih
  | @assigned key value run parts hkey _ ih =>
    have hsegment : decodeSegment (key ++ '=' :: value) =
        (do return (← decodePart key, ← decodePart value)) := by
      rw [decodeSegment, Text.before_append_sep hkey, Text.after_append_sep hkey]
    rw [List.filter_cons_of_pos (by simp)]
    -- a fault in the key ends both readings, and one in the value does behind it
    cases hk : decodePart key with
    | error error =>
      rw [mapM_cons_of_error hk, mapM_cons_of_error (by rw [hsegment, hk]; rfl)]
      rfl
    | ok k =>
      cases hv : decodePart value with
      | error error =>
        rw [mapM_cons_of_ok hk, mapM_cons_of_error hv,
          mapM_cons_of_error (by rw [hsegment, hk, hv]; rfl)]
        rfl
      | ok v =>
        rw [mapM_cons_of_ok hk, mapM_cons_of_ok hv, ih,
          mapM_cons_of_ok (y := (k, v)) (by rw [hsegment, hk, hv]; rfl)]
        simp
  | @bare key run parts hkey hne _ ih =>
    have hsegment : decodeSegment key = (do return (← decodePart key, "")) := by
      rw [decodeSegment, Text.before_of_not_mem hkey, Text.after_of_not_mem hkey, decodePart_nil]
      rfl
    rw [List.filter_cons_of_pos (by simpa using hne)]
    cases hk : decodePart key with
    | error error =>
      rw [mapM_cons_of_error hk, mapM_cons_of_error (by rw [hsegment, hk]; rfl)]
      rfl
    | ok k =>
      rw [mapM_cons_of_ok hk, mapM_cons_of_ok decodePart_nil, ih,
        mapM_cons_of_ok (y := (k, "")) (by rw [hsegment, hk]; rfl)]
      simp

/-- `ofQueryText` fails as `decodePart` does on the parts. What has been read is
made into parameters only afterwards, and that cannot fail. -/
theorem ofQueryText_eq_error_iff_mapM {text : String} {parts : List (List Char)}
    (h : Parts text.toList parts) {error : Error} :
    ofQueryText text = .error error ↔ parts.mapM decodePart = .error error := by
  have hpairs : ∀ {chars : List Char}, Parts chars parts →
      (pairs chars = .error error ↔ parts.mapM decodePart = .error error) := by
    intro chars h
    cases h with
    | marked hamp hrun =>
      rw [mapM_decodePart hrun, map_eq_error_iff, pairs, segments_marked hamp]
    | unmarked hamp hmark hrun =>
      rw [mapM_decodePart hrun, map_eq_error_iff, pairs, segments_unmarked hamp hmark]
  rw [← hpairs h]
  exact map_eq_error_iff

/-! ## The part that is blamed -/

/-- `Faulty part` says that the part stands for bytes that encode no text. It is
said of the bytes, without reading them. -/
def Faulty (part : List Char) : Prop := ∃ bs, StandsFor part bs ∧ ¬ WellFormed bs

/-- `decodePart` fails with the fault in the bytes that the part `StandsFor`,
and names the part as it is written, escapes included. -/
theorem decodePart_eq_error_iff {part : List Char} {error : Error} :
    decodePart part = .error error ↔
      ∃ bs fault, StandsFor part bs ∧ Text.Utf8.decode bs = .error fault ∧
        error = .badEncoding (String.ofList part) fault := by
  simp only [Text.Percent.standsFor_iff, decodePart, Text.Percent.decode]
  constructor
  · intro h
    split at h
    · cases h
    · next fault hfault => exact ⟨_, fault, rfl, hfault, (Except.error.inj h).symm⟩
  · rintro ⟨_, fault, rfl, hfault, rfl⟩
    rw [hfault]

theorem faulty_iff {part : List Char} :
    Faulty part ↔ ∃ bs fault, StandsFor part bs ∧ Text.Utf8.decode bs = .error fault := by
  simp only [Faulty, Text.Utf8.not_wellFormed_iff, exists_and_left]

/-- `decodePart` reads a part exactly if it is not `Faulty`. -/
theorem not_faulty_iff {part : List Char} :
    ¬ Faulty part ↔ ∃ text, decodePart part = .ok text := by
  have hfaulty : Faulty part ↔ ∃ error, decodePart part = .error error := by
    simp only [faulty_iff, decodePart_eq_error_iff]
    constructor
    · rintro ⟨bs, fault, hbs, hfault⟩
      exact ⟨_, bs, fault, hbs, hfault, rfl⟩
    · rintro ⟨_, bs, fault, hbs, hfault, _⟩
      exact ⟨bs, fault, hbs, hfault⟩
  rw [hfaulty]
  cases decodePart part <;> simp

/-- `ofQueryText` reads a query text exactly if none of its parts is
`Faulty`. -/
theorem exists_ofQueryText_eq_ok_iff {text : String} {parts : List (List Char)}
    (h : Parts text.toList parts) :
    (∃ params, ofQueryText text = .ok params) ↔ ∀ part ∈ parts, ¬ Faulty part := by
  have herror : (∃ error, ofQueryText text = .error error) ↔
      ∃ error, parts.mapM decodePart = .error error := by
    simp only [ofQueryText_eq_error_iff_mapM h]
  rw [exists_error_iff, exists_error_iff, not_iff_not] at herror
  simp only [not_faulty_iff, herror, exists_mapM_eq_ok_iff]

/-- **Why a query text cannot be read.** `ofQueryText` fails exactly when one of
the parts is `Faulty`. The first such part is blamed, as it stands in the text
and with the fault in its bytes. Escapes of ASCII bytes make no part faulty
(`AsciiEscapes`), and a session keeps the parameters that it has when others
cannot be read. -/
theorem ofQueryText_eq_error_iff (text : String) :
    ∃ parts, (∀ other, Parts text.toList other ↔ other = parts) ∧
      ((∃ error, ofQueryText text = .error error) ↔ ∃ part ∈ parts, Faulty part) ∧
      (∀ error, ofQueryText text = .error error ↔
        ∃ front part back bs fault, parts = front ++ part :: back ∧
          (∀ earlier ∈ front, ¬ Faulty earlier) ∧ StandsFor part bs ∧
          Text.Utf8.decode bs = .error fault ∧
          error = .badEncoding (String.ofList part) fault) ∧
      (AsciiEscapes text.toList → ∃ params, ofQueryText text = .ok params) ∧
      ∀ error, ofQueryText text = .error error → ∀ params,
        Session.step params (.load (.queryText text)) = (.failed error, params) := by
  obtain ⟨parts, hparts⟩ := exists_parts text.toList
  refine ⟨parts, fun other => ?_, ?_, fun error => ?_, fun hascii => ?_, ?_⟩
  · constructor
    · exact fun h => parts_unique h hparts
    · rintro rfl
      exact hparts
  · rw [exists_error_iff, exists_ofQueryText_eq_ok_iff hparts]
    simp only [Classical.not_forall, Classical.not_not, exists_prop]
  · rw [ofQueryText_eq_error_iff_mapM hparts, mapM_eq_error_iff]
    simp only [decodePart_eq_error_iff, not_faulty_iff]
    constructor
    · rintro ⟨front, part, back, hsplit, hfront, bs, fault, h⟩
      exact ⟨front, part, back, bs, fault, hsplit, hfront, h⟩
    · rintro ⟨front, part, back, bs, fault, hsplit, hfront, h⟩
      exact ⟨front, part, back, hsplit, hfront, bs, fault, h⟩
  · -- the escapes of a part are escapes of the text
    rw [exists_ofQueryText_eq_ok_iff hparts]
    rintro part hpart ⟨bs, hbs, hfaulty⟩
    have hwithin := infix_of_mem_parts hparts part hpart
    exact hfaulty (Text.Percent.wellFormed_of_asciiEscapes hbs (hascii.of_infix hwithin))
  · intro error h params
    simp only [Session.step, Source.load, h]

/-- A byte that begins a character is not finished by one that stands for
itself, and a key comes before the value behind it. -/
example : ofQueryText "a=%zz&%C3é=%FF&%FF" = .error (.badEncoding "%C3é" (.invalid 1 0)) := by
  rfl

end ListQuery.Params.QueryText
