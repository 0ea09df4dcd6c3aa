import Mathlib.Data.List.Basic
import ListQuery.Proofs.Params.QueryText
import ListQuery.Proofs.Params.Replay
import ListQuery.Proofs.Text.Split
import ListQuery.Proofs.Traversal

/-!
# The segments of a query text

A query text that can be read is as good as its segments, behind a question mark
and with an ampersand between any two of them (`joined`). So segments can be
left out and put elsewhere.

* **`ofQueryText_eq_ok`**, **`ofQueryText_joined`** — from a text to its
  segments, and back.
* **`get?_ofSegments`** — a key holds what the segments of this key give, in
  their order; no other segment matters to it.
* **`keys_ofSegments`** — the keys stand in the order of their first segments.
-/

namespace ListQuery.Params.QueryText

/-! ## What a segment gives -/

/-- The key of a segment, if it can be decoded. -/
def segmentKey? (segment : List Char) : Option String :=
  (decodePart (Text.before '=' segment)).toOption

/-- The key and the string of a segment, both empty if they cannot be decoded.
It is only asked for segments that can. -/
def pairOf (segment : List Char) : String × String :=
  (decodeSegment segment).toOption.getD ("", "")

/-- `hasKey key segment` says that it is a segment of the key, however the key
is spelled in it. Keys are compared once they are decoded. -/
def hasKey (key : String) (segment : List Char) : Bool := segmentKey? segment == some key

example : hasKey "page" "p%61ge=2".toList = true := by decide +kernel

/-- `Reads segment` says that the segment is one that a query text can hold, and
that it gives a string for a key. -/
structure Reads (segment : List Char) : Prop where
  ne_nil : segment ≠ []
  not_mem : '&' ∉ segment
  decode : decodeSegment segment = .ok (pairOf segment)

/-- `segmentKey?` gives the key of a segment that `decodeSegment` can read. -/
theorem segmentKey?_of_decodeSegment {segment : List Char} {pair : String × String}
    (h : decodeSegment segment = .ok pair) : segmentKey? segment = some pair.1 := by
  rw [decodeSegment] at h
  rw [segmentKey?]
  cases hkey : decodePart (Text.before '=' segment) with
  | error fault =>
    rw [hkey] at h
    cases h
  | ok key =>
    rw [hkey] at h
    cases htext : decodePart (Text.after '=' segment) with
    | error fault =>
      rw [htext] at h
      cases h
    | ok text =>
      rw [htext] at h
      cases h
      rfl

theorem Reads.segmentKey? {segment : List Char} (h : Reads segment) :
    segmentKey? segment = some (pairOf segment).1 :=
  segmentKey?_of_decodeSegment h.decode

/-! ## Texts and runs of segments -/

/-- The query text of a run of segments, with a question mark in front. -/
def joined (run : List (List Char)) : String := String.ofList ('?' :: ['&'].intercalate run)

/-- The parameters that a run of segments gives, by `pairOf` one after the
other. -/
def ofSegments (run : List (List Char)) : Params := ofPairs (run.map pairOf)

/-- One of the `segments` of a text is not empty and has no ampersand in it, so
it can be put into another text. -/
theorem reads_of_mem_segments {text : List Char} {segment : List Char}
    (h : segment ∈ segments text) {pair : String × String}
    (hpair : decodeSegment segment = .ok pair) : Reads segment := by
  obtain ⟨hcut, hne⟩ := List.mem_filter.mp h
  have hpairOf : pairOf segment = pair := by
    rw [pairOf, hpair]
    rfl
  exact ⟨by simpa using hne, Text.not_mem_of_mem_splitOn hcut, by rw [hpair, hpairOf]⟩

theorem mapM_decodeSegment_of_reads {run : List (List Char)} (h : ∀ segment ∈ run, Reads segment) :
    run.mapM decodeSegment = .ok (run.map pairOf) :=
  mapM_eq_ok_map fun segment hsegment => (h segment hsegment).decode

/-- `ofQueryText` reads a text segment by segment, and its parameters are those
that `ofSegments` gives. -/
theorem ofQueryText_eq_ok {text : String} {params : Params} (h : ofQueryText text = .ok params) :
    (∀ segment ∈ segments text.toList, Reads segment) ∧
      params = ofSegments (segments text.toList) := by
  rw [ofQueryText, pairs] at h
  cases hpairs : (segments text.toList).mapM decodeSegment with
  | error fault =>
    rw [hpairs] at h
    cases h
  | ok pairs =>
    have hreads : ∀ segment ∈ segments text.toList, Reads segment := by
      intro segment hsegment
      obtain ⟨pair, hpair⟩ := exists_mapM_eq_ok_iff.mp ⟨pairs, hpairs⟩ segment hsegment
      exact reads_of_mem_segments hsegment hpair
    refine ⟨hreads, ?_⟩
    rw [mapM_decodeSegment_of_reads hreads] at h
    exact (Except.ok.inj h).symm

/-- `ofQueryText` reads segments behind each other that can be read one by one,
in any order. The question mark that `joined` puts in front keeps one in the
first segment from being taken off. -/
theorem ofQueryText_joined {run : List (List Char)} (h : ∀ segment ∈ run, Reads segment) :
    ofQueryText (joined run) = .ok (ofSegments run) := by
  have hsegments : segments (joined run).toList = run := by
    rw [joined, String.toList_ofList,
      segments_marked fun segment hsegment => (h segment hsegment).not_mem, List.filter_eq_self]
    intro segment hsegment
    simpa using (h segment hsegment).ne_nil
  rw [ofQueryText, pairs, hsegments, mapM_decodeSegment_of_reads h]
  rfl

/-! ## What a run of segments gives -/

section
variable {run : List (List Char)} (h : ∀ segment ∈ run, Reads segment)
include h

/-- `textsFor` a key are the strings that its segments give. -/
theorem textsFor_pairOf (key : String) :
    textsFor key (run.map pairOf) =
      (run.filter (hasKey key)).map fun segment => (pairOf segment).2 := by
  have hfilter :
      run.filter (fun segment => (pairOf segment).1 == key) = run.filter (hasKey key) := by
    apply List.filter_congr
    intro segment hsegment
    rw [hasKey, (h segment hsegment).segmentKey?]
    exact (Option.some_beq_some ..).symm
  rw [textsFor, List.filter_map, List.map_map, ← hfilter]
  rfl

/-- A key of `ofSegments` holds what its segments give, in their order. No other
segment matters to it. -/
theorem get?_ofSegments (key : String) :
    (ofSegments run).get? key =
      Argument.grown none ((run.filter (hasKey key)).map fun segment => (pairOf segment).2) := by
  rw [ofSegments, get?_ofPairs, textsFor_pairOf h]

theorem last?_ofSegments (key : String) :
    (ofSegments run).last? key =
      (run.filter (hasKey key)).getLast?.map fun segment => (pairOf segment).2 := by
  rw [ofSegments, last?_ofPairs, textsFor_pairOf h, List.getLast?_map]

/-- The keys of `ofSegments` stand in the order of their first segments. A key
that is spelled in two ways stands where the first spelling does. -/
theorem keys_ofSegments : (ofSegments run).keys = (run.filterMap segmentKey?).eraseDups := by
  have hkeys : run.filterMap segmentKey? = (run.map pairOf).map Prod.fst := by
    rw [List.map_map, List.filterMap_eq_map_iff_forall_eq_some]
    exact fun segment hsegment => (h segment hsegment).segmentKey?
  rw [ofSegments, keys_ofPairs, hkeys]

end

end ListQuery.Params.QueryText
