import ListQuery.Proofs.Params.Segments

/-!
# Plans from fewer segments, and from segments in another order

Of the segments of a control a plan depends on the last one, of those of a
filter on all, and otherwise only on the order in which the filters come in.

* **`ofParams_ofSegments_congr`** — the crux: nothing else matters to a plan.
* **`ofParams_latest`** — segments of controls that later ones override can be
  left out.
* **`ofParams_rearranged`** — segments of different keys can be put in any
  order. This moves the clauses of a filter as a whole, and only if the filters
  come in in another order.
-/

namespace ListQuery

namespace Params.QueryText

/-! ## The filters of a run of segments -/

/-- The segment is one of a control, however the key of the control is spelled
in it. -/
def steers (segment : List Char) : Bool := (segmentKey? segment).any isReserved

/-- The keys of the filters, in the order in which they come in, each of them
once. This is the order of their clauses in `Filter.ofParams`. -/
def filterKeys (run : List (List Char)) : List String :=
  ((run.filterMap segmentKey?).filter fun key => !isReserved key).eraseDups

theorem filter_keys_ofSegments {run : List (List Char)} (h : ∀ segment ∈ run, Reads segment) :
    ((ofSegments run).keys.filter fun key => !isReserved key) = filterKeys run := by
  rw [keys_ofSegments h, filterKeys, eraseDups_filter]

theorem not_isReserved_of_mem_filterKeys {run : List (List Char)} {key : String}
    (h : key ∈ filterKeys run) : isReserved key = false := by
  rw [filterKeys, List.mem_eraseDups, List.mem_filter] at h
  simpa using h.2

theorem nodup_filterKeys {run : List (List Char)} (h : ∀ segment ∈ run, Reads segment) :
    (filterKeys run).Nodup := by
  have hkeys : (ofSegments run).keys.Nodup := (ofSegments run).nodup_keys
  rw [← filter_keys_ofSegments h]
  exact hkeys.filter _

theorem clauses_ofSegments {run : List (List Char)} (h : ∀ segment ∈ run, Reads segment) :
    (Filter.ofParams (ofSegments run)).clauses =
      (filterKeys run).flatMap (Filter.share (ofSegments run)) := by
  rw [Filter.clauses_eq_flatMap_share, filter_keys_ofSegments h]

/-! ## Overridden segments -/

/-- `overridden segment later` says that the segment is one of a control, and
that one of the later segments overrides it. Segments of filters add up, so that
none of them is ever overridden. -/
def overridden (segment : List Char) (later : List (List Char)) : Bool :=
  (segmentKey? segment).any fun key => isReserved key && later.any (hasKey key)

/-- A run of segments without those that are `overridden`. What is left of a
control is its last segment, and of a filter every one. -/
def latest : List (List Char) → List (List Char)
  | [] => []
  | segment :: later => if overridden segment later then latest later else segment :: latest later

example : latest ["p%61ge=9".toList, "a=x".toList, "page=2".toList, "a=x".toList] =
    ["a=x".toList, "page=2".toList, "a=x".toList] := by decide +kernel

/-- `latest` adds no segment. Induction on the run. -/
theorem mem_of_mem_latest {run : List (List Char)} {segment : List Char}
    (h : segment ∈ latest run) : segment ∈ run := by
  induction run with
  | nil => exact h
  | cons first later ih =>
    rw [latest] at h
    split at h
    · exact List.mem_cons_of_mem _ (ih h)
    · exact List.mem_cons.mpr ((List.mem_cons.mp h).imp_right ih)

/-- Only a segment that `steers` is ever `overridden`. -/
theorem steers_of_overridden {segment : List Char} {later : List (List Char)}
    (h : overridden segment later = true) : steers segment = true := by
  rw [overridden] at h
  rw [steers]
  cases hkey : segmentKey? segment with
  | none =>
    rw [hkey] at h
    exact absurd h (by nofun)
  | some key =>
    rw [hkey] at h
    exact (Bool.and_eq_true_iff.mp h).1

/-- `latest` keeps all segments with a property that no segment of a control
has. Induction on the run. -/
theorem filter_latest {p : List Char → Bool}
    (h : ∀ segment, p segment = true → steers segment = false) (run : List (List Char)) :
    (latest run).filter p = run.filter p := by
  induction run with
  | nil => rfl
  | cons segment later ih =>
    rw [latest]
    split
    · next hover =>
      have hp : ¬ p segment = true := fun hp =>
        absurd (steers_of_overridden hover) (by rw [h segment hp]; decide)
      rw [List.filter_cons_of_neg hp, ih]
    · rw [List.filter_cons, List.filter_cons, ih]

/-- `latest` keeps the last segment of every key. Induction on the run: the
first segment is left out only if another one of its key stands behind it. -/
theorem getLast?_filter_latest (key : String) (run : List (List Char)) :
    ((latest run).filter (hasKey key)).getLast? = (run.filter (hasKey key)).getLast? := by
  induction run with
  | nil => rfl
  | cons segment later ih =>
    rw [latest]
    by_cases hkey : hasKey key segment = true
    · rw [List.filter_cons_of_pos hkey]
      split
      · next hover =>
        -- a later segment has the same key, so this one is not the last
        have hsegment : segmentKey? segment = some key := by simpa [hasKey] using hkey
        rw [overridden, hsegment] at hover
        have hlater : later.filter (hasKey key) ≠ [] := by
          rw [Ne, List.filter_eq_nil_iff]
          intro hnone
          obtain ⟨other, hmem, hother⟩ := List.any_eq_true.mp (Bool.and_eq_true_iff.mp hover).2
          exact hnone other hmem hother
        rw [ih, List.getLast?_cons_of_ne_nil hlater]
      · rw [List.filter_cons_of_pos hkey, List.getLast?_cons, List.getLast?_cons, ih]
    · rw [List.filter_cons_of_neg hkey, ← ih]
      split
      · rfl
      · rw [List.filter_cons_of_neg hkey]

/-- `filterKeys` are the same for `latest`, since no segment of a filter is left
out. -/
theorem filterKeys_latest (run : List (List Char)) : filterKeys (latest run) = filterKeys run := by
  have hfilters : ∀ run : List (List Char),
      (run.filterMap segmentKey?).filter (fun key => !isReserved key) =
        (run.filter fun segment => !steers segment).filterMap segmentKey? := by
    intro run
    rw [List.filter_filterMap, List.filterMap_filter]
    apply List.filterMap_congr
    intro segment _
    rw [steers]
    cases segmentKey? segment with
    | none => rfl
    | some key => cases hkey : isReserved key <;> simp [hkey]
  rw [filterKeys, filterKeys, hfilters, hfilters,
    filter_latest (p := fun segment => !steers segment) (by simp)]

/-! ## Rearranged segments -/

/-- `Rearranges run run'` says that the segments of the second run are those of
the first one, and that those of every key stand in the same order in both. A
key is the same however it is spelled. -/
structure Rearranges (run run' : List (List Char)) : Prop where
  perm : run'.Perm run
  sameKey : ∀ key, run'.filter (hasKey key) = run.filter (hasKey key)

/-- Only the keys in the run matter, so that `Rearranges` can be decided. -/
theorem rearranges_iff {run run' : List (List Char)} :
    Rearranges run run' ↔ run'.Perm run ∧
      ∀ key ∈ run.filterMap segmentKey?, run'.filter (hasKey key) = run.filter (hasKey key) := by
  refine ⟨fun h => ⟨h.perm, fun key _ => h.sameKey key⟩,
    fun ⟨hperm, hkeys⟩ => ⟨hperm, fun key => ?_⟩⟩
  by_cases hkey : key ∈ run.filterMap segmentKey?
  · exact hkeys key hkey
  · have hnone : ∀ segment ∈ run, ¬ hasKey key segment = true := by
      intro segment hsegment hhas
      exact hkey (List.mem_filterMap.mpr ⟨segment, hsegment, by simpa [hasKey] using hhas⟩)
    rw [List.filter_eq_nil_iff.mpr hnone, List.filter_eq_nil_iff]
    exact fun segment hsegment => hnone segment (hperm.mem_iff.mp hsegment)

instance {run run' : List (List Char)} : Decidable (Rearranges run run') :=
  decidable_of_iff _ rearranges_iff.symm

/-- `filterKeys` of rearranged segments are the same, in some order. Each of
them is there once, so it is enough that they are the same ones. -/
theorem Rearranges.perm_filterKeys {run run' : List (List Char)} (h : Rearranges run run')
    (hrun : ∀ segment ∈ run, Reads segment) (hrun' : ∀ segment ∈ run', Reads segment) :
    (filterKeys run').Perm (filterKeys run) := by
  rw [List.perm_ext_iff_of_nodup (nodup_filterKeys hrun') (nodup_filterKeys hrun)]
  intro key
  have hkeys := (h.perm.filterMap segmentKey?).filter fun key => !isReserved key
  rw [filterKeys, filterKeys, List.mem_eraseDups, List.mem_eraseDups, hkeys.mem_iff]

end Params.QueryText

/-! ## Plans -/

namespace Plan

open Params.QueryText

/-- Runs of segments ask for the same plan if the last segments of every control
are the same, and if the same `filterKeys` come in in the same order, each with
the same segments. -/
theorem ofParams_ofSegments_congr (defaults : Defaults) {run run' : List (List Char)}
    (hrun : ∀ segment ∈ run, Reads segment) (hrun' : ∀ segment ∈ run', Reads segment)
    (hlast : ∀ key, (run.filter (hasKey key)).getLast? = (run'.filter (hasKey key)).getLast?)
    (hkeys : filterKeys run = filterKeys run')
    (hfilters : ∀ key, Params.isReserved key = false →
      run.filter (hasKey key) = run'.filter (hasKey key)) :
    ofParams defaults (ofSegments run) = ofParams defaults (ofSegments run') := by
  have hclauses : (Filter.ofParams (ofSegments run)).clauses =
      (Filter.ofParams (ofSegments run')).clauses := by
    rw [clauses_ofSegments hrun, clauses_ofSegments hrun', ← hkeys]
    apply List.flatMap_congr
    intro key hkey
    -- what a filter gives depends on all segments of its key, and on their order
    rw [Filter.share, Filter.share, get?_ofSegments hrun, get?_ofSegments hrun',
      hfilters key (not_isReserved_of_mem_filterKeys hkey)]
  apply eq_of_agree
  intro part
  refine agree_of_controls defaults (fun control _ => ?_) fun _ => hclauses
  -- of the segments of a control the last one decides
  rw [Params.control?, Params.control?, last?_ofSegments hrun, last?_ofSegments hrun', hlast]

/-- **A query text asks for the same plan without the segments of controls that
later ones override** (`latest`), whatever the defaults are. -/
theorem ofParams_latest {text : String} {params : Params}
    (h : Params.ofQueryText text = .ok params) :
    ∃ kept, Params.ofQueryText (joined (latest (segments text.toList))) = .ok kept ∧
      ∀ defaults, ofParams defaults kept = ofParams defaults params := by
  obtain ⟨hreads, rfl⟩ := ofQueryText_eq_ok h
  have hkept : ∀ segment ∈ latest (segments text.toList), Reads segment :=
    fun segment hsegment => hreads segment (mem_of_mem_latest hsegment)
  refine ⟨_, ofQueryText_joined hkept, fun defaults => ?_⟩
  refine ofParams_ofSegments_congr defaults hkept hreads (fun key => getLast?_filter_latest key _)
    (filterKeys_latest _) fun key hkey => filter_latest (fun segment hsegment => ?_) _
  -- a segment of a filter is left out nowhere
  have hsegment : segmentKey? segment = some key := by simpa [hasKey] using hsegment
  rw [steers, hsegment]
  exact hkey

/-- `ofParams_latest` at keys that are spelled in two ways, and a filter between
the segments of a control. -/
theorem ofParams_latest_spellings :
    ∃ params kept,
      Params.ofQueryText "p%61ge=9&a=x&&_op=or&page=2&%61=y" = .ok params ∧
      Params.ofQueryText "?a=x&_op=or&page=2&%61=y" = .ok kept ∧
      ∀ defaults, ofParams defaults kept = ofParams defaults params := by
  have hread : Params.ofQueryText "p%61ge=9&a=x&&_op=or&page=2&%61=y" = .ok (Params.ofPairs
      [("page", "9"), ("a", "x"), ("_op", "or"), ("page", "2"), ("a", "y")]) := rfl
  have hlatest : joined (latest (segments "p%61ge=9&a=x&&_op=or&page=2&%61=y".toList)) =
      "?a=x&_op=or&page=2&%61=y" := by decide +kernel
  obtain ⟨kept, hkept, hplans⟩ := ofParams_latest hread
  rw [hlatest] at hkept
  exact ⟨_, kept, hread, hkept, hplans⟩

/-- **A query text whose segments are put in another order** (`Rearranges`),
except for those of the same key, gives every key what it had. The plan that it
asks for differs at most in the order in which the filters give their clauses,
and this is the order in which they come in. -/
theorem ofParams_rearranged {text : String} {params : Params} {run : List (List Char)}
    (h : Params.ofQueryText text = .ok params) (hrun : Rearranges (segments text.toList) run) :
    ∃ rearranged, Params.ofQueryText (joined run) = .ok rearranged ∧
      (∀ key, rearranged.get? key = params.get? key) ∧
      (∀ defaults part, part ≠ Part.clauses →
        part.Agree (ofParams defaults rearranged) (ofParams defaults params)) ∧
      (filterKeys run).Perm (filterKeys (segments text.toList)) ∧
      (∀ defaults,
        (ofParams defaults params).filter.clauses =
          (filterKeys (segments text.toList)).flatMap (Filter.share params) ∧
        (ofParams defaults rearranged).filter.clauses =
          (filterKeys run).flatMap (Filter.share params)) ∧
      (filterKeys run = filterKeys (segments text.toList) →
        ∀ defaults, ofParams defaults rearranged = ofParams defaults params) := by
  obtain ⟨hreads, rfl⟩ := ofQueryText_eq_ok h
  have hreads' : ∀ segment ∈ run, Reads segment :=
    fun segment hsegment => hreads segment (hrun.perm.mem_iff.mp hsegment)
  have hget : ∀ key, (ofSegments run).get? key = (ofSegments (segments text.toList)).get? key := by
    intro key
    rw [get?_ofSegments hreads', get?_ofSegments hreads, hrun.sameKey]
  have hshare :
      Filter.share (ofSegments run) = Filter.share (ofSegments (segments text.toList)) := by
    funext key
    rw [Filter.share, Filter.share, hget]
  refine ⟨_, ofQueryText_joined hreads', hget, fun defaults part hpart => ?_,
    hrun.perm_filterKeys hreads hreads', fun _ => ⟨clauses_ofSegments hreads, ?_⟩,
    fun hkeys defaults => ?_⟩
  · -- the controls read what they read before
    refine agree_of_controls defaults (fun control _ => ?_) fun heq => absurd heq hpart
    rw [Params.control?, Params.last?, hget]
    rfl
  · rw [← hshare]
    exact clauses_ofSegments hreads'
  · exact ofParams_ofSegments_congr defaults hreads' hreads
      (fun key => congrArg List.getLast? (hrun.sameKey key)) hkeys fun key _ => hrun.sameKey key

/-- `ofParams_rearranged` at two filters that change places, one of them with
two segments that did not stand together. -/
theorem ofParams_rearranged_interleaved :
    ∃ params rearranged,
      Params.ofQueryText "a=1&page=3&b=2&%61=4" = .ok params ∧
      Params.ofQueryText "?b=2&a=1&%61=4&page=3" = .ok rearranged ∧
      (∀ key, rearranged.get? key = params.get? key) ∧
      ∀ defaults,
        (ofParams defaults params).filter.clauses = ["a", "b"].flatMap (Filter.share params) ∧
        (ofParams defaults rearranged).filter.clauses =
          ["b", "a"].flatMap (Filter.share params) := by
  have hread : Params.ofQueryText "a=1&page=3&b=2&%61=4" = .ok (Params.ofPairs
      [("a", "1"), ("page", "3"), ("b", "2"), ("a", "4")]) := rfl
  have hrun : Rearranges (segments "a=1&page=3&b=2&%61=4".toList)
      ["b=2".toList, "a=1".toList, "%61=4".toList, "page=3".toList] := by decide +kernel
  obtain ⟨rearranged, hjoined, hget, -, -, hclauses, -⟩ := ofParams_rearranged hread hrun
  exact ⟨_, rearranged, hread, hjoined, hget, hclauses⟩

end Plan

end ListQuery
