import Mathlib.Data.List.Nodup
import ListQuery.Proofs.Plan.Change
import ListQuery.Proofs.Target

/-!
# Plans and the spelling of keys

A plan knows the key of a filter by what it names. So a key can be spelled in
another way where it stands, and the key of a control with a suffix behind it is
that of a filter.

* **`OrderedMap.rename`** — one key in the place of another.
* **`ofParams_rename`** — the crux: controls read other keys, and the block of a
  filter is the same.
* **`not_isReserved_of_suffixed`** — no control has a dot in its key.
* **`ofParams_spelling`** — both, with what spellings there are.
-/

namespace ListQuery

/-! ## Renaming a key -/

namespace OrderedMap

variable {α : Type}

/-- The name that a key has once `key` is renamed. -/
def renamed (key key' name : String) : String := if name = key then key' else name

/-- `renamed` keeps keys apart where the new key is new: no other key has its
name. -/
theorem renamed_inj {key key' name name' : String} (hname : name ≠ key') (hname' : name' ≠ key')
    (h : renamed key key' name = renamed key key' name') : name = name' := by
  unfold renamed at h
  split at h <;> split at h
  · next hkey hkey' => rw [hkey, hkey']
  · exact absurd h.symm hname'
  · exact absurd h hname
  · exact h

/-- The map with a new key in the place of another, where that stands. The new
key must not be in `m`, or it would stand twice. -/
def rename (m : OrderedMap α) (key key' : String) (h : key' ∉ m.keys) : OrderedMap α where
  entries := m.entries.map fun entry => (renamed key key' entry.1, entry.2)
  nodup_keys := by
    have hother : ∀ name ∈ m.keys, name ≠ key' := fun name hname heq => h (heq ▸ hname)
    have hkeys : (m.keys.map (renamed key key')).Nodup :=
      List.Nodup.map_on
        (fun name hname name' hname' => renamed_inj (hother name hname) (hother name' hname'))
        m.nodup_keys
    rw [List.map_map]
    rwa [keys, List.map_map] at hkeys

/-- `rename` leaves the other keys their values. Induction on the entries. -/
theorem get?_rename_of_ne {m : OrderedMap α} {key key' other : String} (habsent : key' ∉ m.keys)
    (h : other ≠ key) (h' : other ≠ key') :
    (m.rename key key' habsent).get? other = m.get? other := by
  show (m.entries.map fun entry => (renamed key key' entry.1, entry.2)).lookup other =
    m.entries.lookup other
  clear habsent
  induction m.entries with
  | nil => rfl
  | cons entry rest ih =>
    have hentry : (other == renamed key key' entry.1) = (other == entry.1) := by
      unfold renamed
      split
      · next hkey => rw [beq_eq_false_iff_ne.mpr h', hkey, beq_eq_false_iff_ne.mpr h]
      · rfl
    rw [List.map_cons, List.lookup_cons, List.lookup_cons, hentry, ih]

end OrderedMap

/-! ## Filters under another spelling -/

namespace Filter

/-- A key has a say in its `block` by what `Target.ofKey` makes of it, and in no
other way. -/
theorem block_congr {key key' : String} (h : Target.ofKey key' = Target.ofKey key)
    (argument : Argument) : block key' argument = block key argument := by
  rw [block, block, h]

/-- `rename` of the key of a filter to another with the same target leaves all
clauses where they are: what is filtered out stays the same, and so does each
`block`. -/
theorem clauses_rename {params : Params} {key key' : String} (habsent : key' ∉ params.keys)
    (hkey : Params.isReserved key = false) (hkey' : Params.isReserved key' = false)
    (h : Target.ofKey key' = Target.ofKey key) :
    (ofParams (params.rename key key' habsent)).clauses = (ofParams params).clauses := by
  have hreserved : ∀ name,
      Params.isReserved (OrderedMap.renamed key key' name) = Params.isReserved name := by
    intro name
    unfold OrderedMap.renamed
    split
    · next hname => rw [hname, hkey, hkey']
    · rfl
  have hblock : ∀ name argument,
      block (OrderedMap.renamed key key' name) argument = block name argument := by
    intro name argument
    unfold OrderedMap.renamed
    split
    · next hname => rw [hname, block_congr h]
    · rfl
  rw [clauses_eq_flatMap_block, clauses_eq_flatMap_block, Params.filters, Params.filters]
  show List.flatMap _ (List.filter _ (params.entries.map _)) = _
  rw [List.filter_map, List.flatMap_map]
  simp only [Function.comp_def, hreserved, hblock]

/-- The clauses of a filter hold the `block` of each of its keys, in one piece.
The entries are cut at that of the key. -/
theorem exists_clauses_eq {params : Params} {key : String} {argument : Argument}
    (hkey : Params.isReserved key = false) (h : params.get? key = some argument) :
    ∃ front back, (ofParams params).clauses = front ++ block key argument ++ back := by
  obtain ⟨front, back, hentries, -⟩ := List.lookup_eq_some_iff.mp h
  refine ⟨ofEntries front, ofEntries back, ?_⟩
  have hblock : ofEntries [(key, argument)] = block key argument := by
    simp [ofEntries, hkey]
  calc (ofParams params).clauses = ofEntries params.entries := clauses_eq_flatMap_block params
    _ = ofEntries (front ++ [(key, argument)] ++ back) := by rw [hentries]; simp
    _ = _ := by rw [ofEntries_append, ofEntries_append, hblock]

end Filter

/-! ## Plans -/

namespace Plan

theorem ne_of_isReserved_eq_false {key : String} (h : Params.isReserved key = false)
    (control : Control) : control.key ≠ key := by
  intro heq
  rw [← heq, Params.isReserved_key] at h
  cases h

/-- A plan is the same under another spelling of a key: the controls are not
renamed, and the clauses stay (`clauses_rename`). -/
theorem ofParams_rename (defaults : Defaults) {params : Params} {key key' : String}
    (habsent : key' ∉ params.keys) (hkey : Params.isReserved key = false)
    (hkey' : Params.isReserved key' = false) (h : Target.ofKey key' = Target.ofKey key) :
    ofParams defaults (params.rename key key' habsent) = ofParams defaults params := by
  apply eq_of_agree
  intro part
  refine agree_of_controls defaults (fun control _ => ?_)
    fun _ => Filter.clauses_rename habsent hkey hkey' h
  rw [Params.control?, Params.last?, OrderedMap.get?_rename_of_ne habsent
    (ne_of_isReserved_eq_false hkey control) (ne_of_isReserved_eq_false hkey' control)]
  rfl

/-- A `Suffixed` key is that of a filter, whatever stands in front of the
suffix: it has a dot, and no control has one. -/
theorem not_isReserved_of_suffixed {target : Target} {key : String} (h : target.Suffixed key) :
    Params.isReserved key = false := by
  obtain ⟨suffix, -, hkey⟩ := h
  rw [← Bool.not_eq_true]
  intro hreserved
  obtain ⟨control, -, hcontrol⟩ := List.any_eq_true.mp hreserved
  have hdot : '.' ∈ control.key.toList := by
    rw [eq_of_beq hcontrol, hkey]
    exact List.mem_append_right _ List.mem_cons_self
  have hnone : '.' ∉ control.key.toList := by cases control <;> decide
  exact hnone hdot

/-- What a key gives that is no control shows in the clauses alone: all other
parts `Agree`. The parameters may differ at that key, and in the order of all of
them. -/
theorem agree_of_get?_eq (defaults : Defaults) {params params' : Params} {key : String}
    (hkey : Params.isReserved key = false)
    (h : ∀ other, other ≠ key → params.get? other = params'.get? other) {part : Part}
    (hpart : part ≠ .clauses) :
    part.Agree (ofParams defaults params) (ofParams defaults params') := by
  refine agree_of_controls defaults (fun control _ => ?_) fun heq => absurd heq hpart
  rw [Params.control?, Params.last?, h _ (ne_of_isReserved_eq_false hkey control)]
  rfl

/-- **Plans and the spelling of keys.** Two keys name the same target if they
are `Respelled`: the same suffix in other cases of its letters behind one path,
or this path alone and with the suffix of equality. A filter can be given under
either, and the plan is the same. The key of a control with a suffix behind it
is a filter on that name, and has no say in any other part of the plan. -/
theorem ofParams_spelling :
    (∀ key key', key' ≠ key →
      (Target.ofKey key' = Target.ofKey key ↔ Target.Respelled key key')) ∧
    (∀ (params : Params) (key key' : String) (habsent : key' ∉ params.keys),
      Params.isReserved key = false → Params.isReserved key' = false →
        Target.ofKey key' = Target.ofKey key →
          ∀ defaults,
            ofParams defaults (params.rename key key' habsent) = ofParams defaults params) ∧
    ∀ (control : Control) (operator : Operator) (key : String),
      Target.Suffixed ⟨control.key, operator⟩ key →
        (∀ params : Params, ∀ argument, params.get? key = some argument →
          ∃ front back,
            (Filter.ofParams params).clauses = front ++ Filter.block key argument ++ back ∧
            ∀ clause ∈ Filter.block key argument, clause.field = control.key) ∧
        ∀ (params params' : Params),
          (∀ other, other ≠ key → params.get? other = params'.get? other) →
            ∀ defaults part, part ≠ Part.clauses →
              part.Agree (ofParams defaults params) (ofParams defaults params') := by
  refine ⟨fun _ _ => Target.ofKey_eq_ofKey_iff, fun params key key' habsent hkey hkey' h defaults =>
    ofParams_rename defaults habsent hkey hkey' h, fun control operator key hsuffixed => ?_⟩
  have hkey := not_isReserved_of_suffixed hsuffixed
  refine ⟨fun params argument hargument => ?_, fun params params' h defaults part hpart =>
    agree_of_get?_eq defaults hkey h hpart⟩
  obtain ⟨front, back, hclauses⟩ := Filter.exists_clauses_eq hkey hargument
  refine ⟨front, back, hclauses, fun clause hclause => ?_⟩
  rw [Filter.field_of_mem_block hclause, Target.ofKey_of_suffixed hsuffixed]

/-- `ofParams_spelling` at a suffix in another case, behind a page and in front
of a filter that is named as the page is. -/
theorem ofParams_spelling_recased :
    ∃ params renamed : Params,
      params.entries = [("page", .one "2"), ("f.GTE", .many ["5", "7"]), ("page.Ne", .one "3")] ∧
      renamed.entries = [("page", .one "2"), ("f.gtE", .many ["5", "7"]), ("page.Ne", .one "3")] ∧
      (∀ defaults, ofParams defaults renamed = ofParams defaults params) ∧
      ∃ front back,
        (Filter.ofParams params).clauses = front ++ Filter.block "page.Ne" (.one "3") ++ back ∧
        ∀ clause ∈ Filter.block "page.Ne" (.one "3"), clause.field = "page" := by
  let params : Params :=
    ⟨[("page", .one "2"), ("f.GTE", .many ["5", "7"]), ("page.Ne", .one "3")], by decide⟩
  have habsent : "f.gtE" ∉ params.keys := by decide
  have hsame : Target.ofKey "f.gtE" = Target.ofKey "f.GTE" := by decide +kernel
  have hsuffixed : Target.Suffixed ⟨Control.page.key, .compare .notEqual⟩ "page.Ne" :=
    ⟨"Ne".toList, by decide, by decide⟩
  obtain ⟨-, hrename, hcontrol⟩ := ofParams_spelling
  exact ⟨params, params.rename "f.GTE" "f.gtE" habsent, rfl, rfl,
    hrename params "f.GTE" "f.gtE" habsent (by decide) (by decide) hsame,
    (hcontrol .page (.compare .notEqual) "page.Ne" hsuffixed).1 params (.one "3") (by decide)⟩

end Plan

end ListQuery
