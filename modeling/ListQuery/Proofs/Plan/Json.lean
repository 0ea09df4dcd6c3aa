import ListQuery.Plan
import ListQuery.Proofs.Filter.Clauses
import ListQuery.Proofs.Json
import ListQuery.Proofs.Timestamp

/-!
# Reading a plan off its JSON value

Plans with the same JSON value are the same, although instants and texts are
both written as strings and the three kinds of tests have no tag.

* **`ofText_inj`** — the crux: no text that is left a text is the text of an
  instant, because the text of an instant names one.
* **`Test.toJson_inj`** — the kinds of values tell the kinds of tests apart.
* **`Filter.toJson_inj`** — a connective is written when there are clauses to
  join.
* **`ofParams_toJson_inj`** — all parts together.
-/

namespace ListQuery

open Json

/-! ## Operands -/

namespace Operand

/-- A text that names no instant is not the `text` of an instant that some text
names. For an instant beyond these the text need not name any. -/
theorem ofList_text_ne {text : List Char} {moment : Instant}
    (h : Timestamp.read text = .instant moment) {string : String}
    (hstring : ∀ moment, Timestamp.read string.toList ≠ .instant moment) :
    String.ofList moment.text ≠ string := by
  rintro rfl
  -- the text of the instant names an instant, if not this one
  obtain ⟨moment', hread⟩ := Timestamp.exists_read_text h
  rw [String.toList_ofList] at hstring
  exact hstring moment' hread

/-- What `ofText` spells is written neither as an object nor as an array. So the
value of a test tells which kind of test it is. -/
theorem kind_toJson_ofText (text : String) :
    (ofText text).toJson.kind ≠ .object ∧ (ofText text).toJson.kind ≠ .array := by
  rcases ofText_cases text with h | ⟨_, _, h⟩ | ⟨_, h⟩
  · rw [h]
    exact ⟨by nofun, by nofun⟩
  · rw [h]
    exact ⟨by nofun, by nofun⟩
  · rw [h]
    exact ⟨by nofun, by nofun⟩

/-- **What texts spell is told apart by its JSON value**, although `toJson`
writes an instant as a string. A text that reads as that string would name an
instant itself. -/
theorem ofText_inj {text text' : String}
    (h : Same (ofText text).toJson (ofText text').toJson) : ofText text = ofText text' := by
  -- the kinds of the values tell null from the other two, and these are both strings
  rcases ofText_cases text with hnull | ⟨moment, hread, hinstant⟩ | ⟨hread, htext⟩
  · rcases ofText_cases text' with hnull' | ⟨moment', hread', hinstant'⟩ | ⟨hread', htext'⟩
    · rw [hnull, hnull']
    · rw [hnull, hinstant'] at h
      exact absurd h.kind_eq (by nofun)
    · rw [hnull, htext'] at h
      exact absurd h.kind_eq (by nofun)
  · rcases ofText_cases text' with hnull' | ⟨moment', hread', hinstant'⟩ | ⟨hread', htext'⟩
    · rw [hinstant, hnull'] at h
      exact absurd h.kind_eq (by nofun)
    · rw [hinstant, hinstant'] at h
      have htexts : moment.text = moment'.text := String.ofList_injective h.string_inj
      rw [hinstant, hinstant', Timestamp.text_inj hread hread' htexts]
    · rw [hinstant, htext'] at h
      exact absurd h.string_inj (ofList_text_ne hread hread')
  · rcases ofText_cases text' with hnull' | ⟨moment', hread', hinstant'⟩ | ⟨hread', htext'⟩
    · rw [htext, hnull'] at h
      exact absurd h.kind_eq (by nofun)
    · rw [htext, hinstant'] at h
      exact absurd h.string_inj.symm (ofList_text_ne hread' hread)
    · rw [htext, htext'] at h
      have htexts : text = text' := h.string_inj
      rw [htexts]

end Operand

/-! ## Filters -/

theorem Comparison.symbol_inj {comparison comparison' : Comparison}
    (h : comparison.symbol = comparison'.symbol) : comparison = comparison' := by
  revert h
  cases comparison <;> cases comparison' <;> decide

theorem Connective.name_inj {connective connective' : Connective}
    (h : connective.name = connective'.name) : connective = connective' := by
  revert h
  cases connective <;> cases connective' <;> decide

namespace Filter

/-- `test.Spelled` says that `ofText` gives every operand of the test, as it
does with all tests that parameters give. A test with a list for an operand
could not be told from one for membership. -/
def Test.Spelled (test : Test) : Prop :=
  ∀ operand ∈ test.operands, ∃ text, operand = .ofText text

/-- `Test.toJson` tells tests apart that are `Spelled`: first by the kind of the
value, which is that of the test, and then by their operands. -/
theorem Test.toJson_inj {test test' : Test} (hspelled : test.Spelled) (hspelled' : test'.Spelled)
    (h : Same test.toJson test'.toJson) : test = test' := by
  -- an operand is neither an object nor an array, so the kind of the value is that of the test
  cases test with
  | equals operand =>
    obtain ⟨text, rfl⟩ := hspelled operand List.mem_cons_self
    cases test' with
    | equals operand' =>
      obtain ⟨text', rfl⟩ := hspelled' operand' List.mem_cons_self
      rw [Operand.ofText_inj h]
    | compare comparison' operand' =>
      exact absurd h.kind_eq (Operand.kind_toJson_ofText text).1
    | oneOf operands' => exact absurd h.kind_eq (Operand.kind_toJson_ofText text).2
  | compare comparison operand =>
    cases test' with
    | equals operand' =>
      obtain ⟨text', rfl⟩ := hspelled' operand' List.mem_cons_self
      exact absurd h.kind_eq.symm (Operand.kind_toJson_ofText text').1
    | compare comparison' operand' =>
      obtain ⟨text, rfl⟩ := hspelled operand List.mem_cons_self
      obtain ⟨text', rfl⟩ := hspelled' operand' List.mem_cons_self
      obtain ⟨hsymbol, hoperand⟩ := h.singleton_inj
      rw [Comparison.symbol_inj hsymbol, Operand.ofText_inj hoperand]
    | oneOf operands' => exact absurd h.kind_eq (by nofun)
  | oneOf operands =>
    cases test' with
    | equals operand' =>
      obtain ⟨text', rfl⟩ := hspelled' operand' List.mem_cons_self
      exact absurd h.kind_eq.symm (Operand.kind_toJson_ofText text').2
    | compare comparison' operand' => exact absurd h.kind_eq (by nofun)
    | oneOf operands' =>
      have hoperands : operands = operands' := by
        apply h.array_map_inj
        intro operand hmem operand' hmem' hoperand
        obtain ⟨text, rfl⟩ := hspelled operand hmem
        obtain ⟨text', rfl⟩ := hspelled' operand' hmem'
        exact Operand.ofText_inj hoperand
      rw [hoperands]

/-- `Clause.toJson` tells clauses apart: the name of the only member is the
field. -/
theorem Clause.toJson_inj {clause clause' : Clause} (hspelled : clause.test.Spelled)
    (hspelled' : clause'.test.Spelled) (h : Same clause.toJson clause'.toJson) :
    clause = clause' := by
  obtain ⟨hfield, htest⟩ := h.singleton_inj
  have htests : clause.test = clause'.test := Test.toJson_inj hspelled hspelled' htest
  cases clause
  cases clause'
  rw [Clause.mk.injEq]
  exact ⟨hfield, htests⟩

theorem connective?_eq_none_iff {filter : Filter} :
    filter.connective? = none ↔ filter.clauses = [] := by
  simp [connective?, isEmpty]

/-- `Filter.toJson` tells filters apart, up to a connective that joins nothing.
Such a filter is an empty object, whatever its connective is. -/
theorem toJson_inj {filter filter' : Filter}
    (hspelled : ∀ clause ∈ filter.clauses, clause.test.Spelled)
    (hspelled' : ∀ clause ∈ filter'.clauses, clause.test.Spelled)
    (h : Same filter.toJson filter'.toJson) :
    filter.clauses = filter'.clauses ∧ filter.connective? = filter'.connective? := by
  rw [toJson, toJson] at h
  cases hconnective : filter.connective? with
  | none =>
    cases hconnective' : filter'.connective? with
    | none =>
      rw [connective?_eq_none_iff.mp hconnective, connective?_eq_none_iff.mp hconnective']
      exact ⟨rfl, rfl⟩
    | some connective' =>
      -- an object without members has none under the name of a connective
      rw [hconnective, hconnective'] at h
      exact absurd (h.isSome_member?_eq connective'.name) (by simp [member?])
  | some connective =>
    cases hconnective' : filter'.connective? with
    | none =>
      rw [hconnective, hconnective'] at h
      exact absurd (h.isSome_member?_eq connective.name) (by simp [member?])
    | some connective' =>
      rw [hconnective, hconnective'] at h
      obtain ⟨hname, hclauses⟩ := h.singleton_inj
      constructor
      · apply hclauses.array_map_inj
        intro clause hclause clause' hclause'
        exact Clause.toJson_inj (hspelled clause hclause) (hspelled' clause' hclause')
      · rw [Connective.name_inj hname]

theorem spelled_of_mem {params : Params} {clause : Clause}
    (h : clause ∈ (ofParams params).clauses) : clause.test.Spelled :=
  fun _ hoperand => exists_ofText_of_mem h hoperand

end Filter

/-! ## The other parts -/

/-- `Window.toJson` tells windows apart, member by member. -/
theorem Window.toJson_inj {window window' : Window} (h : Same window.toJson window'.toJson) :
    window = window' := by
  have hmembers : ∀ limit skip : Json, member? [("limit", limit), ("skip", skip)] "limit" = limit ∧
      member? [("limit", limit), ("skip", skip)] "skip" = skip := by
    simp [member?, List.lookup_cons]
  have hlimit : Same (.integer window.limit.toInt) (.integer window'.limit.toInt) :=
    h.of_member? (hmembers _ _).1 (hmembers _ _).1
  have hskip : Same (.integer window.skip.toInt) (.integer window'.skip.toInt) :=
    h.of_member? (hmembers _ _).2 (hmembers _ _).2
  cases window
  cases window'
  rw [Window.mk.injEq]
  exact ⟨Int64.toInt_inj.mp hlimit.integer_inj, Int64.toInt_inj.mp hskip.integer_inj⟩

theorem Direction.name_inj {direction direction' : Direction}
    (h : direction.name = direction'.name) : direction = direction' := by
  revert h
  cases direction <;> cases direction' <;> decide

theorem SortKey.toJson_inj {key key' : SortKey} (h : Same key.toJson key'.toJson) : key = key' := by
  obtain ⟨hfield, hdirection⟩ := h.singleton_inj
  have hdirections : key.direction = key'.direction := Direction.name_inj hdirection.string_inj
  cases key
  cases key'
  rw [SortKey.mk.injEq]
  exact ⟨hfield, hdirections⟩

/-! ## Plans -/

namespace Plan

/-- The members of a plan as `Plan.toJson` writes them, in this order. -/
def members (plan : Plan) : List (String × Json) :=
  (plan.window.map fun window => ("pagination", window.toJson)).toList ++
    [("where", plan.filter.toJson)] ++
    (plan.sort.map fun keys => ("sort", Json.array (keys.map SortKey.toJson))).toList ++
    (plan.selection.map fun names => ("select", Json.array (names.map Json.string))).toList

theorem toJson_eq_object (plan : Plan) : plan.toJson = .object plan.members := rfl

/-- `member?` finds each part of a plan under its name. The four names differ,
so no part hides another one. -/
theorem member?_members (plan : Plan) :
    member? plan.members "pagination" = plan.window.map Window.toJson ∧
      member? plan.members "where" = some plan.filter.toJson ∧
      member? plan.members "sort" =
        plan.sort.map (fun keys => .array (keys.map SortKey.toJson)) ∧
      member? plan.members "select" =
        plan.selection.map (fun names => .array (names.map .string)) := by
  -- which members stand in front of the one that is looked up depends on which parts there are
  obtain ⟨window, filter, sort, selection⟩ := plan
  cases window <;> cases sort <;> cases selection <;> simp [members, member?, List.lookup_cons]

/-- **Plans whose JSON values are the `Same` are equal**, up to a connective
that joins nothing. The defaults and the parameters may be others. -/
theorem ofParams_toJson_inj {defaults defaults' : Defaults} {params params' : Params}
    (h : Same (ofParams defaults params).toJson (ofParams defaults' params').toJson) :
    (ofParams defaults params).window = (ofParams defaults' params').window ∧
      (ofParams defaults params).sort = (ofParams defaults' params').sort ∧
      (ofParams defaults params).selection = (ofParams defaults' params').selection ∧
      (ofParams defaults params).filter.clauses = (ofParams defaults' params').filter.clauses ∧
      (ofParams defaults params).filter.connective? =
        (ofParams defaults' params').filter.connective? := by
  rw [toJson_eq_object, toJson_eq_object] at h
  obtain ⟨hwindow, hfilter, hsort, hselection⟩ := member?_members (ofParams defaults params)
  obtain ⟨hwindow', hfilter', hsort', hselection'⟩ := member?_members (ofParams defaults' params')
  have hfilters := Filter.toJson_inj (fun _ => Filter.spelled_of_mem)
    (fun _ => Filter.spelled_of_mem) (h.of_member? hfilter hfilter')
  have hwindows := h.member "pagination"
  have hsorts := h.member "sort"
  have hselections := h.member "select"
  rw [hwindow, hwindow'] at hwindows
  rw [hsort, hsort'] at hsorts
  rw [hselection, hselection'] at hselections
  refine ⟨?_, ?_, ?_, hfilters⟩
  · exact Same.option_map_inj hwindows fun _ _ => Window.toJson_inj
  · apply Same.option_map_inj hsorts
    intro keys keys' hkeys
    exact hkeys.array_map_inj fun _ _ _ _ => SortKey.toJson_inj
  · apply Same.option_map_inj hselections
    intro names names' hnames
    exact hnames.array_map_inj fun _ _ _ _ => Same.string_inj

/-- `ofParams_toJson_inj` at a day beyond the end of its month and the day of
the next month that it stands for. -/
theorem ofParams_toJson_inj_late_day :
    Same
        (ofParams .standard (.ofPairs [("limit", "null"), ("sort", "name"), ("name", "null"),
          ("at.gte", "2017-02-31T00:00:00.000Z")])).toJson
        (ofParams ⟨2, 5⟩ (.ofPairs [("_op", "and"), ("name.EQ", "null"), ("sort", " name ASC"),
          ("at.gte", "from 2017-03-03T00:00:00.000Z"), ("limit", "null")])).toJson ∧
      (ofParams .standard (.ofPairs [("limit", "null"), ("sort", "name"), ("name", "null"),
          ("at.gte", "2017-02-31T00:00:00.000Z")])).filter.clauses =
        (ofParams ⟨2, 5⟩ (.ofPairs [("_op", "and"), ("name.EQ", "null"), ("sort", " name ASC"),
          ("at.gte", "from 2017-03-03T00:00:00.000Z"), ("limit", "null")])).filter.clauses := by
  have hsame : Same
      (ofParams .standard (.ofPairs [("limit", "null"), ("sort", "name"), ("name", "null"),
        ("at.gte", "2017-02-31T00:00:00.000Z")])).toJson
      (ofParams ⟨2, 5⟩ (.ofPairs [("_op", "and"), ("name.EQ", "null"), ("sort", " name ASC"),
        ("at.gte", "from 2017-03-03T00:00:00.000Z"), ("limit", "null")])).toJson :=
    Same.refl _
  exact ⟨hsame, (ofParams_toJson_inj hsame).2.2.2.1⟩

end Plan

end ListQuery
