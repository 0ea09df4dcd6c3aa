import Mathlib.Data.List.Basic
import ListQuery.Plan
import ListQuery.Proofs.Filter.Clauses
import ListQuery.Proofs.OrderedMap

/-!
# What a change to one key changes in a plan

Every key has a say in one part of a plan (`Part.ofKey`), and a change to it
shows in this part only.

* **`Change`** — an argument for a key, or one string more. Both alter one entry
  of the parameters.
* **`control?_alter_of_ne`** — the frame of the parts that controls steer: they
  read nothing but the last string of their own keys.
* **`clauses_alter`** — the locality of the clauses: the entries are cut at the
  key (`OrderedMap.entries_alter`), and each piece gives its own clauses.
* **`ofParams_change`** — both together.
-/

namespace ListQuery

/-! ## Changes -/

namespace Params

/-- A change to what parameters hold for one key: to `insert` an argument in
place of what it had, or to `append` one string. -/
inductive Change where
  | insert (argument : Argument)
  | append (text : String)

/-- The parameters after a change to a key. -/
def change (params : Params) (key : String) : Change → Params
  | .insert argument => params.insert key argument
  | .append text => params.append key text

/-- `change` is an `alter` of one entry, whichever of the two it is. What
follows is proved for `alter`, and so for both. -/
theorem exists_change_eq_alter (params : Params) (key : String) (c : Change) :
    ∃ f, params.change key c = params.alter key f := by
  cases c with
  | insert argument => exact ⟨fun _ => argument, rfl⟩
  | append text => exact ⟨_, rfl⟩

/-- `control?` reads nothing but its own key, so that altering another one
leaves its string alone. -/
theorem control?_alter_of_ne (params : Params) {key : String} {control : Control}
    (f : Option Argument → Argument) (h : control.key ≠ key) :
    Params.control? (params.alter key f) control = params.control? control := by
  rw [control?, last?, OrderedMap.get?_alter_of_ne _ _ h]
  rfl

end Params

/-! ## The parts of a plan -/

namespace Plan

/-- The parts of a plan that keys have a say in. `connective` and `clauses` are
apart, although both are in the filter, since different keys have a say in
them. -/
inductive Part where
  | window
  | connective
  | clauses
  | sort
  | selection
  deriving DecidableEq

namespace Part

/-- The part that a control steers. -/
def ofControl : Control → Part
  | .page => .window
  | .limit => .window
  | .sort => .sort
  | .connective => .connective
  | .fields => .selection

/-- The part that a key has a say in. A key that is no control gives clauses,
also one that looks like a control but for a suffix or a letter's case. -/
def ofKey (key : String) : Part :=
  ((Control.all.find? fun control => control.key == key).map ofControl).getD .clauses

/-- `part.Agree plan plan'` says that the two plans are the same in this part.
Nothing is said of the others. -/
def Agree (part : Part) (plan plan' : Plan) : Prop :=
  match part with
  | .window => plan.window = plan'.window
  | .connective => plan.filter.connective = plan'.filter.connective
  | .clauses => plan.filter.clauses = plan'.filter.clauses
  | .sort => plan.sort = plan'.sort
  | .selection => plan.selection = plan'.selection

example : ["page", "limit", "sort", "_op", "_fields"].map ofKey =
    [.window, .window, .sort, .connective, .selection] := by decide
example : ["page.eq", "Sort", "_op.in", " limit", ""].map ofKey =
    [.clauses, .clauses, .clauses, .clauses, .clauses] := by decide

/-- The key of a control has a say in the part that the control steers. -/
theorem ofKey_key (control : Control) : ofKey control.key = ofControl control := by
  cases control <;> decide

/-- `Part.ofKey` gives `clauses` exactly for a key that is not reserved, since
no control steers the clauses. -/
theorem ofKey_eq_clauses_iff {key : String} :
    ofKey key = .clauses ↔ Params.isReserved key = false := by
  rw [ofKey, Params.isReserved]
  cases hfind : Control.all.find? fun control => control.key == key with
  | none =>
    rw [List.find?_eq_none] at hfind
    simpa using hfind
  | some control =>
    have hcontrol := List.find?_some hfind
    have hmem := List.mem_of_find?_eq_some hfind
    have hreserved : (Control.all.any fun control => control.key == key) = true :=
      List.any_eq_true.mpr ⟨control, hmem, hcontrol⟩
    rw [hreserved]
    cases control <;> simp [ofControl]

end Part

end Plan

/-! ## The clauses that a key gives -/

namespace Filter

/-- The clauses that a key gives: the `block` of its argument, if it has one. A
reserved key has a share too, which is in no filter. -/
def share (params : Params) (key : String) : List Clause :=
  ((params.get? key).map (block key)).getD []

/-- The clauses of a filter are the `share`s of its keys, one behind the other.
Here the parameters are told by their keys and by what each of them holds. -/
theorem clauses_eq_flatMap_share (params : Params) :
    (ofParams params).clauses =
      (params.keys.filter fun key => !Params.isReserved key).flatMap (share params) := by
  rw [clauses_eq_flatMap_block, OrderedMap.keys, List.filter_map, List.flatMap_map]
  apply List.flatMap_congr
  intro entry hentry
  rw [share, OrderedMap.get?_of_mem (List.mem_filter.mp hentry).1]
  rfl

/-- The clauses that entries give, in their order. It goes through reserved keys
too, so that it can be cut anywhere. -/
def ofEntries (entries : List (String × Argument)) : List Clause :=
  (entries.filter fun entry => !Params.isReserved entry.1).flatMap fun entry =>
    block entry.1 entry.2

theorem ofEntries_append (front back : List (String × Argument)) :
    ofEntries (front ++ back) = ofEntries front ++ ofEntries back := by
  simp [ofEntries]

theorem ofEntries_entry {params : Params} {key : String} (h : Params.isReserved key = false) :
    ofEntries (params.entry key) = share params key := by
  rw [OrderedMap.entry, share, ofEntries]
  cases params.get? key with
  | none => rfl
  | some argument => simp [h]

theorem ofEntries_entry_of_isReserved {params : Params} {key : String}
    (h : Params.isReserved key = true) : ofEntries (params.entry key) = [] := by
  rw [OrderedMap.entry, ofEntries]
  cases params.get? key with
  | none => rfl
  | some argument => simp [h]

/-- An alteration changes the clauses that the entry of the key gives, and none
in front of them or behind them (`OrderedMap.entries_alter`). -/
theorem clauses_alter (params : Params) (key : String) (f : Option Argument → Argument) :
    ∃ front back,
      (ofParams params).clauses = front ++ ofEntries (params.entry key) ++ back ∧
      (ofParams (params.alter key f)).clauses =
        front ++ ofEntries ((params.alter key f).entry key) ++ back ∧
      (params.get? key = none → back = []) := by
  obtain ⟨front, back, hentries, halter, hnew⟩ := params.entries_alter key f
  -- what is reserved is filtered out of each piece, so the pieces need not be cut again
  refine ⟨ofEntries front, ofEntries back, ?_, ?_, fun h => by rw [hnew h]; rfl⟩
  · calc (ofParams params).clauses = ofEntries params.entries := clauses_eq_flatMap_block params
      _ = _ := by rw [hentries, ofEntries_append, ofEntries_append]
  · calc (ofParams (params.alter key f)).clauses
        = ofEntries (params.alter key f).entries := clauses_eq_flatMap_block _
      _ = _ := by rw [halter, ofEntries_append, ofEntries_append]

/-- `alter` at a reserved key leaves all clauses alone. Its entry stands among
the others and gives none. -/
theorem clauses_alter_of_isReserved (params : Params) {key : String}
    (f : Option Argument → Argument) (h : Params.isReserved key = true) :
    (ofParams (params.alter key f)).clauses = (ofParams params).clauses := by
  obtain ⟨front, back, hclauses, halter, -⟩ := clauses_alter params key f
  rw [hclauses, halter, ofEntries_entry_of_isReserved h, ofEntries_entry_of_isReserved h]

/-- `append` of one string gives one clause more at the end of the `share`,
unless the operator tests for membership. -/
theorem share_append (params : Params) {key : String} (text : String)
    (h : (Target.ofKey key).operator ≠ .isIn) :
    share (params.append key text) key =
      share params key ++
        [⟨(Target.ofKey key).path, .ofOperator (Target.ofKey key).operator (.ofText text)⟩] := by
  rw [share, share, Params.append, OrderedMap.get?_alter_self]
  -- a second string makes a list of the first, and the texts are those of both
  cases params.get? key with
  | none => simp [block, h, Argument.texts]
  | some argument => simp [block, h, Argument.texts_push]

end Filter

/-! ## Plans -/

namespace Plan

/-- A part `Agree`s if the strings of the controls that steer it do, and, for
the `clauses`, the clauses themselves. This is the one place where all parts of
a plan are looked at. -/
theorem agree_of_controls (defaults : Defaults) {params params' : Params} {part : Part}
    (h : ∀ control, Part.ofControl control = part →
      params.control? control = params'.control? control)
    (hclauses : part = .clauses →
      (Filter.ofParams params).clauses = (Filter.ofParams params').clauses) :
    part.Agree (ofParams defaults params) (ofParams defaults params') := by
  cases part with
  | window =>
    show Window.ofParams _ _ = Window.ofParams _ _
    simp only [Window.ofParams, Window.used, h .page rfl, h .limit rfl]
  | connective =>
    show (Filter.ofParams _).connective = (Filter.ofParams _).connective
    rw [Filter.connective_ofParams, Filter.connective_ofParams, h .connective rfl]
  | clauses => exact hclauses rfl
  | sort =>
    show SortKey.ofParams _ = SortKey.ofParams _
    rw [SortKey.ofParams, SortKey.ofParams, h .sort rfl]
  | selection =>
    show Selection.ofParams _ = Selection.ofParams _
    rw [Selection.ofParams, Selection.ofParams, h .fields rfl]

/-- Plans that `Agree` in all parts are the same. -/
theorem eq_of_agree {plan plan' : Plan} (h : ∀ part : Part, part.Agree plan plan') :
    plan = plan' := by
  obtain ⟨window, ⟨connective, clauses⟩, sort, selection⟩ := plan
  obtain ⟨window', ⟨connective', clauses'⟩, sort', selection'⟩ := plan'
  obtain rfl : window = window' := h .window
  obtain rfl : connective = connective' := h .connective
  obtain rfl : clauses = clauses' := h .clauses
  obtain rfl : sort = sort' := h .sort
  obtain rfl : selection = selection' := h .selection
  rfl

/-- What a key has no say in is left alone by every alteration of its entry. The
two cases are those of `agree_of_controls`. -/
theorem agree_alter (defaults : Defaults) (params : Params) {key : String}
    (f : Option Argument → Argument) {part : Part} (h : part ≠ Part.ofKey key) :
    part.Agree (ofParams defaults (params.alter key f)) (ofParams defaults params) := by
  refine agree_of_controls defaults (fun control hpart => ?_) fun hpart => ?_
  · -- the key is no control that steers this part, so the part reads the same strings as before
    apply Params.control?_alter_of_ne params f
    rintro rfl
    exact h (hpart.symm.trans (Part.ofKey_key control).symm)
  · apply Filter.clauses_alter_of_isReserved params f
    rw [← Bool.not_eq_false]
    intro hreserved
    exact h (hpart.trans (Part.ofKey_eq_clauses_iff.mpr hreserved).symm)

/-- **What a `change` to one key changes in a plan.** All parts but
`Part.ofKey key` `Agree`. If this is the clauses, it changes nothing but the
`share` of the key, and that stays where it is; a new key gives the last
clauses. One string more gives one clause more there, unless the operator tests
for membership. -/
theorem ofParams_change (defaults : Defaults) (params : Params) (key : String) (c : Params.Change) :
    (∀ part, part ≠ Part.ofKey key →
      part.Agree (ofParams defaults (params.change key c)) (ofParams defaults params)) ∧
    (Part.ofKey key = .clauses →
      (∃ front back,
        (ofParams defaults params).filter.clauses = front ++ Filter.share params key ++ back ∧
        (ofParams defaults (params.change key c)).filter.clauses =
          front ++ Filter.share (params.change key c) key ++ back ∧
        (params.get? key = none → Filter.share params key = [] ∧ back = [])) ∧
      ((Target.ofKey key).operator ≠ .isIn → ∀ text,
        Filter.share (params.change key (.append text)) key =
          Filter.share params key ++
            [⟨(Target.ofKey key).path,
              .ofOperator (Target.ofKey key).operator (.ofText text)⟩])) := by
  obtain ⟨f, hf⟩ := params.exists_change_eq_alter key c
  rw [hf]
  refine ⟨fun part => agree_alter defaults params f, fun hkey => ⟨?_, ?_⟩⟩
  · -- in front of the share and behind it the clauses stay
    have hreserved := Part.ofKey_eq_clauses_iff.mp hkey
    obtain ⟨front, back, hclauses, halter, hnew⟩ := Filter.clauses_alter params key f
    rw [Filter.ofEntries_entry hreserved] at hclauses halter
    refine ⟨front, back, hclauses, halter, fun hkey => ⟨?_, hnew hkey⟩⟩
    rw [Filter.share, hkey]
    rfl
  · exact fun hoperator text => Filter.share_append params text hoperator

end Plan

end ListQuery
