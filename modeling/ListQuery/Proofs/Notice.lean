import Mathlib.Data.List.Basic
import ListQuery.Notice
import ListQuery.Proofs.Filter.Clauses
import ListQuery.Proofs.Operand
import ListQuery.Proofs.Window

/-!
# What notices tell

The notices of a plan are told by the texts of the query, without following its
evaluation.

* **`operands_clauses`**, **`recognizeM_operand`** — the crux: both the operands
  and what is told about them come from the same texts, in the same order.
* **`filter_misread_texts`** — so a text is told about where it looks like a
  timestamp and is kept.
* **`Plan.ofParamsNoted_eq`** — the program that gives the notices makes the
  plan, and the defaults have no say in what it tells.
* **`ofParams_eq_append`** — the headline: the parts of the notices, and when
  each of them is due.
-/

namespace ListQuery

open Timestamp (HasShape IsLeftmost)

/-! ## Texts that look like timestamps -/

/-- `HoldsTimestamp string` says that something which `HasShape` stands in the
string, whether or not its fields are in range. -/
def HoldsTimestamp (string : String) : Prop :=
  ∃ window, HasShape window ∧ window <:+: string.toList

/-- The leftmost timestamp in the string has fields that are out of range. It is
said without searching the string; `isMisread` is what searches it. -/
def Misread (string : String) : Prop :=
  ∃ t : Timestamp, t.IsLeftmost string.toList ∧ ¬ t.InRange

theorem isSome_find?_iff {string : String} :
    (Timestamp.find? string.toList).isSome = true ↔ HoldsTimestamp string := by
  rw [← not_iff_not, Option.not_isSome_iff_eq_none, Timestamp.find?_eq_none_iff, HoldsTimestamp]
  simp only [not_exists, not_and]

/-- `isMisread` says what `Misread` does, by reading the string. -/
theorem isMisread_iff {string : String} : Operand.isMisread string = true ↔ Misread string := by
  rw [Operand.isMisread, decide_eq_true_iff, Timestamp.read]
  simp only [Misread, ← Timestamp.find?_eq_some_iff]
  cases Timestamp.find? string.toList with
  | none => simp
  | some t =>
    by_cases hrange : t.InRange
    · simp [hrange]
    · simp [hrange]

instance : DecidablePred HoldsTimestamp := fun _ => decidable_of_iff _ isSome_find?_iff

instance : DecidablePred Misread := fun _ => decidable_of_iff _ isMisread_iff

/-! ## The texts of filters -/

namespace Operand

variable {m : Type → Type} [Monad m]

/-- `recognizeAllM` spells a list of texts text by text. This holds in every
monad, and so for the plain program as for those that give notices or can
fail. -/
theorem recognizeAllM_map_text [LawfulMonad m] (spell : String → m Operand) (texts : List String) :
    recognizeAllM spell (texts.map .text) = texts.mapM spell := by
  induction texts with
  | nil => rw [List.mapM_nil]; rfl
  | cons text rest ih => rw [List.map_cons, recognizeAllM, ih, List.mapM_cons]; rfl

end Operand

namespace Filter

/-- The texts that the operands of a parameter are made of: the `listed` ones
for a membership test, the given ones otherwise. -/
def textsOf (key : String) (argument : Argument) : List String :=
  if (Target.ofKey key).operator = .isIn then argument.listed else argument.texts

/-- The texts of all filters, in order. -/
def texts (params : Params) : List String :=
  params.filters.flatMap fun entry => textsOf entry.1 entry.2

/-- `operand` is the only text of a parameter or the list of its texts. These
are the two ways in which `recognizeM` visits them. -/
theorem operand_cases (key : String) (argument : Argument) :
    (∃ text, operand key argument = .text text ∧ textsOf key argument = [text]) ∨
      operand key argument = .list ((textsOf key argument).map .text) := by
  unfold operand textsOf
  cases (Target.ofKey key).operator with
  | isIn => cases argument <;> exact .inr rfl
  | equals => cases argument <;> first | exact .inr rfl | exact .inl ⟨_, rfl, rfl⟩
  | compare _ => cases argument <;> first | exact .inr rfl | exact .inl ⟨_, rfl, rfl⟩

/-- The operands of a `block` are what its texts spell, one by one. So the texts
of a parameter and its operands correspond to each other, whatever the operator
is. -/
theorem operands_block (key : String) (argument : Argument) :
    ((block key argument).flatMap fun clause => clause.test.operands) =
      (textsOf key argument).map .ofText := by
  rw [block, textsOf]
  split
  · simp [Test.operands]
  · rw [List.flatMap_map, List.map_eq_flatMap]
    apply congrArg fun f => argument.texts.flatMap f
    funext text
    cases hoperator : (Target.ofKey key).operator <;> rfl

/-- The operands of all clauses are what the `texts` of the filters spell, one
by one and in order. -/
theorem operands_clauses (params : Params) :
    ((ofParams params).clauses.flatMap fun clause => clause.test.operands) =
      (texts params).map .ofText := by
  rw [clauses_eq_flatMap_block, texts, List.flatMap_assoc, List.map_flatMap]
  apply List.flatMap_congr
  intro entry _
  exact operands_block entry.1 entry.2

/-- The string that an operand is, if it is one. -/
def kept? : Operand → Option String
  | .text string => some string
  | _ => none

/-- A text that `HoldsTimestamp` is kept where it is `Misread`. A text may be
kept for another reason too, which is that it holds none. -/
theorem kept?_ofText_filter (string : String) :
    (kept? (.ofText string)).filter (fun string => decide (HoldsTimestamp string)) =
      if Misread string then some string else none := by
  by_cases hholds : HoldsTimestamp string
  · -- the leftmost timestamp decides whether the text is kept and whether it is misread
    obtain ⟨t, ht⟩ := Option.isSome_iff_exists.mp (isSome_find?_iff.mpr hholds)
    have hspelled := Operand.recognize_text_of_isLeftmost (Timestamp.find?_eq_some_iff.mp ht)
    have hmisread : Misread string ↔ ¬ t.InRange := by
      simp [Misread, ← Timestamp.find?_eq_some_iff, ht]
    rw [Operand.recognize] at hspelled
    rw [hspelled]
    by_cases hrange : t.InRange
    · simp [hmisread, hrange, kept?]
    · simp [hmisread, hrange, kept?, hholds]
  · have hmisread : ¬ Misread string := by
      rintro ⟨t, ht, -⟩
      rw [← isSome_find?_iff, Timestamp.find?_eq_some_iff.mpr ht] at hholds
      exact hholds rfl
    rw [if_neg hmisread]
    rcases Operand.ofText_cases string with h | ⟨moment, -, h⟩ | ⟨-, h⟩
    · simp [h, kept?]
    · simp [h, kept?]
    · simp [h, kept?, hholds]

/-- The `texts` that are `Misread` are those that the clauses keep and that
`HoldsTimestamp`. So what is told about can be seen in the filter. -/
theorem filter_misread_texts (params : Params) :
    ((texts params).filter fun string => decide (Misread string)) =
      (((ofParams params).clauses.flatMap fun clause => clause.test.operands).filterMap
        kept?).filter fun string => decide (HoldsTimestamp string) := by
  rw [operands_clauses, List.filterMap_map, List.filter_filterMap, ← List.filterMap_eq_filter]
  apply List.filterMap_congr
  intro string _
  rw [Function.comp_apply, kept?_ofText_filter, Option.guard]
  simp only [decide_eq_true_iff]

end Filter

/-! ## Making a plan with its notices -/

namespace Noted

variable {α β : Type}

theorem pure_eq (value : α) : (pure value : Noted α) = ⟨value, []⟩ := rfl

theorem bind_eq (made : Noted α) (next : α → Noted β) :
    made >>= next = ⟨(next made.value).value, made.notices ++ (next made.value).notices⟩ := rfl

/-- `<$>` on what is `Noted` leaves the notices as they are. It is the map of
the monad, so there is nothing that it could append. -/
theorem map_eq (f : α → β) (made : Noted α) : f <$> made = ⟨f made.value, made.notices⟩ := by
  show (⟨f made.value, made.notices ++ []⟩ : Noted β) = _
  rw [List.append_nil]

/-- Notices are appended, whatever belongs together. -/
instance : LawfulMonad Noted :=
  LawfulMonad.mk' Noted (fun made => map_eq id made) (fun _ _ => rfl)
    (fun made next last => by rw [bind_eq, bind_eq, bind_eq, bind_eq, List.append_assoc])

/-- What tells of a notice before it returns is the value with this notice. The
parts of a plan that give a notice are all made in this way. -/
theorem tell_bind_pure (notice : Option Notice) (value : α) :
    (do tell notice; return value) = (⟨value, notice.toList⟩ : Noted α) := by
  rw [bind_eq, pure_eq, List.append_nil]
  rfl

/-- `mapM` makes a list item by item, with the notices of one item behind those
of the other. Induction on the items. -/
theorem mapM_eq (f : α → Noted β) (items : List α) :
    items.mapM f = ⟨items.map fun item => (f item).value,
      items.flatMap fun item => (f item).notices⟩ := by
  induction items with
  | nil => rfl
  | cons item rest ih =>
    rw [List.mapM_cons, ih]
    simp only [bind_eq, pure_eq, List.append_nil, List.map_cons, List.flatMap_cons]

end Noted

namespace Operand

/-- `ofTextNoted` gives a notice at most, with the value of `ofText`. -/
theorem ofTextNoted_eq (string : String) :
    ofTextNoted string = ⟨ofText string, (Notice.ofText string).toList⟩ :=
  Noted.tell_bind_pure _ _

end Operand

namespace Filter

/-- `recognizeM` with `ofTextNoted` recognizes the operand of a parameter, and
gives the notices of its texts, each of them once. -/
theorem recognizeM_operand (key : String) (argument : Argument) :
    (operand key argument).recognizeM Operand.ofTextNoted =
      ⟨(operand key argument).recognize, (textsOf key argument).filterMap Notice.ofText⟩ := by
  have hnotices : ∀ texts : List String,
      (texts.flatMap fun text => (Operand.ofTextNoted text).notices) =
        texts.filterMap Notice.ofText := by
    intro texts
    rw [List.filterMap_eq_flatMap_toList]
    simp only [Operand.ofTextNoted_eq]
  rcases operand_cases key argument with ⟨text, hoperand, htexts⟩ | hoperand
  · -- a single text is not in a list, and its notices are as if it were in one
    rw [hoperand, htexts, ← hnotices]
    simp [Operand.recognizeM, Operand.recognize, Operand.ofTextNoted_eq]
  · rw [hoperand, Operand.recognizeM, Operand.recognizeAllM_map_text, Noted.mapM_eq, Noted.map_eq,
      hnotices, Operand.recognize, Operand.recognizeAll_map_text]
    simp only [Operand.ofTextNoted_eq]

/-- The program for a filter makes the filter, and gives notice of the
connective and then of the texts. It is `mapM` and `bind` said out, parameter by
parameter. -/
theorem ofParamsM_noted (params : Params) :
    ofParamsM Connective.ofControlNoted Operand.ofTextNoted params =
      ⟨ofParams params, (Notice.ofConnective (params.control? .connective)).toList ++
        (texts params).filterMap Notice.ofText⟩ := by
  have hconnective : Connective.ofControlNoted (params.control? .connective) =
      ⟨.ofControl (params.control? .connective),
        (Notice.ofConnective (params.control? .connective)).toList⟩ :=
    Noted.tell_bind_pure _ _
  rw [ofParamsM, hconnective]
  simp only [recognizeM_operand, Noted.mapM_eq, Noted.bind_eq, Noted.pure_eq, List.append_nil,
    ← List.flatMap_def]
  rw [texts, List.filterMap_flatMap]
  rfl

end Filter

/-! ## Notices that are due -/

theorem Control.key_inj {control other : Control} (h : control.key = other.key) :
    control = other := by
  cases control <;> cases other <;> first | rfl | exact absurd h (by decide)

namespace Notice

open Number (Numeral)

/-- A notice as it is written down, in the words of `Notice.event`. -/
structure Event where
  level : String
  message : String
  fields : List (String × Json)

/-- What is written down of a notice: the level that its kind has, its wording
and its fields. -/
def event (notice : Notice) : Event := ⟨notice.level.name, notice.message, notice.fields⟩

/-- The notices about the window: that there is none, or first the page and then
the limit. -/
def ofWindow (params : Params) : List Notice :=
  if params.control? .limit = some Window.unlimited then [.unlimited]
  else
    [Control.page, Control.limit].filterMap fun control =>
      ofReading control (Window.read (params.control? control))

/-- `Malformed params control text` says that the string which counts for the
control is no numeral, and that `text` is what it has between its white space.
White space alone is not malformed, and neither is a numeral that is of no
use. -/
def Malformed (params : Params) (control : Control) (text : String) : Prop :=
  ∃ string, params.control? control = some string ∧
    text = String.ofList (Text.trim string.toList) ∧ Text.trim string.toList ≠ [] ∧
    ¬ ∃ numeral : Numeral, numeral.Spells (Text.trim string.toList)

/-- `Unknown params word` says that the word counts for the connective and names
none. -/
def Unknown (params : Params) (word : String) : Prop :=
  params.control? .connective = some word ∧ word ≠ "and" ∧ word ≠ "or"

/-- `Tells due wording events` says that `events` is one event if there is a
text that `due` says to tell about, in the given wording, and that it is none
otherwise. -/
def Tells (due : String → Prop) (wording : String → Event) (events : List Event) : Prop :=
  events.length ≤ 1 ∧ ∀ event, event ∈ events ↔ ∃ text, due text ∧ event = wording text

/-- A notice that is given exactly where a text is `due` tells about that
text. -/
theorem tells_map_event {due : String → Prop} {notice : String → Notice} {given : Option Notice}
    (h : ∀ n, given = some n ↔ ∃ text, due text ∧ n = notice text) :
    Tells due (fun text => (notice text).event) (given.toList.map event) := by
  constructor
  · cases given <;> simp
  · intro e
    simp only [List.mem_map, Option.mem_toList, h]
    constructor
    · rintro ⟨_, ⟨text, hdue, rfl⟩, rfl⟩
      exact ⟨text, hdue, rfl⟩
    · rintro ⟨text, hdue, rfl⟩
      exact ⟨_, ⟨text, hdue, rfl⟩, rfl⟩

/-- A page or a limit is told about exactly if it is no numeral, by the grammar
of `Numeral.Spells`. -/
theorem ofReading_eq_some_iff {params : Params} {control : Control} {notice : Notice} :
    ofReading control (Window.read (params.control? control)) = some notice ↔
      ∃ text, Malformed params control text ∧ notice = .malformedNumber control.key text := by
  simp only [Malformed, ← Window.read_eq_malformed_iff]
  cases Window.read (params.control? control) with
  | malformed text => simp [ofReading, eq_comm]
  | _ => simp [ofReading]

/-- `ofConnective` tells about a word exactly if it is `Unknown`. -/
theorem ofConnective_eq_some_iff {params : Params} {notice : Notice} :
    ofConnective (params.control? .connective) = some notice ↔
      ∃ word, Unknown params word ∧ notice = .unknownConnective word := by
  simp only [ofConnective, Unknown]
  cases params.control? .connective with
  | none => simp
  | some word =>
    have hnamed : (Connective.ofName? word).isNone = true ↔ word ≠ "and" ∧ word ≠ "or" := by
      unfold Connective.ofName?
      split
      · next h => simp [h]
      · next hand =>
        split
        · next h => simp [h]
        · next hor => simp [hand, hor]
    simp only [hnamed, Option.some_inj, and_assoc, exists_eq_left', Option.ite_none_right_eq_some]
    rw [eq_comm (b := notice)]

theorem ofWindow_of_unlimited {params : Params} (h : params.control? .limit = some "null") :
    ofWindow params = [.unlimited] :=
  if_pos h

/-- Where there is a window, `ofWindow` tells about the page before the
limit. -/
theorem ofWindow_of_limited {params : Params} (h : params.control? .limit ≠ some "null") :
    ofWindow params = (ofReading .page (Window.read (params.control? .page))).toList ++
      (ofReading .limit (Window.read (params.control? .limit))).toList := by
  have hlimited : ¬ params.control? .limit = some Window.unlimited := h
  rw [ofWindow, if_neg hlimited]
  cases hpage : ofReading .page (Window.read (params.control? .page)) <;>
    cases hlimit : ofReading .limit (Window.read (params.control? .limit)) <;>
      simp [hpage, hlimit]

end Notice

/-- `readNoted` gives a notice at most, with the reading of `read`. -/
theorem Window.readNoted_eq (params : Params) (control : Control) :
    readNoted params control = ⟨read (params.control? control),
      (Notice.ofReading control (read (params.control? control))).toList⟩ :=
  Noted.tell_bind_pure _ _

/-- `Window.ofParamsM` with `readNoted` makes the window of `ofParams`, and
gives the notices of `ofWindow`. -/
theorem Window.ofParamsM_noted (defaults : Defaults) (params : Params) :
    ofParamsM (Noted.tell (some .unlimited)) (readNoted params) defaults params =
      ⟨ofParams defaults params, Notice.ofWindow params⟩ := by
  by_cases h : params.control? .limit = some unlimited
  · rw [ofParamsM, if_pos h, ofParams, if_pos h, Notice.ofWindow_of_unlimited h]
    rfl
  · rw [ofParamsM, if_neg h, ofParams_of_limited h, Notice.ofWindow_of_limited h]
    simp [readNoted_eq, Noted.bind_eq, Noted.pure_eq, used]

namespace Plan

/-- `ofParamsNoted` makes the plan of `ofParams`, and gives the notices of its
parts behind each other. The defaults are nowhere in them. -/
theorem ofParamsNoted_eq_append (defaults : Defaults) (params : Params) :
    ofParamsNoted defaults params =
      ⟨ofParams defaults params,
        Notice.ofWindow params ++ (Notice.ofConnective (params.control? .connective)).toList ++
          (Filter.texts params).filterMap Notice.ofText ++
          [.planned params.size (Filter.ofParams params).clauses.length]⟩ := by
  rw [ofParamsNoted, Window.ofParamsM_noted, Filter.ofParamsM_noted]
  simp [Noted.tell, Noted.bind_eq, Noted.pure_eq, ofParams]

/-- **The notices are those of the making of the plan.** With whatever defaults
it is made, `ofParamsNoted` makes the plan and gives the same notices. -/
theorem ofParamsNoted_eq (defaults : Defaults) (params : Params) :
    ofParamsNoted defaults params = ⟨ofParams defaults params, Notice.ofParams params⟩ := by
  rw [Notice.ofParams, ofParamsNoted_eq_append, ofParamsNoted_eq_append]

end Plan

namespace Notice

open Number (Numeral)

/-- `ofParams` in full, with the notices about operands as a list of the texts
that are `Misread`. -/
theorem ofParams_eq (params : Params) :
    ofParams params = ofWindow params ++ (ofConnective (params.control? .connective)).toList ++
      (((Filter.texts params).filter fun string => decide (Misread string)).map .misread) ++
      [.planned params.size (Filter.ofParams params).clauses.length] := by
  have hmisread : (Filter.texts params).filterMap ofText =
      ((Filter.texts params).filter fun string => decide (Misread string)).map .misread := by
    rw [← List.filterMap_eq_map, ← List.filterMap_eq_filter, List.filterMap_filterMap]
    apply List.filterMap_congr
    intro string _
    simp only [ofText, isMisread_iff, Option.guard, decide_eq_true_iff]
    split <;> rfl
  rw [ofParams, Plan.ofParamsNoted_eq_append, hmisread]

/-- A `malformedNumber` in `ofParams` is about a control whose text is
`Malformed`. The notices of the other parts are of other kinds. -/
theorem malformed_of_mem {params : Params} {key text : String}
    (h : .malformedNumber key text ∈ ofParams params) :
    ∃ control, control.key = key ∧ Malformed params control text := by
  have hwindow : .malformedNumber key text ∈ ofWindow params := by
    rw [ofParams_eq, List.mem_append, List.mem_append, List.mem_append] at h
    rcases h with ((h | h) | h) | h
    · exact h
    · obtain ⟨word, -, heq⟩ := ofConnective_eq_some_iff.mp (Option.mem_toList.mp h)
      cases heq
    · obtain ⟨string, -, heq⟩ := List.mem_map.mp h
      cases heq
    · cases List.mem_singleton.mp h
  by_cases hlimit : params.control? .limit = some "null"
  · rw [ofWindow_of_unlimited hlimit] at hwindow
    cases List.mem_singleton.mp hwindow
  · rw [ofWindow_of_limited hlimit, List.mem_append, Option.mem_toList, Option.mem_toList,
      ofReading_eq_some_iff, ofReading_eq_some_iff] at hwindow
    rcases hwindow with ⟨_, hmalformed, heq⟩ | ⟨_, hmalformed, heq⟩
    · cases heq
      exact ⟨.page, rfl, hmalformed⟩
    · cases heq
      exact ⟨.limit, rfl, hmalformed⟩

/-- **The notices of a plan, and when each of them is due.** `ofParams` tells
about the window, the connective and the operands of a plan, in this order, and
that it is made. A page or a limit is told about if it is no numeral, and not if
it is one that has no use. A text of a filter is told about if it is `Misread`,
and these are the texts which the clauses keep and which `HoldsTimestamp`. With
whatever defaults a plan is made, these are the notices of its making
(`ofParamsNoted`). -/
theorem ofParams_eq_append (params : Params) :
    ∃ window connective,
      (ofParams params).map event = window ++ connective ++
        (((Filter.texts params).filter fun string => decide (Misread string)).map fun string =>
          ⟨"TRACE", "timestamp-like value did not parse, keeping string",
            [("value", .string string)]⟩) ++
        [⟨"TRACE", "built query descriptor", [("keys", .integer params.keys.length),
          ("clauses", .integer (Filter.ofParams params).clauses.length)]⟩] ∧
      (params.control? .limit = some "null" →
        window = [⟨"DEBUG", "pagination disabled by limit=null", []⟩]) ∧
      (params.control? .limit ≠ some "null" → ∃ page limit, window = page ++ limit ∧
        Tells (Malformed params .page) (fun text =>
          ⟨"DEBUG", "non-numeric pagination value, using default",
            [("key", .string "page"), ("value", .string text)]⟩) page ∧
        Tells (Malformed params .limit) (fun text =>
          ⟨"DEBUG", "non-numeric pagination value, using default",
            [("key", .string "limit"), ("value", .string text)]⟩) limit) ∧
      Tells (Unknown params) (fun word =>
        ⟨"DEBUG", "unsupported logical operator, using 'and'", [("value", .string word)]⟩)
        connective ∧
      ((Filter.texts params).filter fun string => decide (Misread string)) =
        (((Filter.ofParams params).clauses.flatMap fun clause => clause.test.operands).filterMap
          Filter.kept?).filter (fun string => decide (HoldsTimestamp string)) ∧
      (∀ control string numeral, params.control? control = some string →
        Numeral.Spells numeral (Text.trim string.toList) →
          (∀ text, .malformedNumber control.key text ∉ ofParams params) ∧
          (numeral.value.truncate? = none ∨ numeral.value.truncate? = some 0 →
            Window.read (params.control? control) = .unusable)) ∧
      ∀ defaults, Plan.ofParamsNoted defaults params =
        ⟨Plan.ofParams defaults params, ofParams params⟩ := by
  have hsize : params.size = params.keys.length := (List.length_map Prod.fst).symm
  refine ⟨(ofWindow params).map event,
    (ofConnective (params.control? .connective)).toList.map event, ?_, fun hlimit => ?_,
    fun hlimit => ?_, tells_map_event fun _ => ofConnective_eq_some_iff, ?_,
    fun control string numeral hstring hspells => ⟨fun text hmem => ?_, fun hvalue => ?_⟩,
    fun defaults => Plan.ofParamsNoted_eq defaults params⟩
  · -- the parts of the list
    rw [ofParams_eq, hsize, List.map_append, List.map_append, List.map_append,
      List.map_map]
    rfl
  · rw [ofWindow_of_unlimited hlimit]
    rfl
  · refine ⟨_, _, by rw [ofWindow_of_limited hlimit, List.map_append],
      tells_map_event fun _ => ofReading_eq_some_iff,
      tells_map_event fun _ => ofReading_eq_some_iff⟩
  · exact Filter.filter_misread_texts params
  · -- a numeral is not told about, since keys tell the controls apart
    obtain ⟨other, hkey, string', hstring', -, -, hnone⟩ := malformed_of_mem hmem
    rw [Control.key_inj hkey, hstring] at hstring'
    exact hnone (Option.some.inj hstring' ▸ ⟨numeral, hspells⟩)
  · rw [hstring, Window.read_of_spells hspells]
    rcases hvalue with h | h <;> rw [h]
    rfl

end Notice

end ListQuery
