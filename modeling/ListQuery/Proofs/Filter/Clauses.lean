import Mathlib.Algebra.GroupWithZero.Nat
import ListQuery.Filter

/-!
# The clauses of a filter

Which clauses parameters give, said without typing operands first and taking
them apart afterwards.

* **`recognize_commaList`**, **`elements_recognize_verbatim`** — the crux: an
  argument is typed text by text, whatever the form it is taken in. A list stays
  a list, so a membership test never meets a single operand.
* **`ofArgument_eq_block`** — the clauses of one parameter are its `block`.
* **`exists_ofText_of_mem`** — the invariant behind all that is said about
  operands: each of them is what some text spells (`Operand.ofText`), which is
  null, an instant or a text, and spells itself.
* **`clauses_ofParams`** — the headline: the blocks of the filters, one behind
  the other.
-/

namespace ListQuery

/-! ## Typing the texts of an argument -/

namespace Argument

/-- The texts that a membership test lists: the `commaParts` of a single text,
or all texts of a list as they are. A list of one text with commas lists that
text. -/
def listed : Argument → List String
  | .one text => Operand.commaParts text
  | .many texts => texts

end Argument

namespace Operand

theorem recognizeAll_map_text (texts : List String) :
    recognizeAll (texts.map .text) = texts.map ofText := by
  rw [recognizeAll_eq_map, List.map_map]
  exact List.map_congr_left fun _ _ => rfl

/-- `recognize` makes of the operand of a membership test a list of what the
`listed` texts spell. It stays one when it is typed, even if it has a single
item. -/
theorem recognize_commaList (argument : Argument) :
    (ofArgument .commaList argument).recognize = .list (argument.listed.map ofText) := by
  cases argument with
  | one text => rw [ofArgument, recognize, recognizeAll_map_text]; rfl
  | many texts => rw [ofArgument, recognize, recognizeAll_map_text]; rfl

/-- The `elements` for any other operator are what the given texts spell, one by
one. A single text is no list before it is typed and none afterwards. -/
theorem elements_recognize_verbatim (argument : Argument) :
    (ofArgument .verbatim argument).recognize.elements = argument.texts.map ofText := by
  cases argument with
  | one text =>
    -- a text spells no list, so it is the only element of what it spells
    have helements : (ofText text).elements = [ofText text] := by
      rw [ofText]
      split
      · rfl
      · cases Timestamp.read text.toList <;> rfl
    exact helements
  | many texts => rw [ofArgument, recognize, recognizeAll_map_text]; rfl

/-- `ofText` gives null, the instant that the text names, or the text when it
names none. Everything about typed texts is read off these three cases. -/
theorem ofText_cases (string : String) :
    ofText string = .null ∨
      (∃ moment, Timestamp.read string.toList = .instant moment ∧
        ofText string = .instant moment) ∨
      (∀ moment, Timestamp.read string.toList ≠ .instant moment) ∧
        ofText string = .text string := by
  rw [ofText]
  split
  · exact .inl rfl
  · cases Timestamp.read string.toList with
    | absent => exact .inr (.inr ⟨nofun, rfl⟩)
    | malformed => exact .inr (.inr ⟨nofun, rfl⟩)
    | instant moment => exact .inr (.inl ⟨moment, rfl, rfl⟩)

/-- What `ofText` spells stays as it is when it is typed once more. Only a text
could change, and the one that is left spells itself. -/
theorem recognize_ofText (string : String) : (ofText string).recognize = ofText string := by
  rcases ofText_cases string with h | ⟨moment, _, h⟩ | ⟨_, h⟩
  · rw [h, recognize]
    all_goals nofun
  · rw [h, recognize]
    all_goals nofun
  · rw [h, recognize, h]

end Operand

/-! ## The block of a parameter -/

namespace Filter

/-- A test against one operand, for an operator that takes no list. -/
def Test.ofOperator (operator : Operator) (operand : Operand) : Test :=
  match operator with
  | .compare comparison => .compare comparison operand
  | _ => .equals operand

/-- The operands of a test. -/
def Test.operands : Test → List Operand
  | .equals operand => [operand]
  | .compare _ operand => [operand]
  | .oneOf operands => operands

/-- The block of a parameter: one membership test for all the texts that it
lists, or one test for each of its texts. Unlike `ofArgument` it makes no
operand of the whole argument first, so that a clause can be followed back to
its text. -/
def block (key : String) (argument : Argument) : List Clause :=
  if (Target.ofKey key).operator = .isIn then
    [⟨(Target.ofKey key).path, .oneOf (argument.listed.map .ofText)⟩]
  else
    argument.texts.map fun text =>
      ⟨(Target.ofKey key).path, .ofOperator (Target.ofKey key).operator (.ofText text)⟩

/-- The number of clauses in the `block` of a parameter. A list without any
texts gives none, unless it is one for a membership test. -/
def blockLength (key : String) : Argument → Nat
  | .one _ => 1
  | .many texts => if (Target.ofKey key).operator = .isIn then 1 else texts.length

/-- A `block` has the length that the form of the argument and the operator give
it (`blockLength`), whatever the texts are. -/
theorem length_block (key : String) (argument : Argument) :
    (block key argument).length = blockLength key argument := by
  unfold block
  split
  · next hin => cases argument <;> simp [blockLength, hin]
  · next hin => cases argument <;> simp [blockLength, hin, Argument.texts]

theorem field_of_mem_block {key : String} {argument : Argument} {clause : Clause}
    (h : clause ∈ block key argument) : clause.field = (Target.ofKey key).path := by
  unfold block at h
  split at h
  · rw [List.mem_singleton.mp h]
  · obtain ⟨_, _, rfl⟩ := List.mem_map.mp h
    rfl

/-- Every operand of a `block` is what `ofText` makes of some text, whatever the
operator is. The three forms of a test differ only in how many operands they
have. -/
theorem exists_ofText_of_mem_block {key : String} {argument : Argument} {clause : Clause}
    (hclause : clause ∈ block key argument) {operand : Operand}
    (hoperand : operand ∈ clause.test.operands) : ∃ text, operand = .ofText text := by
  unfold block at hclause
  split at hclause
  · rw [List.mem_singleton.mp hclause] at hoperand
    obtain ⟨text, _, htext⟩ := List.mem_map.mp hoperand
    exact ⟨text, htext.symm⟩
  · obtain ⟨text, _, rfl⟩ := List.mem_map.mp hclause
    refine ⟨text, ?_⟩
    cases hoperator : (Target.ofKey key).operator <;>
      simpa [Test.ofOperator, Test.operands, hoperator] using hoperand

/-- The `operand` of a parameter with a membership test is a list, of what the
`listed` texts spell. -/
theorem recognize_operand {key : String} (argument : Argument)
    (h : (Target.ofKey key).operator = .isIn) :
    (operand key argument).recognize = .list (argument.listed.map .ofText) := by
  unfold operand
  rw [h]
  exact Operand.recognize_commaList argument

/-- The `elements` of a parameter with any other operator are what its texts
spell. -/
theorem elements_operand {key : String} (argument : Argument)
    (h : (Target.ofKey key).operator ≠ .isIn) :
    (operand key argument).recognize.elements = argument.texts.map .ofText := by
  have hform : (Target.ofKey key).operator.form = .verbatim := by
    cases hoperator : (Target.ofKey key).operator with
    | equals => rfl
    | compare _ => rfl
    | isIn => exact absurd hoperator h
  unfold operand
  rw [hform]
  exact Operand.elements_recognize_verbatim argument

/-- `ofArgument` gives the `block` of a parameter, for each of the three kinds
of operators. From here on no operand is taken apart any more. -/
theorem ofArgument_eq_block (key : String) (argument : Argument) :
    ofArgument key argument = block key argument := by
  cases hoperator : (Target.ofKey key).operator with
  | isIn =>
    have hlist := recognize_operand argument hoperator
    simp [ofArgument, clausesOf, block, hoperator, hlist, Operand.elements]
  | equals =>
    have helements := elements_operand argument (show (Target.ofKey key).operator ≠ .isIn by
      rw [hoperator]; nofun)
    simp [ofArgument, clausesOf, block, hoperator, helements, Test.ofOperator, Function.comp_def]
  | compare comparison =>
    have helements := elements_operand argument (show (Target.ofKey key).operator ≠ .isIn by
      rw [hoperator]; nofun)
    simp [ofArgument, clausesOf, block, hoperator, helements, Test.ofOperator, Function.comp_def]

/-! ## The filter of all parameters -/

/-- The clauses of `ofParams` are the `block`s of the filter keys, one behind
the other. -/
theorem clauses_eq_flatMap_block (params : Params) :
    (ofParams params).clauses = params.filters.flatMap fun entry => block entry.1 entry.2 := by
  simp [ofParams, ofArgument_eq_block]

/-- Every operand of a filter is what some text spells. All that
`clauses_ofParams` says about operands follows from it. -/
theorem exists_ofText_of_mem {params : Params} {clause : Clause}
    (hclause : clause ∈ (ofParams params).clauses) {operand : Operand}
    (hoperand : operand ∈ clause.test.operands) : ∃ text, operand = .ofText text := by
  rw [clauses_eq_flatMap_block] at hclause
  obtain ⟨entry, _, hblock⟩ := List.mem_flatMap.mp hclause
  exact exists_ofText_of_mem_block hblock hoperand

theorem length_clauses (params : Params) :
    (ofParams params).clauses.length =
      (params.filters.map fun entry => blockLength entry.1 entry.2).sum := by
  simp only [clauses_eq_flatMap_block, List.length_flatMap, length_block]

/-- The connective is `or` if the query says so, letter by letter, and `and` if
it says anything else or nothing. -/
theorem connective_ofParams (params : Params) :
    (ofParams params).connective =
      if params.control? .connective = some "or" then .or else .and := by
  rw [ofParams, Connective.ofControl]
  cases params.control? .connective with
  | none => rfl
  | some word =>
    -- the word `and` asks for what is the default anyway
    show (Connective.ofName? word).getD .and = _
    unfold Connective.ofName?
    split
    · next hand =>
      rw [hand]
      rfl
    · split
      · next hor =>
        rw [hor]
        rfl
      · next hor =>
        have hsome : some word ≠ some "or" := fun heq => hor (Option.some.inj heq)
        rw [if_neg hsome]
        rfl

/-- `connective?` of a filter without clauses shows none, also where the query
asks for one, as there is nothing to join. -/
theorem connective?_ofParams (params : Params) :
    (ofParams params).connective? =
      if (ofParams params).clauses = [] then none
      else some (if params.control? .connective = some "or" then .or else .and) := by
  simp only [connective?, isEmpty, List.isEmpty_iff, connective_ofParams]

/-- **The clauses of a filter are the `block`s of the filter keys, in the order
of the keys.** Each of them is on the path of its key, and its operands are
nulls, instants and texts that spell nothing else. -/
theorem clauses_ofParams (params : Params) :
    (ofParams params).clauses =
        (params.entries.filter fun entry => !Params.isReserved entry.1).flatMap
          (fun entry => block entry.1 entry.2) ∧
      (∀ key argument, ∀ clause ∈ block key argument, clause.field = (Target.ofKey key).path) ∧
      (ofParams params).clauses.length =
        ((params.entries.filter fun entry => !Params.isReserved entry.1).map
          fun entry => blockLength entry.1 entry.2).sum ∧
      (∀ clause ∈ (ofParams params).clauses, ∀ value ∈ clause.test.operands,
        (value = .null ∨ (∃ moment, value = .instant moment) ∨ ∃ string, value = .text string) ∧
          value.recognize = value) ∧
      (∀ key argument, (Target.ofKey key).operator = .isIn →
        ∃ values, (operand key argument).recognize = .list values) ∧
      (ofParams params).connective? =
        if (ofParams params).clauses = [] then none
        else some (if params.control? .connective = some "or" then .or else .and) := by
  refine ⟨clauses_eq_flatMap_block params, fun key argument clause => field_of_mem_block,
    length_clauses params, ?_, ?_, connective?_ofParams params⟩
  · -- an operand is what some text spells, and there are three such values
    intro clause hclause value hvalue
    obtain ⟨text, rfl⟩ := exists_ofText_of_mem hclause hvalue
    refine ⟨?_, Operand.recognize_ofText text⟩
    rcases Operand.ofText_cases text with h | ⟨moment, _, h⟩ | ⟨_, h⟩
    · exact .inl h
    · exact .inr (.inl ⟨moment, h⟩)
    · exact .inr (.inr ⟨text, h⟩)
  · intro key argument hoperator
    exact ⟨argument.listed.map .ofText, recognize_operand argument hoperator⟩

end Filter

end ListQuery
