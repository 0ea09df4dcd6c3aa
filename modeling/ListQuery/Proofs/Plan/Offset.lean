import ListQuery.Plan.Offset
import ListQuery.Proofs.Number.Grammar
import ListQuery.Proofs.Operand.Normal
import ListQuery.Proofs.SortKey
import ListQuery.Proofs.Timestamp.Offset
import ListQuery.Proofs.Traversal

/-!
# Plans by offsets

The program that finds the parts of texts by their offsets makes the plan and
never stops. Part by part it does what the plan does with characters.

* **`radixPrefix?_eq_some_iff`** — the prefix of a numeral is its first two
  bytes, and these are two characters.
* **`SortKey.directedByOffset_eq`** — a part is cut at the last white space in
  it.
* **`Operand.ofTextByOffset_eq`**, **`Operand.recognizeM_pure`** — texts are
  searched for timestamps, and a program that spells them as the operand does
  recognizes it, by induction.
* **`Plan.ofParamsByOffset_eq`** — the plan that this makes is the plan.
* **`Plan.ofParamsByOffset_boundaries`** — the headline: every offset in use is
  one where the text can be cut.
-/

namespace ListQuery

open Text Calendar
open Utf8 (encode)

/-! ## Numerals -/

namespace Number

namespace Radix

/-- The small letter that announces a base. -/
def small : Radix → Char
  | .hexadecimal => 'x'
  | .octal => 'o'
  | .binary => 'b'

variable {front : List Char} {base : Radix} {letter : Char}

/-- The `letters` of a base are those whose small letter is `small`, and the
bases have different ones. -/
theorem mem_letters_iff : letter ∈ base.letters ↔ letter.toLower = base.small := by
  have hlower : (base.letters.all fun letter => letter.toLower = base.small) = true := by
    cases base <;> decide
  have hcases : base.small ∈ base.letters ∧ base.small.toUpper ∈ base.letters := by
    cases base <;> decide
  refine ⟨fun h => of_decide_eq_true (List.all_eq_true.mp hlower letter h), fun h => ?_⟩
  rcases eq_toLower_or letter with hletter | hletter
  · rw [hletter, h]
    exact hcases.1
  · rw [hletter, h]
    exact hcases.2

/-- `ofPrefix?` reads a prefix as it reads it in small letters. -/
theorem ofPrefix?_eq_some_iff_small :
    ofPrefix? front = some base ↔ front.map Char.toLower = ['0', base.small] := by
  simp only [ofPrefix?]
  split
  · next h =>
    rw [h]
    cases base <;> decide
  split
  · next h =>
    rw [h]
    cases base <;> decide
  split
  · next h =>
    rw [h]
    cases base <;> decide
  · next hx ho hb =>
    refine iff_of_false (by simp) ?_
    cases base
    · exact hx
    · exact ho
    · exact hb

/-- `ofPrefix?` announces a base for a zero and one of its `letters`, and for
nothing else. -/
theorem ofPrefix?_eq_some_iff :
    ofPrefix? front = some base ↔ ∃ letter, front = ['0', letter] ∧ letter ∈ base.letters := by
  rw [ofPrefix?_eq_some_iff_small]
  constructor
  · intro h
    obtain ⟨zero, rest, rfl, hzero, hrest⟩ := List.map_eq_cons_iff.mp h
    obtain ⟨letter, rest, rfl, hletter, hnil⟩ := List.map_eq_cons_iff.mp hrest
    obtain rfl := List.map_eq_nil_iff.mp hnil
    -- a zero has no case
    have hsame : zero = '0' := by
      rcases eq_toLower_or zero with hsame | hsame
      · rw [hsame, hzero]
      · rw [hsame, hzero]
        decide
    exact ⟨letter, by rw [hsame], mem_letters_iff.mpr hletter⟩
  · rintro ⟨letter, rfl, hletter⟩
    rw [List.map_cons, List.map_singleton, mem_letters_iff.mp hletter]
    rfl

/-- A prefix that announces a base has a `byteLength` of two, since its letter
is one of ASCII. -/
theorem byteLength_of_mem_letters (h : letter ∈ base.letters) : byteLength ['0', letter] = 2 := by
  have hall : (base.letters.all fun letter => byteLength ['0', letter] = 2) = true := by
    cases base <;> decide
  exact of_decide_eq_true (List.all_eq_true.mp hall letter h)

end Radix

namespace Numeral

/-- `radixPrefix?` announces by the first two bytes the base that the first two
characters announce. Where these bytes are not two characters they announce
none. -/
theorem radixPrefix?_eq_some_iff {text : List Char} {base : Radix} :
    radixPrefix? text = some base ↔
      ∃ letter digits, text = '0' :: letter :: digits ∧ letter ∈ base.letters := by
  rw [radixPrefix?, Option.bind_eq_some_iff]
  simp only [slice?_eq_some_iff, Radix.ofPrefix?_eq_some_iff]
  constructor
  · rintro ⟨_, ⟨front, digits, rfl, hfront, -⟩, letter, rfl, hletter⟩
    rw [eq_nil_of_byteLength hfront]
    exact ⟨letter, digits, rfl, hletter⟩
  · rintro ⟨letter, digits, rfl, hletter⟩
    have hfront := Radix.byteLength_of_mem_letters hletter
    exact ⟨['0', letter], ⟨[], digits, rfl, rfl, hfront⟩, letter, rfl, hletter⟩

theorem readByOffset_eq (text : List Char) : readByOffset text = .ok (read? text) := by
  rw [readByOffset]
  cases hbase : radixPrefix? text with
  | some base =>
    -- behind the prefix the text can be cut, since the prefix was cut out of it
    obtain ⟨letter, digits, rfl, hletter⟩ := radixPrefix?_eq_some_iff.mp hbase
    have hdigits := slice_back ['0', letter] digits
    rw [Radix.byteLength_of_mem_letters hletter] at hdigits
    simp only [read?, Radix.ofLetter?_eq_some_iff.mpr hletter]
    exact congrArg (Except.map (radixDigits? base)) hdigits
  | none =>
    show Except.ok (signed? text) = _
    unfold read?
    split
    · next letter digits =>
      cases hletter : Radix.ofLetter? letter with
      | none => rfl
      | some base =>
        have hletter := Radix.ofLetter?_eq_some_iff.mp hletter
        rw [radixPrefix?_eq_some_iff.mpr ⟨letter, digits, rfl, hletter⟩] at hbase
        cases hbase
    · rfl

end Numeral

end Number

/-! ## Sort keys -/

namespace SortKey

variable {part : List Char}

/-- `directedByOffset` cuts a part at the offset of its last white space, which
is where `directed?` cuts it. What is cut off starts with the white space, which
is trimmed away. -/
theorem directedByOffset_eq (part : List Char) : directedByOffset part = .ok (directed? part) := by
  rw [directedByOffset, directed?, lastOffset?_eq]
  cases hcut : splitLast isSpace part with
  | none => rfl
  | some halves =>
    obtain ⟨front, word⟩ := halves
    obtain ⟨c, hc, rfl, hword⟩ := eq_append_of_splitLast hcut
    -- the white space goes with the word, which starts behind it
    have htrim : trimStart ([c] ++ word) = word :=
      trimStart_append (by simpa using hc) fun x hx => hword x (List.mem_of_mem_head? hx)
    simp only [Option.map_some, cut_append]
    show Except.ok ((Direction.ofWord? (trimStart ([c] ++ word))).map _) = _
    rw [htrim]
    show _ = Except.ok ((Direction.ofWord? word).bind _)
    cases Direction.ofWord? word <;> rfl

theorem ofPartByOffset_eq (part : List Char) : ofPartByOffset part = .ok (ofPart part) := by
  rw [ofPartByOffset, directedByOffset_eq]
  rfl

/-- White space in a `Trimmed` part does not stand at its start, so what is in
front of it is something. -/
theorem lastOffset?_pos {offset : Nat} (hpart : Trimmed part)
    (h : lastOffset? isSpace part = some offset) : 0 < offset := by
  rw [lastOffset?_eq] at h
  obtain ⟨⟨front, back⟩, hcut, rfl⟩ := Option.map_eq_some_iff.mp h
  obtain ⟨c, hc, rfl, -⟩ := eq_append_of_splitLast hcut
  refine Nat.pos_of_ne_zero fun hzero => trim_ne_nil_of_trimmed hpart hc ?_
  have hnil : front = [] := eq_nil_of_byteLength hzero
  rw [hnil]
  rfl

theorem field_ne_empty_of_directed? {key : SortKey} (hpart : Trimmed part)
    (h : directed? part = some key) : key.field ≠ "" := by
  obtain ⟨front, c, word, rfl, hc, -, hfield⟩ := directed?_eq_some_iff.mp h
  rw [hfield]
  exact fun hempty => trim_ne_nil_of_trimmed hpart hc (String.ofList_eq_empty_iff.mp hempty)

theorem ofParamsByOffset_eq (params : Params) :
    ofParamsByOffset params = .ok (ofParams params) := by
  rw [ofParamsByOffset, ofParams, listed?_eq_map ofPart]
  cases listed? id (params.control? .sort) with
  | none => rfl
  | some parts =>
    have hparts : parts.mapM ofPartByOffset = .ok (parts.map ofPart) :=
      mapM_eq_ok_map fun part _ => ofPartByOffset_eq part
    show some <$> parts.mapM ofPartByOffset = _
    rw [hparts]
    rfl

end SortKey

/-! ## Operands and clauses -/

namespace Operand

variable (years : Years)

/-- `ofTextByOffset` spells a text as `ofText` does, with its timestamp found
among the bytes, in a calendar with any years. -/
theorem ofTextByOffset_eq (string : String) :
    ofTextByOffset years string = .ok (ofText string) := by
  rw [ofTextByOffset, ofText, Timestamp.readByOffset_eq]
  split
  · rfl
  · cases Timestamp.read string.toList <;> rfl

/-- `recognizeM` with a program that has no effect is `recognize`. Induction on
the operand, a list after its items. -/
theorem recognizeM_pure {m : Type → Type} [Monad m] [LawfulMonad m] (operand : Operand) :
    operand.recognizeM (fun string => (pure (ofText string) : m Operand)) =
      pure operand.recognize := by
  induction operand using induction with
  | null => rfl
  | instant moment => rfl
  | number value => rfl
  | text string => rfl
  | list items ih =>
    have hall : recognizeAllM (fun string => (pure (ofText string) : m Operand)) items =
        pure (recognizeAll items) := by
      induction items with
      | nil => rfl
      | cons item rest ihrest =>
        obtain ⟨hitem, hrest⟩ := List.forall_mem_cons.mp ih
        rw [recognizeAllM, hitem, ihrest hrest, pure_bind, pure_bind]
        rfl
    rw [recognizeM, hall, map_pure, recognize]

theorem ofTextByOffset_eq_pure : ofTextByOffset years = fun string => pure (ofText string) :=
  funext (ofTextByOffset_eq years)

end Operand

namespace Filter

theorem ofParamsByOffset_eq (years : Years) (params : Params) :
    ofParamsByOffset years params = .ok (ofParams params) := by
  rw [ofParamsByOffset, ofParamsM, Operand.ofTextByOffset_eq_pure]
  simp only [Operand.recognizeM_pure, pure_bind, List.mapM_pure]
  rfl

end Filter

/-! ## Windows -/

namespace Window

theorem readByOffset_eq (given : Option String) : readByOffset given = .ok (read given) := by
  cases given with
  | none => rfl
  | some string =>
    simp only [readByOffset, read, Number.Numeral.readByOffset_eq]
    split
    · rfl
    · cases Number.Numeral.read? (trim string.toList) <;> rfl

theorem ofParamsByOffset_eq (defaults : Defaults) (params : Params) :
    ofParamsByOffset defaults params = .ok (ofParams defaults params) := by
  simp only [ofParamsByOffset, ofParamsM, readByOffset_eq]
  unfold ofParams
  split <;> rfl

end Window

/-! ## Plans -/

namespace Plan

/-- Nothing stops the program, and it makes the plan. -/
theorem ofParamsByOffset_eq (years : Years) (defaults : Defaults) (params : Params) :
    ofParamsByOffset years defaults params = .ok (ofParams defaults params) := by
  rw [ofParamsByOffset, Window.ofParamsByOffset_eq, Filter.ofParamsByOffset_eq,
    SortKey.ofParamsByOffset_eq]
  rfl

/-- **No offset leaves the places where a text can be cut.** The window that
`position?` finds among the bytes of a text is the leftmost timestamp in it, and
there is one whenever there is a timestamp. A numeral in another base has its
digits behind two bytes. A part with a direction is cut within it, so that a
field is left. All fields of a window are numbers, and no day is counted from
before the first one. So nothing stops `ofParamsByOffset`. -/
theorem ofParamsByOffset_boundaries (years : Years) :
    (∀ text start, Timestamp.position? (encode text) = some start →
      IsBoundary text start ∧ IsBoundary text (start + 24) ∧
        ∃ t, Timestamp.IsLeftmostAt t text start ∧ slice? text start (start + 24) = some t.text ∧
          Timestamp.find? text = some t) ∧
    (∀ text, Timestamp.position? (encode text) = none ↔
      ∀ window, Timestamp.HasShape window → ¬ window <:+: text) ∧
    (∀ text base, Number.Numeral.radixPrefix? text = some base → IsBoundary text 2) ∧
    (∀ part offset, lastOffset? isSpace (trim part) = some offset →
      IsBoundary (trim part) offset ∧ 0 < offset ∧ offset < byteLength (trim part)) ∧
    (∀ part key, SortKey.directedByOffset (trim part) = .ok (some key) → key.field ≠ "") ∧
    (∀ window, Timestamp.HasShape window →
      ∃ t : Timestamp, t.text = window ∧ Timestamp.fields? window = some t ∧
        (t.InRange → 1 ≤ t.day) ∧
        Timestamp.parse years window = .ok (if t.InRange then some t.instant else none)) ∧
    ∀ defaults params, ofParamsByOffset years defaults params = .ok (ofParams defaults params) := by
  refine ⟨?_, ?_, ?_, ?_, ?_, ?_, ofParamsByOffset_eq years⟩
  · -- the windows among the bytes
    intro text start h
    obtain ⟨t, ht⟩ := Timestamp.position?_eq_some_iff.mp h
    obtain ⟨hstart, hstop⟩ := isBoundary_of_slice? ht.slice?
    exact ⟨hstart, hstop, t, ht, ht.slice?, Timestamp.find?_eq_some_iff.mpr ht.isLeftmost⟩
  · intro text
    rw [Timestamp.position?_eq_none_iff, Timestamp.find?_eq_none_iff]
  · -- the prefix of a numeral
    intro text base h
    obtain ⟨front, hfront, -⟩ := Option.bind_eq_some_iff.mp h
    exact (isBoundary_of_slice? hfront).2
  · -- the direction behind a sort key
    intro part offset h
    obtain ⟨hboundary, hlt⟩ := lastOffset?_bounds h
    exact ⟨hboundary, SortKey.lastOffset?_pos (trimmed_trim part) h, hlt⟩
  · intro part key h
    rw [SortKey.directedByOffset_eq] at h
    exact SortKey.field_ne_empty_of_directed? (trimmed_trim part) (Except.ok.inj h)
  · -- the fields of a window
    intro window hwindow
    obtain ⟨t, hfits, rfl⟩ := Timestamp.hasShape_iff.mp hwindow
    have hday : t.InRange → 1 ≤ t.day := fun hrange => hrange.2.1.1
    exact ⟨t, rfl, Timestamp.fields?_text hfits, hday, Timestamp.parse_text years hfits⟩

/-- Behind two characters, the timestamp stands behind six bytes. White space
may have three. -/
example : Timestamp.position? (encode "é😀2017-08-22T20:33:32.780Z".toList) = some 6 ∧
    SortKey.directedByOffset "é\u3000desc".toList = .ok (some ⟨"é", .descending⟩) := by
  decide +kernel

end Plan

end ListQuery
