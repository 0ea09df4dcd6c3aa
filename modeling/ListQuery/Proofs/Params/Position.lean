import ListQuery.Proofs.Params.Fault
import ListQuery.Proofs.Text.Utf8.Pattern

/-!
# Where a key or a value goes wrong

A key or a value of a query text is read when the bytes that it stands for
encode a text. **`decodePart_firstFault`** — when they do not, the fault that is
reported is the first one in them, and there always is one; nothing but the
encoding of the text itself can be read as it.
-/

namespace ListQuery.Params.QueryText

open Text.Percent (StandsFor)
open Text.Utf8 (encode WellFormed FirstFault Pattern Forbidden)

/-- `decodePart` reads a part as a text exactly if its bytes are `encode` of
that text. What an overlong form would mean does not come up. -/
theorem decodePart_eq_ok_iff {part : List Char} {bs : List UInt8} (h : StandsFor part bs)
    {text : String} : decodePart part = .ok text ↔ bs = encode text.toList := by
  have hdecode : Text.Percent.decode part = Text.Utf8.decode bs := by
    rw [Text.Percent.decode, Text.Percent.standsFor_iff.mp h]
  rw [decodePart, hdecode, ← Text.Utf8.decode_eq_ok_iff]
  cases Text.Utf8.decode bs with
  | error fault => simp
  | ok chars =>
    simp only [Except.ok.injEq]
    constructor
    · rintro rfl
      rw [String.toList_ofList]
    · rintro rfl
      rw [String.ofList_toList]

/-- **Where a part goes wrong.** A part `StandsFor` bytes, and `decodePart`
reads it as the text that these are the encoding of. If there is no such text,
the fault that is reported is the `FirstFault` of the bytes, and this is never
longer than three bytes. Neither a number in more bytes than it needs nor one
that no character has is ever read (`Forbidden`). -/
theorem decodePart_firstFault (part : List Char) :
    ∃ bs, (∀ other, StandsFor part other ↔ other = bs) ∧
      (∀ text : String, decodePart part = .ok text ↔ bs = encode text.toList) ∧
      ((∃ error, decodePart part = .error error) ↔ ¬ WellFormed bs) ∧
      (∀ error, decodePart part = .error error ↔
        ∃ fault, FirstFault bs fault ∧ error = .badEncoding (String.ofList part) fault) ∧
      (∀ length index, FirstFault bs (.invalid length index) → 1 ≤ length ∧ length ≤ 3) ∧
      ∀ front n bytes back, Pattern n bytes → Forbidden n bytes.length →
        bs = encode front ++ bytes ++ back → ∃ error, decodePart part = .error error := by
  obtain ⟨bs, hbs⟩ := Text.Percent.exists_standsFor part
  have hunique : ∀ other, StandsFor part other ↔ other = bs := by
    intro other
    rw [Text.Percent.standsFor_iff, ← Text.Percent.standsFor_iff.mp hbs, eq_comm]
  have herror : ∀ error, decodePart part = .error error ↔
      ∃ fault, FirstFault bs fault ∧ error = .badEncoding (String.ofList part) fault := by
    intro error
    simp only [decodePart_eq_error_iff, hunique, exists_and_left, exists_eq_left,
      Text.Utf8.decode_eq_error_iff]
  have hfails : (∃ error, decodePart part = .error error) ↔ ¬ WellFormed bs := by
    simp only [herror, Text.Utf8.not_wellFormed_iff, Text.Utf8.decode_eq_error_iff]
    exact ⟨fun ⟨_, fault, hfault, _⟩ => ⟨fault, hfault⟩,
      fun ⟨fault, hfault⟩ => ⟨_, fault, hfault, rfl⟩⟩
  refine ⟨bs, hunique, fun text => decodePart_eq_ok_iff hbs, hfails, herror, ?_, ?_⟩
  · -- what begins a character without finishing it has three bytes at most
    intro length index hfault
    cases hfault with
    | invalid _ _ hlongest =>
      have := Text.Utf8.le_three_of_mem_begunFronts hlongest.1
      omega
  · rintro front n bytes back hpattern hn rfl
    exact hfails.mpr (Text.Utf8.not_wellFormed_of_forbidden hpattern hn front back)

/-- The third byte does not go on with what the first two begin. At the end it
is not missed. -/
example :
    decodePart "a%F0%9F😀%F0%9F".toList =
      .error (.badEncoding "a%F0%9F😀%F0%9F" (.invalid 2 1)) ∧
    decodePart "aé%F0%9F%98".toList = .error (.badEncoding "aé%F0%9F%98" (.incomplete 3)) := by
  decide +kernel

end ListQuery.Params.QueryText
