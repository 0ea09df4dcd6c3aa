import ListQuery.Operand
import ListQuery.Proofs.Timestamp.Leftmost
import ListQuery.Proofs.Timestamp.Value

/-!
# What a text spells

A text is typed by what it is as a whole, if this is null, and else by the
leftmost timestamp in it.

* **`recognize_text_of_isLeftmost`** — the fields of this timestamp alone
  decide: in range they give an instant, and out of range the text, whatever
  stands behind them.
* **`recognize_text`** — the headline: all texts there are.
-/

namespace ListQuery

open Timestamp (HasShape IsLeftmost)

namespace Operand

theorem recognize_text_ne_null {string : String} (h : string ≠ "null") :
    (Operand.text string).recognize ≠ .null := by
  rw [recognize, ofText, if_neg h]
  cases Timestamp.read string.toList <;> nofun

/-- `recognize` leaves a text as it is in which `find?` finds no timestamp,
unless it is `null`. A text with something less than a timestamp in it is such a
one. -/
theorem recognize_text_of_find?_eq_none {string : String}
    (h : Timestamp.find? string.toList = none) (hnull : string ≠ "null") :
    (Operand.text string).recognize = .text string := by
  rw [recognize, ofText, if_neg hnull, Timestamp.read, h]
  rfl

theorem ne_null_of_isLeftmost {string : String} {t : Timestamp}
    (h : t.IsLeftmost string.toList) : string ≠ "null" := by
  rintro rfl
  -- no timestamp is that short
  have hnone : Timestamp.find? "null".toList = none := by decide
  exact absurd (hnone.symm.trans (Timestamp.find?_eq_some_iff.mpr h)) (by nofun)

/-- The fields of the timestamp that `IsLeftmost` decide what a text spells.
What stands behind it does not count, not even another timestamp. -/
theorem recognize_text_of_isLeftmost {string : String} {t : Timestamp}
    (h : t.IsLeftmost string.toList) :
    (Operand.text string).recognize = if t.InRange then .instant t.instant else .text string := by
  rw [recognize, ofText, if_neg (ne_null_of_isLeftmost h), Timestamp.read,
    Timestamp.find?_eq_some_iff.mpr h]
  by_cases hrange : t.InRange
  · simp only [if_pos hrange, ofReading]
  · simp only [if_neg hrange, ofReading]

/-- **What a text spells.** `recognize` gives null for that word. If anything
that `HasShape` stands in the text, it gives the instant that the leftmost
timestamp names, or the text itself if the fields of this one are out of range.
Every other text spells itself. -/
theorem recognize_text (string : String) :
    ((Operand.text string).recognize = .null ↔ string = "null") ∧
    (string ≠ "null" → (∀ window, HasShape window → ¬ window <:+: string.toList) →
      (Operand.text string).recognize = .text string) ∧
    (∀ window, HasShape window → window <:+: string.toList →
      ∃! t : Timestamp, t.IsLeftmost string.toList) ∧
    ∀ t : Timestamp, t.IsLeftmost string.toList →
      (t.InRange → ∃ moment, (Operand.text string).recognize = .instant moment ∧ t.Names moment) ∧
      (¬ t.InRange → (Operand.text string).recognize = .text string) := by
  refine ⟨⟨fun h => ?_, ?_⟩, fun hnull hnone => ?_, fun window hwindow hwithin => ?_,
    fun t ht => ⟨fun hrange => ?_, fun hrange => ?_⟩⟩
  · by_contra hnull
    exact recognize_text_ne_null hnull h
  · rintro rfl
    rfl
  · exact recognize_text_of_find?_eq_none (Timestamp.find?_eq_none_iff.mpr hnone) hnull
  · exact Timestamp.existsUnique_isLeftmost hwindow hwithin
  · refine ⟨t.instant, ?_, Timestamp.names_instant ht.1 hrange⟩
    rw [recognize_text_of_isLeftmost ht, if_pos hrange]
  · rw [recognize_text_of_isLeftmost ht, if_neg hrange]

end Operand

end ListQuery
