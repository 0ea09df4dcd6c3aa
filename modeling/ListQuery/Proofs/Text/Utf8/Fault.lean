import Mathlib.Order.Bounds.Basic
import ListQuery.Proofs.Text.Utf8.WellFormed
import ListQuery.Proofs.Traversal

/-!
# The first fault in UTF-8

What is wrong with bytes that encode no text, said without reading them one
after the other: where the longest text in front of them ends, and how much of a
character stands behind it (`FirstFault`).

* **`begins_cons_iff`** — bytes that begin a character are a leading byte and
  bytes in the first of the ranges that it asks for, but not in all of them. No
  range is empty, so what is begun can be finished.
* **`decodeFrom_of_stuck`** — the crux: where no character stands, reading
  stops, and how it does tells how much of one is there.
* **`isGreatest_textFronts`** — the longest text in front ends where no
  character stands.
* **`decode_eq_error_iff`** — all of it together: every byte that is no text has
  one first fault, and this is the one that is found.
-/

namespace ListQuery.Text.Utf8

/-! ## Characters that are begun -/

/-- `Begins bytes` says that the bytes stand at the start of a character,
without being all of it. No bytes at all do so. -/
def Begins (bytes : List UInt8) : Prop :=
  ∃ c, bytes <+: String.utf8EncodeChar c ∧ bytes ≠ String.utf8EncodeChar c

theorem begins_nil : Begins [] := ⟨'a', List.nil_prefix, by decide⟩

/-- `FallsShort ranges bytes` says that the bytes lie, one by one, in the first
of the ranges, with at least one range left. So they are what is there of a
character that is cut short. -/
inductive FallsShort : List ByteRange → List UInt8 → Prop where
  | nil {range : ByteRange} {ranges : List ByteRange} : FallsShort (range :: ranges) []
  | cons {range : ByteRange} {byte : UInt8} {ranges : List ByteRange} {bytes : List UInt8}
      (hbyte : range.contains byte = true) (h : FallsShort ranges bytes) :
      FallsShort (range :: ranges) (byte :: bytes)

/-- `Breaks ranges bytes n` says that `n` bytes lie, one by one, in the first of
the ranges, and that the byte behind them does not lie in the next one. -/
inductive Breaks : List ByteRange → List UInt8 → Nat → Prop where
  | here {range : ByteRange} {byte : UInt8} {ranges : List ByteRange} {bytes : List UInt8}
      (hbyte : range.contains byte = false) : Breaks (range :: ranges) (byte :: bytes) 0
  | later {range : ByteRange} {byte : UInt8} {ranges : List ByteRange} {bytes : List UInt8}
      {n : Nat} (hbyte : range.contains byte = true) (h : Breaks ranges bytes n) :
      Breaks (range :: ranges) (byte :: bytes) (n + 1)

variable {byte : UInt8} {bytes rest : List UInt8} {ranges : List ByteRange} {text : List Char}

/-- Bytes begin with some that `Fits` the ranges, or `FallsShort` of them, or
`Breaks` off. Induction on the ranges. -/
theorem fits_or_fallsShort_or_breaks (ranges : List ByteRange) (bytes : List UInt8) :
    (∃ read rest, bytes = read ++ rest ∧ Fits ranges read) ∨ FallsShort ranges bytes ∨
      ∃ n, Breaks ranges bytes n := by
  induction ranges generalizing bytes with
  | nil => exact .inl ⟨[], bytes, rfl, .nil⟩
  | cons range ranges ih =>
    cases bytes with
    | nil => exact .inr (.inl .nil)
    | cons byte bytes =>
      cases hbyte : range.contains byte with
      | false => exact .inr (.inr ⟨0, .here hbyte⟩)
      | true =>
        obtain ⟨read, rest, rfl, hfits⟩ | hshort | ⟨n, hbreaks⟩ := ih bytes
        · exact .inl ⟨byte :: read, rest, rfl, .cons hbyte hfits⟩
        · exact .inr (.inl (.cons hbyte hshort))
        · exact .inr (.inr ⟨n + 1, .later hbyte hbreaks⟩)

/-- Bytes in front of some that `Fits` the ranges fall short of them, if they
are not all of these. Induction along the bytes that fit. -/
theorem Fits.fallsShort {whole : List UInt8} (h : Fits ranges whole) (hfront : bytes <+: whole)
    (hne : bytes ≠ whole) : FallsShort ranges bytes := by
  induction h generalizing bytes with
  | nil => exact absurd (List.prefix_nil.mp hfront) hne
  | @cons range byte ranges whole hbyte _ ih =>
    cases bytes with
    | nil => exact .nil
    | cons first bytes =>
      obtain ⟨rfl, hbytes⟩ := List.cons_prefix_cons.mp hfront
      exact .cons hbyte (ih hbytes fun heq => hne (heq ▸ rfl))

/-- Where no range is empty, bytes that fall short can be completed so that they
`Fits`. Induction along the bytes; any byte will do for each range that is
left. -/
theorem FallsShort.exists_fits (h : FallsShort ranges bytes)
    (hranges : ∀ range ∈ ranges, ∃ byte, range.contains byte = true) :
    ∃ rest, rest ≠ [] ∧ Fits ranges (bytes ++ rest) := by
  have hall : ∀ ranges : List ByteRange, (∀ range ∈ ranges, ∃ byte, range.contains byte = true) →
      ∃ bytes, Fits ranges bytes := by
    intro ranges hranges
    induction ranges with
    | nil => exact ⟨[], .nil⟩
    | cons range ranges ih =>
      obtain ⟨⟨byte, hbyte⟩, hrest⟩ := List.forall_mem_cons.mp hranges
      obtain ⟨bytes, hbytes⟩ := ih hrest
      exact ⟨byte :: bytes, .cons hbyte hbytes⟩
  induction h with
  | @nil range ranges =>
    obtain ⟨bytes, hbytes⟩ := hall (range :: ranges) hranges
    refine ⟨bytes, ?_, hbytes⟩
    rintro rfl
    cases hbytes
  | cons hbyte _ ih =>
    obtain ⟨rest, hne, hfits⟩ := ih (List.forall_mem_cons.mp hranges).2
    exact ⟨rest, hne, .cons hbyte hfits⟩

/-- No range in the table `lead?` is empty: each holds its own first byte. The
table is looked through for all 256 leading bytes. -/
theorem exists_contains_of_lead? {start : Nat} (h : lead? byte = some (start, ranges)) :
    ∀ range ∈ ranges, ∃ next, range.contains next = true := by
  have hall : ∀ n < 256, ∀ entry ∈ lead? (UInt8.ofNat n), ∀ range ∈ entry.2,
      range.contains (UInt8.ofNat range.first) = true := by
    decide +kernel
  intro range hrange
  refine ⟨_, hall byte.toNat byte.toNat_lt (start, ranges) ?_ range hrange⟩
  rw [UInt8.ofNat_toNat, h]
  exact rfl

/-- Bytes `Begins` a character exactly if they are a leading byte and bytes that
`FallsShort` of the ranges which it asks for. What falls short can be completed
to a character, as no range is empty. -/
theorem begins_cons_iff :
    Begins (byte :: bytes) ↔ ∃ start ranges, lead? byte = some (start, ranges) ∧
      FallsShort ranges bytes := by
  constructor
  · rintro ⟨c, hfront, hne⟩
    obtain ⟨first, others, start, ranges, hbytes, hlead, hfits, -⟩ := fits_utf8EncodeChar c
    rw [hbytes] at hfront hne
    obtain ⟨rfl, hothers⟩ := List.cons_prefix_cons.mp hfront
    exact ⟨start, ranges, hlead, hfits.fallsShort hothers fun heq => hne (heq ▸ rfl)⟩
  · rintro ⟨start, ranges, hlead, hshort⟩
    obtain ⟨rest, hne, hfits⟩ := hshort.exists_fits (exists_contains_of_lead? hlead)
    obtain ⟨c, hc⟩ := exists_utf8EncodeChar (leads_of_lead? hlead) hfits
    refine ⟨c, ⟨rest, by rw [hc]; rfl⟩, fun heq => ?_⟩
    rw [hc, List.cons.injEq, List.self_eq_append_right] at heq
    exact hne heq.2

theorem Breaks.lt_length {n : Nat} (h : Breaks ranges bytes n) : n < bytes.length := by
  induction h with
  | here => simp
  | later _ _ ih => simpa using ih

/-- Of bytes that `Breaks` off behind `n`, up to `n` of them fall short of the
ranges, and no more. Induction along the bytes up to the break. -/
theorem Breaks.fallsShort_take_iff {n m : Nat} (h : Breaks ranges bytes n) :
    FallsShort ranges (bytes.take m) ↔ m ≤ n := by
  induction h generalizing m with
  | @here range byte _ _ hbyte =>
    cases m with
    | zero => exact iff_of_true .nil (Nat.le_refl 0)
    | succ m =>
      refine iff_of_false (fun hshort => ?_) (Nat.not_succ_le_zero m)
      cases hshort with
      | cons hcontains _ => exact absurd (hbyte.symm.trans hcontains) (by decide)
  | later hbyte _ ih =>
    cases m with
    | zero => exact iff_of_true .nil (Nat.zero_le _)
    | succ m =>
      rw [List.take_succ_cons, Nat.succ_le_succ_iff, ← ih]
      constructor
      · rintro (_ | ⟨_, hshort⟩)
        exact hshort
      · exact .cons hbyte

/-! ## Faults -/

/-- The lengths of the fronts of the bytes that are `WellFormed`. -/
def textFronts (bytes : List UInt8) : Set Nat := {n | n ≤ bytes.length ∧ WellFormed (bytes.take n)}

/-- The lengths of the fronts of the bytes that `Begins` a character, without
being all of it. -/
def begunFronts (bytes : List UInt8) : Set Nat := {n | n ≤ bytes.length ∧ Begins (bytes.take n)}

/-- `FirstFault bytes fault` says that this is the first fault in the bytes. The
longest text in front ends at its index. Either the bytes end within the
character behind that, or this character is broken off, and then the bytes of it
count, or one byte if there are none. -/
inductive FirstFault (bytes : List UInt8) : Fault → Prop where
  | incomplete {index : Nat} (hindex : IsGreatest (textFronts bytes) index)
      (hne : bytes.drop index ≠ []) (hbegins : Begins (bytes.drop index)) :
      FirstFault bytes (.incomplete index)
  | invalid {index longest : Nat} (hindex : IsGreatest (textFronts bytes) index)
      (hbegins : ¬ Begins (bytes.drop index))
      (hlongest : IsGreatest (begunFronts (bytes.drop index)) longest) :
      FirstFault bytes (.invalid (max 1 longest) index)

/-- Bytes have one `FirstFault` at most: a set has one greatest number. -/
theorem FirstFault.unique {fault fault' : Fault} (h : FirstFault bytes fault)
    (h' : FirstFault bytes fault') : fault = fault' := by
  cases h with
  | incomplete hindex hne hbegins =>
    cases h' with
    | incomplete hindex' => rw [hindex.unique hindex']
    | invalid hindex' hbegins' => exact absurd (hindex.unique hindex' ▸ hbegins) hbegins'
  | invalid hindex hbegins hlongest =>
    cases h' with
    | incomplete hindex' _ hbegins' => exact absurd (hindex'.unique hindex ▸ hbegins') hbegins
    | invalid hindex' _ hlongest' =>
      obtain rfl := hindex.unique hindex'
      rw [hlongest.unique hlongest']

/-- Bytes that have a `FirstFault` are not `WellFormed`. -/
theorem FirstFault.not_wellFormed {fault : Fault} (h : FirstFault bytes fault) :
    ¬ WellFormed bytes := by
  intro hbytes
  -- all of the bytes would be the longest text in front, and nothing would stand behind them
  have hall : bytes.length ∈ textFronts bytes := ⟨Nat.le_refl _, by rwa [List.take_length]⟩
  have hdrop : ∀ {index}, IsGreatest (textFronts bytes) index → bytes.drop index = [] :=
    fun hindex => List.drop_eq_nil_of_le (hindex.2 hall)
  cases h with
  | incomplete hindex hne _ => exact hne (hdrop hindex)
  | invalid hindex hbegins _ => exact hbegins (hdrop hindex ▸ begins_nil)

/-- Only three bytes can be there of a character that is not finished, as
`Char.utf8Size` is four at most. -/
theorem le_three_of_mem_begunFronts {n : Nat} (h : n ∈ begunFronts bytes) : n ≤ 3 := by
  obtain ⟨hn, c, hfront, hne⟩ := h
  have hlt : (bytes.take n).length < (String.utf8EncodeChar c).length :=
    Nat.lt_of_le_of_ne hfront.length_le fun heq => hne (hfront.eq_of_length heq)
  rw [List.length_take_of_le hn, String.length_utf8EncodeChar] at hlt
  have := c.utf8Size_le_four
  omega

/-! ## Where reading stops -/

/-- `Stuck bytes` says that no character stands at the start of the bytes. -/
def Stuck (bytes : List UInt8) : Prop := ∀ c, ¬ String.utf8EncodeChar c <+: bytes

/-- Bytes are the encoding of a text and bytes behind it that are `Stuck`.
Characters are taken off as long as there are any, and each takes a byte at
least, so this comes to an end. -/
theorem exists_encode_append_stuck (bytes : List UInt8) :
    ∃ text rest, bytes = encode text ++ rest ∧ Stuck rest := by
  by_cases hstuck : Stuck bytes
  · exact ⟨[], bytes, rfl, hstuck⟩
  · simp only [Stuck, Classical.not_forall, Classical.not_not] at hstuck
    obtain ⟨c, rest, rfl⟩ := hstuck
    have hsize := c.utf8Size_pos
    have hlength := String.length_utf8EncodeChar c
    obtain ⟨text, rest, rfl, hrest⟩ := exists_encode_append_stuck rest
    exact ⟨c :: text, rest, by rw [encode_cons, List.append_assoc], hrest⟩
termination_by bytes.length
decreasing_by
  simp only [← ‹_ ++ rest = bytes›, List.length_append]
  omega

/-- `decodeFrom` reads the encoding of a text as that text, and goes on behind
it. Induction on the text. -/
theorem decodeFrom_encode_append (text : List Char) (rest : List UInt8) (index : Nat) :
    decodeFrom index none (encode text ++ rest) =
      (text ++ ·) <$> decodeFrom (index + (encode text).length) none rest := by
  induction text generalizing index with
  | nil =>
    show decodeFrom index none rest = (decodeFrom index none rest).map id
    rw [Except.map_id]
    rfl
  | cons c text ih =>
    rw [encode_cons, List.append_assoc, decodeFrom_utf8EncodeChar, ih, List.length_append,
      ← Nat.add_assoc]
    cases decodeFrom _ none rest <;> rfl

/-- `decodeFrom` finds a character that is begun `incomplete` where the bytes
fall short of the ranges that are due. Induction on the bytes. -/
theorem decodeFrom_of_fallsShort {count start index : Nat} {next : ByteRange}
    {later : List ByteRange} (h : FallsShort (next :: later) bytes) :
    decodeFrom index (some ⟨count, start, next, later⟩) bytes = .error (.incomplete index) := by
  induction bytes generalizing count start next later with
  | nil => rfl
  | cons byte bytes ih =>
    cases h with
    | cons hbyte h =>
      rw [decodeFrom, if_pos hbyte]
      cases later with
      | nil => cases h
      | cons range later => exact ih h

/-- `decodeFrom` finds a character that is begun `invalid` where the bytes break
off, and all bytes of it count, those read before included. Induction on the
bytes. -/
theorem decodeFrom_of_breaks {count start index n : Nat} {next : ByteRange} {later : List ByteRange}
    (h : Breaks (next :: later) bytes n) :
    decodeFrom index (some ⟨count, start, next, later⟩) bytes =
      .error (.invalid (count + n) index) := by
  induction bytes generalizing count start next later n with
  | nil => cases h
  | cons byte bytes ih =>
    cases h with
    | here hbyte => rw [decodeFrom, if_neg (by simp [hbyte]), Nat.add_zero]
    | @later _ _ _ _ n hbyte h =>
      rw [decodeFrom, if_pos hbyte, Nat.add_comm n 1, ← Nat.add_assoc]
      cases later with
      | nil => cases h
      | cons range later => exact ih h

/-- `decodeFrom` stops at once where the bytes are `Stuck`, if there are any:
`incomplete` where they begin a character, and else `invalid`, with the length
of the longest front that begins one. -/
theorem decodeFrom_of_stuck (h : Stuck rest) (hne : rest ≠ []) (index : Nat) :
    (Begins rest ∧ decodeFrom index none rest = .error (.incomplete index)) ∨
    ∃ longest, ¬ Begins rest ∧ IsGreatest (begunFronts rest) longest ∧
      decodeFrom index none rest = .error (.invalid (max 1 longest) index) := by
  obtain ⟨byte, bytes, rfl⟩ := List.exists_cons_of_ne_nil hne
  cases hlead : lead? byte with
  | none =>
    -- the first byte leads nothing, and it alone is the fault
    have hbegins : ∀ bytes, ¬ Begins (byte :: bytes) := by
      intro bytes hbegins
      obtain ⟨_, _, hsome, -⟩ := begins_cons_iff.mp hbegins
      exact absurd (hlead.symm.trans hsome) (by nofun)
    refine .inr ⟨0, hbegins bytes, ⟨⟨Nat.zero_le _, begins_nil⟩, ?_⟩, ?_⟩
    · rintro (_ | n) ⟨-, hn⟩
      · exact Nat.le_refl 0
      · exact absurd hn (hbegins _)
    · rw [decodeFrom, hlead]
      rfl
  | some lead =>
    obtain ⟨start, ranges⟩ := lead
    have hbegins : ∀ bytes, Begins (byte :: bytes) ↔ FallsShort ranges bytes := by
      intro bytes
      rw [begins_cons_iff, hlead]
      constructor
      · rintro ⟨_, _, heq, hshort⟩
        cases heq
        exact hshort
      · exact fun hshort => ⟨start, ranges, rfl, hshort⟩
    obtain ⟨read, others, rfl, hfits⟩ | hshort | ⟨n, hbreaks⟩ :=
      fits_or_fallsShort_or_breaks ranges bytes
    · -- a character would be finished, against the assumption
      obtain ⟨c, hc⟩ := exists_utf8EncodeChar (leads_of_lead? hlead) hfits
      exact absurd ⟨others, by rw [hc]; rfl⟩ (h c)
    · refine .inl ⟨(hbegins bytes).mpr hshort, ?_⟩
      rw [decodeFrom, hlead]
      cases ranges with
      | nil => cases hshort
      | cons next later => exact decodeFrom_of_fallsShort hshort
    · -- the leading byte and those up to the break are the most that is there of a character
      refine .inr ⟨n + 1, ?_, ⟨⟨?_, ?_⟩, ?_⟩, ?_⟩
      · rw [hbegins, ← List.take_length (l := bytes), hbreaks.fallsShort_take_iff, Nat.not_le]
        exact hbreaks.lt_length
      · exact Nat.succ_le_succ hbreaks.lt_length.le
      · rw [List.take_succ_cons, hbegins, hbreaks.fallsShort_take_iff]
      · rintro (_ | m) ⟨-, hm⟩
        · exact Nat.zero_le _
        · rw [List.take_succ_cons, hbegins, hbreaks.fallsShort_take_iff] at hm
          exact Nat.succ_le_succ hm
      · rw [decodeFrom, hlead, Nat.max_eq_right (Nat.le_add_left 1 n), Nat.add_comm n 1]
        cases ranges with
        | nil => cases hbreaks
        | cons next later => exact decodeFrom_of_breaks hbreaks

/-! ## The first fault -/

/-- What stands behind a text is `WellFormed` if all of it is. -/
theorem wellFormed_of_append (h : WellFormed (encode text ++ rest)) : WellFormed rest := by
  obtain ⟨all, hall⟩ := wellFormed_iff.mp h
  rw [decode, decodeFrom_encode_append] at hall
  cases hrest : decodeFrom (0 + (encode text).length) none rest with
  | error fault =>
    rw [hrest] at hall
    cases hall
  | ok tail => exact ⟨tail, eq_encode_of_decodeFrom hrest⟩

/-- The longest of `textFronts` ends where the bytes are `Stuck`: any longer one
would start with a character there. -/
theorem isGreatest_textFronts (text : List Char) (h : Stuck rest) :
    IsGreatest (textFronts (encode text ++ rest)) (encode text).length := by
  refine ⟨⟨by simp, text, List.take_left⟩, ?_⟩
  rintro n ⟨hlength, hn⟩
  by_contra hlt
  rw [Nat.not_le] at hlt
  rw [List.take_append, List.take_of_length_le hlt.le] at hn
  -- something of the rest is in it, so it would start with a character
  obtain ⟨_ | ⟨c, others⟩, hothers⟩ := wellFormed_of_append hn
  · have hcount := congrArg List.length hothers
    rw [List.length_append] at hlength
    rw [List.length_take_of_le (by omega)] at hcount
    exact absurd hcount (Nat.sub_ne_zero_of_lt hlt)
  · have hfront : String.utf8EncodeChar c <+: rest.take (n - (encode text).length) :=
      ⟨encode others, by rw [hothers, encode_cons]⟩
    exact h c (hfront.trans (List.take_prefix _ _))

/-- The fault that is found is the first one. The bytes are taken apart into the
text in front and what no character starts, which `decodeFrom_of_stuck` is
about. -/
theorem firstFault_of_decode {fault : Fault} (h : decode bytes = .error fault) :
    FirstFault bytes fault := by
  obtain ⟨text, rest, rfl, hstuck⟩ := exists_encode_append_stuck bytes
  have hindex := isGreatest_textFronts text hstuck
  have hdrop : (encode text ++ rest).drop (encode text).length = rest := List.drop_left
  rw [decode, decodeFrom_encode_append, Nat.zero_add, map_eq_error_iff] at h
  have hne : rest ≠ [] := by
    rintro rfl
    cases h
  obtain ⟨hbegins, hresult⟩ | ⟨longest, hbegins, hlongest, hresult⟩ :=
    decodeFrom_of_stuck hstuck hne (encode text).length
  · obtain rfl := Except.error.inj (hresult.symm.trans h)
    exact .incomplete hindex (by rwa [hdrop]) (by rwa [hdrop])
  · obtain rfl := Except.error.inj (hresult.symm.trans h)
    exact .invalid hindex (by rwa [hdrop]) (by rwa [hdrop])

/-- **Reading finds the first fault**: `decode` fails with a fault exactly if it
is the `FirstFault` of the bytes. -/
theorem decode_eq_error_iff {fault : Fault} :
    decode bytes = .error fault ↔ FirstFault bytes fault := by
  refine ⟨firstFault_of_decode, fun h => ?_⟩
  obtain ⟨found, hfound⟩ := not_wellFormed_iff.mp h.not_wellFormed
  rw [hfound, (firstFault_of_decode hfound).unique h]

end ListQuery.Text.Utf8
