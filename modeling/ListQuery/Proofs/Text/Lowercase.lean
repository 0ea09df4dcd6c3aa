import ListQuery.Text.Lowercase

/-!
# Words with an ASCII lower case

Names in ASCII are found again in lower case. The table reaches far beyond
ASCII, and what it says there could lead back.

* **`capitalRuns_beyond`** — the crux: beyond ASCII only one run does, that of
  the Kelvin sign, whose small letter is `k`.
* **`Lowers`** — what is left of the table when no more than this is known of
  it.
* **`Lowers.eq_iff`** — so a name without a `k` has no spelling beyond ASCII,
  and its spellings are its ASCII cases.
-/

namespace ListQuery.Text

/-- Beyond ASCII a run of `capitalRuns` has its small letters beyond ASCII too,
or is that of the Kelvin sign. All small letters are characters. The table is a
constant, so this is decided run by run. -/
theorem capitalRuns_beyond : ∀ run ∈ capitalRuns,
    run.2.1 < 0x80 ∨ run.2.1 = run.1 ∧ run.2.2.2 = 'k'.toNat ∨
      0x80 ≤ run.2.2.2 ∧
        (run.2.2.2 + (run.2.1 - run.1) < 0xD800 ∨
          0xDFFF < run.2.2.2 ∧ run.2.2.2 + (run.2.1 - run.1) < 0x110000) := by
  decide +kernel

/-- `smallLetter?` of a capital beyond ASCII is beyond ASCII, or it is `k`. It
lies in the run that the capital is found in, as far from its start. -/
theorem smallLetter?_beyond {code small : Nat} (hcode : 0x80 ≤ code)
    (h : smallLetter? code = some small) :
    small = 'k'.toNat ∨ 0x80 ≤ small ∧ small.isValidChar := by
  obtain ⟨⟨first, last, stride, start⟩, hfind, hsmall⟩ := Option.map_eq_some_iff.mp h
  have hrun : first ≤ code ∧ code ≤ last := by
    have hfound := List.find?_some hfind
    simp only [Bool.and_eq_true, decide_eq_true_eq] at hfound
    exact hfound.1
  have hbeyond := capitalRuns_beyond _ (List.mem_of_find?_eq_some hfind)
  dsimp only at hsmall hbeyond
  unfold Nat.isValidChar
  omega

/-- The lower case of a character beyond ASCII is not all in ASCII, unless it is
`k`. The dotted capital I has two characters in lower case, and the second of
them is beyond ASCII. -/
theorem exists_mem_lowercaseChar {c : Char} (h : 0x80 ≤ c.toNat) :
    ∃ x ∈ lowercaseChar c, x = 'k' ∨ 0x80 ≤ x.toNat := by
  unfold lowercaseChar
  split
  · exact ⟨'\u0307', by simp, .inr (by decide)⟩
  cases hsmall : smallLetter? c.toNat with
  | none => exact ⟨c, by simp, .inr h⟩
  | some small =>
    refine ⟨Char.ofNat small, by simp, ?_⟩
    rcases smallLetter?_beyond h hsmall with rfl | ⟨hbeyond, hvalid⟩
    · exact .inl rfl
    · rw [Char.ofNat, dif_pos hvalid]
      exact .inr hbeyond

theorem toLower_of_le {c : Char} (h : 0x80 ≤ c.toNat) : c.toLower = c := by
  refine dif_neg fun hcapital => ?_
  have hle : c.toNat ≤ 'Z'.toNat := UInt32.le_iff_toNat_le.mp hcapital.2
  exact absurd (Nat.le_trans h hle) (by decide)

/-- `Char.toLower` takes nothing beyond ASCII into ASCII, so a word with an
ASCII lower case is itself in ASCII. -/
theorem ascii_of_map_toLower {word name : List Char} (hname : ∀ c ∈ name, c.toNat < 0x80)
    (h : word.map Char.toLower = name) : ∀ c ∈ word, c.toNat < 0x80 := by
  intro c hc
  refine Nat.not_le.mp fun hbeyond => ?_
  have hmem : c.toLower ∈ name := h ▸ List.mem_map_of_mem hc
  rw [toLower_of_le hbeyond] at hmem
  exact Nat.not_le.mpr (hname c hmem) hbeyond

/-- What holds of `Char.ofNat code` for all 128 codes of ASCII holds of the
characters in ASCII. Statements about ASCII are decided through it. -/
@[elab_as_elim]
theorem of_ascii {motive : Char → Prop} {c : Char} (h : c.toNat < 0x80)
    (hall : ∀ code < 0x80, motive (Char.ofNat code)) : motive c := by
  have hcode := hall c.toNat h
  rwa [Char.ofNat_toNat] at hcode

/-- A letter is its `toLower` or the capital of that, so a word has no other
cases than those of its small letters. -/
theorem eq_toLower_or (c : Char) : c = c.toLower ∨ c = c.toLower.toUpper := by
  by_cases h : c.toNat < 0x80
  · have hall : ∀ code < 0x80, Char.ofNat code = (Char.ofNat code).toLower ∨
        Char.ofNat code = (Char.ofNat code).toLower.toUpper := by decide +kernel
    exact of_ascii h hall
  · exact .inl (toLower_of_le (Nat.not_lt.mp h)).symm

/-! ## Lower cases that agree on ASCII -/

/-- `Lowers word low` says that `low` is a lower case of the word, one character
after the other. In ASCII it is the one of ASCII. Of a table beyond ASCII no
more is asked than that a lower case there is not all in ASCII, unless it has a
`k`, so a table with more capitals than `capitalRuns` gives one too. -/
inductive Lowers : List Char → List Char → Prop where
  | nil : Lowers [] []
  | ascii {c : Char} {word low : List Char} (hc : c.toNat < 0x80) (h : Lowers word low) :
      Lowers (c :: word) (c.toLower :: low)
  | beyond {c : Char} {front word low : List Char} (hc : 0x80 ≤ c.toNat)
      (hfront : ∃ x ∈ front, x = 'k' ∨ 0x80 ≤ x.toNat) (h : Lowers word low) :
      Lowers (c :: word) (front ++ low)

theorem le_lowercaseSigma (before rest : List Char) :
    0x80 ≤ (lowercaseSigma before rest).toNat := by
  unfold lowercaseSigma
  split <;> decide

/-- `lowercaseFrom` gives a lower case in the sense of `Lowers`, whatever stands
before the word. Induction on what is still to be mapped; what stands before it
decides between letters beyond ASCII only. -/
theorem lowers_lowercaseFrom (before word : List Char) :
    Lowers word (lowercaseFrom before word) := by
  induction word generalizing before with
  | nil => exact .nil
  | cons c rest ih =>
    rw [lowercaseFrom]
    split
    · next hsigma =>
      have hbeyond : 0x80 ≤ c.toNat := by
        rw [hsigma]
        decide
      exact .beyond hbeyond
        ⟨_, List.mem_singleton_self _, .inr (le_lowercaseSigma before rest)⟩ (ih _)
    · by_cases hc : c.toNat < 0x80
      · rw [lowercaseChar_of_lt hc]
        exact .ascii hc (ih _)
      · exact .beyond (Nat.not_lt.mp hc) (exists_mem_lowercaseChar (Nat.not_lt.mp hc)) (ih _)

/-- `lowercase` is such a lower case, and so everything that `Lowers` says is
said of it. -/
theorem lowers_lowercase (word : List Char) : Lowers word (lowercase word) :=
  lowers_lowercaseFrom [] word

/-- A name in ASCII is the lower case of its ASCII cases alone, if it has no
`k`. So a word that is looked up among such names is found by its ASCII letters,
however much of Unicode the table of lower cases knows. -/
theorem Lowers.eq_iff {word low name : List Char} (h : Lowers word low)
    (hname : ∀ c ∈ name, c.toNat < 0x80 ∧ c ≠ 'k') : low = name ↔ word.map Char.toLower = name := by
  induction h generalizing name with
  | nil => exact Iff.rfl
  | @ascii c word low _ _ ih =>
    cases name with
    | nil => simp
    | cons x rest =>
      rw [List.map_cons, List.cons.injEq, List.cons.injEq,
        ih fun y hy => hname y (List.mem_cons_of_mem x hy)]
  | @beyond c front word low hc hfront _ _ =>
    -- the character leaves one beyond ASCII in either lower case, or the letter that the name does
    -- not have
    obtain ⟨x, hx, hx'⟩ := hfront
    refine iff_of_false (fun heq => ?_) fun heq => ?_
    · obtain ⟨hascii, hkelvin⟩ := hname x (heq ▸ List.mem_append_left low hx)
      exact hx'.elim hkelvin (Nat.not_le.mpr hascii)
    · exact Nat.not_le.mpr
        (ascii_of_map_toLower (fun x hx => (hname x hx).1) heq c List.mem_cons_self) hc

/-- The Kelvin sign is a spelling of `k` beyond ASCII. -/
example : lowercase "\u212A".toList = ['k'] := by decide +kernel

end ListQuery.Text
