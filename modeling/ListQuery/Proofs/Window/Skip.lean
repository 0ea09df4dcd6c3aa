import ListQuery.Proofs.Environment
import ListQuery.Proofs.Window.Decimal

/-!
# How much a window skips

The results in front of a page are counted with two operations, and each of them
stays within 64 bits.

* **`clamp_clamp_mul`** — the crux: one less than a page is beyond 64 bits at
  their lower end only, and there the product is beyond the same end with and
  without the first clamping. At the upper end it would not be: the number below
  it times -1 is in range.
* **`read_ne_zero`**, **`one_le_of_configured`** — no zero is read, and none is
  a default that is configured.
* **`ofParams_skip`** — the headline: the exact number of results in front of
  the page, clamped once.
-/

namespace ListQuery

/-- `Configured defaults` says that these can be the defaults: they are
`standard`, or what `ofEnvironment` makes of some environment. -/
inductive Defaults.Configured : Defaults → Prop where
  | standard : Configured Defaults.standard
  | environment {environment : List (String × String)} {defaults : Defaults}
      (h : ofEnvironment environment = .ok defaults) : Configured defaults

/-- Defaults that are `Configured` are one at least, whatever an environment
says. -/
theorem Defaults.one_le_of_configured {defaults : Defaults} (h : defaults.Configured) :
    1 ≤ defaults.page.toInt ∧ 1 ≤ defaults.limit.toInt := by
  cases h with
  | standard => decide
  | environment h =>
    obtain ⟨made, -, rfl⟩ := ofEnvironment_eq_ok_iff.mp h
    exact ⟨made.one_le_get_defaults .page, made.one_le_get_defaults .limit⟩

namespace Window

/-! ## The product -/

/-- Clamping a factor first makes no difference to the clamped product, as long
as `pages` can be clamped at its lower end only: there both products are beyond
the same end, whatever the sign of `limit`. -/
theorem clamp_clamp_mul {pages limit : Int} (h : pages < 2 ^ 63) :
    Int64.ofIntClamp ((Int64.ofIntClamp pages).toInt * limit) =
      Int64.ofIntClamp (pages * limit) := by
  rw [toInt_clamp]
  by_cases hlow : -2 ^ 63 ≤ pages
  · rw [show max (-2 ^ 63) (min pages (2 ^ 63 - 1)) = pages by omega]
  · -- beyond the lower end the sign of the limit tells which end the products are beyond
    rw [show max (-2 ^ 63) (min pages (2 ^ 63 - 1)) = -2 ^ 63 by omega]
    obtain hnegative | rfl | hpositive := lt_trichotomy limit 0
    · have hpages : pages * limit ≥ -2 ^ 63 * limit :=
        Int.mul_le_mul_of_nonpos_right (by omega) hnegative.le
      rw [clamp_of_ge (by omega), clamp_of_ge (by omega)]
    · rw [Int.mul_zero, Int.mul_zero]
    · have hpages : pages * limit ≤ -2 ^ 63 * limit :=
        Int.mul_le_mul_of_nonneg_right (by omega) hpositive.le
      rw [clamp_of_le (by omega), clamp_of_le (by omega)]

/-- `skipped` is the exact product, clamped. One less than a page is never
beyond the upper end, so `clamp_clamp_mul` applies. -/
theorem toInt_skipped (page limit : Int64) :
    (skipped page limit).toInt =
      max (-2 ^ 63) (min ((page.toInt - 1) * limit.toInt) (2 ^ 63 - 1)) := by
  have hlt := page.toInt_lt
  rw [skipped, clamp_clamp_mul (by omega), toInt_clamp]

/-! ## The factors -/

/-- Zero is never `usable`: `readingOf` tells it apart before anything is
clamped. -/
theorem read_ne_zero {given : Option String} {number : Int64} (h : read given = .usable number) :
    number ≠ 0 := by
  rintro rfl
  cases given with
  | none => cases h
  | some string =>
    rw [read] at h
    split at h
    · cases h
    · obtain ⟨_, whole, -, -, hwhole, hnumber⟩ := readingOf_eq_usable_iff.mp h
      -- clamping gives zero for zero alone
      have hzero := congrArg Int64.toInt hnumber
      rw [toInt_clamp, Int64.toInt_zero] at hzero
      omega

variable {params : Params} {control : Control}

/-- `used` is a number that `read` gives, which is not zero, or else the
default. -/
theorem used_cases (params : Params) (control : Control) (default : Int64) :
    (read (params.control? control) = .usable (used params control default) ∧
      used params control default ≠ 0) ∨ used params control default = default := by
  rw [used]
  cases hread : read (params.control? control) with
  | usable number => exact .inl ⟨rfl, read_ne_zero hread⟩
  | missing => exact .inr rfl
  | malformed => exact .inr rfl
  | unusable => exact .inr rfl

/-- `NonnegativeAt params control` says that no negative number is read for the
page or the limit. -/
def NonnegativeAt (params : Params) (control : Control) : Prop :=
  ∀ number, read (params.control? control) = .usable number → 0 ≤ number.toInt

/-- With a positive default `used` is never zero. -/
theorem used_ne_zero {default : Int64} (h : 1 ≤ default.toInt) :
    used params control default ≠ 0 := by
  obtain ⟨-, hne⟩ | hdefault := used_cases params control default
  · exact hne
  · rintro hzero
    rw [hdefault] at hzero
    subst hzero
    exact absurd h (by decide)

/-- With a positive default, and no negative number read, `used` is positive. -/
theorem one_le_used {default : Int64} (h : 1 ≤ default.toInt)
    (hread : NonnegativeAt params control) : 1 ≤ (used params control default).toInt := by
  obtain ⟨hnumber, hne⟩ | hdefault := used_cases params control default
  · have hle := hread _ hnumber
    rw [ne_eq, ← Int64.toInt_inj] at hne
    have hzero : (0 : Int64).toInt = 0 := rfl
    omega
  · rwa [hdefault]

/-! ## Windows -/

/-- **How much a window skips.** The window of `ofParams` has the limit that is
`used`, and what it skips is the product of this and of the pages in front,
clamped once. The page and the limit are the default or not zero. Where the
defaults are positive, as all `Configured` ones are, the limit is not zero; and
if no negative number is read either, what is skipped is not negative, and some
number of whole pages unless it is beyond 64 bits. -/
theorem ofParams_skip {defaults : Defaults} {params : Params} {window : Window}
    (h : ofParams defaults params = some window) :
    window.limit = used params .limit defaults.limit ∧
    window.skip.toInt = max (-2 ^ 63) (min (((used params .page defaults.page).toInt - 1) *
      (used params .limit defaults.limit).toInt) (2 ^ 63 - 1)) ∧
    (used params .page defaults.page = defaults.page ∨ used params .page defaults.page ≠ 0) ∧
    (used params .limit defaults.limit = defaults.limit ∨ used params .limit defaults.limit ≠ 0) ∧
    (defaults.Configured → 1 ≤ defaults.page.toInt ∧ 1 ≤ defaults.limit.toInt) ∧
    (1 ≤ defaults.page.toInt → 1 ≤ defaults.limit.toInt →
      window.limit ≠ 0 ∧
      (NonnegativeAt params .page → NonnegativeAt params .limit →
        0 ≤ window.skip.toInt ∧
        (window.limit.toInt ∣ window.skip.toInt ∨
          2 ^ 63 - 1 < ((used params .page defaults.page).toInt - 1) * window.limit.toInt ∧
            window.skip.toInt = 2 ^ 63 - 1))) := by
  have hlimited : params.control? .limit ≠ some unlimited := by
    intro hunlimited
    rw [ofParams_eq_none_iff.mpr hunlimited] at h
    cases h
  rw [ofParams_of_limited hlimited, Option.some.injEq] at h
  subst h
  have hfactor : ∀ control default,
      used params control default = default ∨ used params control default ≠ 0 :=
    fun control default => (used_cases params control default).symm.imp_right And.right
  refine ⟨rfl, toInt_skipped _ _, hfactor .page _, hfactor .limit _, Defaults.one_le_of_configured,
    fun hpage hlimit => ⟨used_ne_zero hlimit, fun hpageRead hlimitRead => ?_⟩⟩
  -- both factors are at least zero, so clamping can only cut the product at the upper end
  have hpagePos := one_le_used hpage hpageRead
  have hlimitPos := one_le_used hlimit hlimitRead
  dsimp only
  rw [toInt_skipped]
  have hproduct : 0 ≤ ((used params .page defaults.page).toInt - 1) *
      (used params .limit defaults.limit).toInt := Int.mul_nonneg (by omega) (by omega)
  refine ⟨by omega, ?_⟩
  by_cases hbeyond : 2 ^ 63 - 1 < ((used params .page defaults.page).toInt - 1) *
      (used params .limit defaults.limit).toInt
  · exact .inr ⟨hbeyond, by omega⟩
  · rw [min_eq_left (by omega), max_eq_right (by omega)]
    exact .inl (Int.dvd_mul_left ..)

/-- `ofParams_skip` at a page whose results are behind more than 64 bits can
count. -/
theorem ofParams_skip_clamped :
    ∃ (params : Params) (window : Window),
      params.entries = [("page", .one "3e18"), ("limit", .one "5")] ∧
      ofParams Defaults.standard params = some window ∧ window.limit ≠ 0 ∧
      window.skip.toInt = 2 ^ 63 - 1 ∧ ¬ window.limit.toInt ∣ window.skip.toInt := by
  let params : Params := ⟨[("page", .one "3e18"), ("limit", .one "5")], by decide⟩
  have hwindow : ofParams Defaults.standard params = some ⟨5, Int64.maxValue⟩ := by decide +kernel
  obtain ⟨-, -, -, -, hconfigured, hpositive⟩ := ofParams_skip hwindow
  obtain ⟨hpage, hlimit⟩ := hconfigured .standard
  obtain ⟨hne, hnonnegative⟩ := hpositive hpage hlimit
  have hread : read (params.control? .page) = .usable 3000000000000000000 ∧
      read (params.control? .limit) = .usable 5 := by decide +kernel
  obtain ⟨-, hmultiple | ⟨-, hskip⟩⟩ := hnonnegative
    (fun number h => by cases hread.1.symm.trans h; decide)
    (fun number h => by cases hread.2.symm.trans h; decide)
  · exact absurd hmultiple (by decide)
  · exact ⟨params, _, rfl, hwindow, hne, hskip, by decide⟩

end Window

end ListQuery
