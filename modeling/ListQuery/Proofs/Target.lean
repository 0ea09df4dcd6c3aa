import ListQuery.Proofs.Text.Lowercase
import ListQuery.Proofs.Text.Split
import ListQuery.Target

/-!
# How the key of a filter is spelled

A key is read from its last dot on, through the lower case of what stands behind
it. Here it is put together: a path, a dot, and the name of an operator in any
case of its ASCII letters.

* **`Operator.IsNamedBy`**, **`Target.Suffixed`**, **`Target.Bare`** — what may
  be written for an operator and for a target.
* **`suffixed?_eq_some_iff`** — the name of an operator has no dot, so a key
  with a suffix is cut in one way.
* **`ofKey_eq_iff`** — what a key names.
* **`ofKey_eq_ofKey_iff`** — when two keys name the same.
* **`ofKey_exact`** — the headline: both for all keys, and what follows for dots
  and for letters beyond ASCII.
-/

namespace ListQuery

/-! ## The names of operators -/

namespace Operator

/-- `operator.IsNamedBy word` says that the word is the name of the operator, up
to the case of its ASCII letters. -/
def IsNamedBy (operator : Operator) (word : List Char) : Prop :=
  word.map Char.toLower = operator.name.toList

instance (operator : Operator) (word : List Char) : Decidable (operator.IsNamedBy word) :=
  inferInstanceAs (Decidable (_ = _))

/-- Every `Operator.name` is made of ASCII characters other than `k` and the
dot. In lower case, `k` is what a character beyond ASCII can be, so it has to be
kept apart; no dot means that a suffix is never cut within a name. -/
theorem of_mem_name {operator : Operator} {c : Char} (h : c ∈ operator.name.toList) :
    (c.toNat < 0x80 ∧ c ≠ 'k') ∧ c ≠ '.' := by
  have hall : (operator.name.toList.all fun c => (c.toNat < 0x80 ∧ c ≠ 'k') ∧ c ≠ '.') = true := by
    cases operator with
    | equals => decide
    | compare comparison => cases comparison <;> decide
    | isIn => decide
  simpa using List.all_eq_true.mp hall c h

/-- `ofName?` inverts `name`: an operator is found by its own name and by no
other. -/
theorem ofName?_eq_some_iff {name : String} {operator : Operator} :
    ofName? name = some operator ↔ operator.name = name :=
  ⟨name_of_ofName?, fun h => h ▸ ofName?_name operator⟩

/-- A lower case of a word is the name of an operator exactly if the word spells
it. Any lower case will do that has the one of ASCII on ASCII, so the table that
`lowercase` uses beyond ASCII does not matter. -/
theorem ofName?_eq_some_iff_of_lowers {word low : List Char} (h : Text.Lowers word low)
    {operator : Operator} :
    ofName? (String.ofList low) = some operator ↔ operator.IsNamedBy word := by
  rw [ofName?_eq_some_iff, IsNamedBy, ← h.eq_iff fun c hc => (of_mem_name hc).1]
  exact ⟨fun h => by rw [h, String.toList_ofList], fun h => by rw [h, String.ofList_toList]⟩

theorem ofName?_lowercase_eq_some_iff {word : List Char} {operator : Operator} :
    ofName? (String.ofList (Text.lowercase word)) = some operator ↔ operator.IsNamedBy word :=
  ofName?_eq_some_iff_of_lowers (Text.lowers_lowercase word)

/-- `ofName?` finds the same operator by any lower case of a word as by
`lowercase`, or none by either. -/
theorem ofName?_of_lowers {word low : List Char} (h : Text.Lowers word low) :
    ofName? (String.ofList low) = ofName? (String.ofList (Text.lowercase word)) := by
  ext operator
  rw [ofName?_eq_some_iff_of_lowers h, ofName?_lowercase_eq_some_iff]

theorem ascii_of_isNamedBy {operator : Operator} {word : List Char} (h : operator.IsNamedBy word) :
    ∀ c ∈ word, c.toNat < 0x80 :=
  Text.ascii_of_map_toLower (fun _ hc => (of_mem_name hc).1.1) h

/-- A word that an operator `IsNamedBy` has no dot in it, so that a key is cut
at its last one. -/
theorem dot_not_mem_of_isNamedBy {operator : Operator} {word : List Char}
    (h : operator.IsNamedBy word) : '.' ∉ word := by
  intro hdot
  have hmem : '.' ∈ operator.name.toList := by
    rw [← h]
    exact List.mem_map.mpr ⟨'.', hdot, by decide⟩
  exact (of_mem_name hmem).2 rfl

end Operator

namespace Target

/-! ## Keys with a suffix and without one -/

/-- `target.Suffixed key` says that the key is the path of the target and,
behind a dot, the name of its operator. -/
def Suffixed (target : Target) (key : String) : Prop :=
  ∃ suffix, target.operator.IsNamedBy suffix ∧ key.toList = target.path.toList ++ '.' :: suffix

/-- `Bare key` says that the key does not end in the name of an operator behind
a dot. -/
def Bare (key : String) : Prop := ¬ ∃ target : Target, target.Suffixed key

/-- `splitLast` cuts a text at the dot that no other one stands behind. -/
theorem splitLast_dot {back : List Char} (h : '.' ∉ back) (front : List Char) :
    Text.splitLast (· == '.') (front ++ '.' :: back) = some (front, back) :=
  Text.splitLast_append front (by decide) fun c hc =>
    beq_eq_false_iff_ne.mpr fun heq => h (heq ▸ hc)

/-- `suffixed?` reads off a key exactly the target that it is `Suffixed` with.
The name of an operator has no dot, so there is one place to cut at. -/
theorem suffixed?_eq_some_iff {key : String} {target : Target} :
    suffixed? key = some target ↔ target.Suffixed key := by
  constructor
  · -- what is cut off is the name of the operator, and what is left is the path
    intro h
    obtain ⟨⟨path, suffix⟩, hcut, h⟩ := Option.bind_eq_some_iff.mp h
    obtain ⟨operator, hoperator, h⟩ := Option.bind_eq_some_iff.mp h
    obtain ⟨c, hc, hkey, -⟩ := Text.eq_append_of_splitLast hcut
    rw [← Option.some.inj h]
    refine ⟨suffix, Operator.ofName?_lowercase_eq_some_iff.mp hoperator, ?_⟩
    rw [hkey, eq_of_beq hc]
    show _ = (String.ofList path).toList ++ _
    rw [String.toList_ofList]
  · -- a suffix has no dot in it, so it is what is cut off
    intro ⟨suffix, hsuffix, hkey⟩
    rw [suffixed?, hkey, splitLast_dot (Operator.dot_not_mem_of_isNamedBy hsuffix)]
    show (Operator.ofName? _).bind _ = _
    rw [Operator.ofName?_lowercase_eq_some_iff.mpr hsuffix]
    show some (Target.mk (String.ofList target.path.toList) target.operator) = some target
    rw [String.ofList_toList]

theorem suffixed?_eq_none_iff {key : String} : suffixed? key = none ↔ Bare key := by
  rw [Bare, ← Option.not_isSome_iff_eq_none, Option.isSome_iff_exists]
  simp only [suffixed?_eq_some_iff]

theorem Suffixed.unique {target target' : Target} {key : String} (h : target.Suffixed key)
    (h' : target'.Suffixed key) : target = target' :=
  Option.some.inj ((suffixed?_eq_some_iff.mpr h).symm.trans (suffixed?_eq_some_iff.mpr h'))

theorem ofKey_of_suffixed {target : Target} {key : String} (h : target.Suffixed key) :
    ofKey key = target := by
  rw [ofKey, suffixed?_eq_some_iff.mpr h]
  rfl

theorem ofKey_of_bare {key : String} (h : Bare key) : ofKey key = ⟨key, .equals⟩ := by
  rw [ofKey, suffixed?_eq_none_iff.mpr h]
  rfl

/-- `ofKey` gives the target that the key is `Suffixed` with, and equality on
all of the key if it is `Bare`. -/
theorem ofKey_eq_iff {key : String} {target : Target} :
    ofKey key = target ↔ target.Suffixed key ∨ Bare key ∧ target = ⟨key, .equals⟩ := by
  by_cases hbare : Bare key
  · have hnone : ¬ target.Suffixed key := fun h => hbare ⟨target, h⟩
    simp only [ofKey_of_bare hbare, hnone, hbare, false_or, true_and, eq_comm]
  · obtain ⟨named, hnamed⟩ := Classical.not_not.mp hbare
    simp only [ofKey_of_suffixed hnamed, hbare, false_and, or_false]
    exact ⟨fun h => h ▸ hnamed, hnamed.unique⟩

theorem bare_of_dot_not_mem {key : String} (h : '.' ∉ key.toList) : Bare key := by
  rintro ⟨target, suffix, -, hkey⟩
  exact h (hkey ▸ List.mem_append_right _ List.mem_cons_self)

/-- The last dot of a key is the only one that a suffix can stand behind: what
stands behind it is then a word that the operator `IsNamedBy`. -/
theorem Suffixed.isNamedBy {target : Target} {key : String} {path suffix : List Char}
    (h : target.Suffixed key) (hkey : key.toList = path ++ '.' :: suffix) (hdot : '.' ∉ suffix) :
    target.operator.IsNamedBy suffix := by
  obtain ⟨suffix', hsuffix', hkey'⟩ := h
  have hsame := splitLast_dot hdot path
  rw [← hkey, hkey', splitLast_dot (Operator.dot_not_mem_of_isNamedBy hsuffix')] at hsame
  rwa [← (Prod.mk.inj (Option.some.inj hsame)).2]

/-- A key with a character beyond ASCII behind its last dot is `Bare`, whatever
the small letter of that character is. -/
theorem bare_of_beyond {key : String} {path suffix : List Char} {c : Char}
    (hkey : key.toList = path ++ '.' :: suffix) (hdot : '.' ∉ suffix) (hc : c ∈ suffix)
    (hbeyond : 0x80 ≤ c.toNat) : Bare key := by
  rintro ⟨target, htarget⟩
  have hascii := Operator.ascii_of_isNamedBy (htarget.isNamedBy hkey hdot) c hc
  exact Nat.not_le.mpr hascii hbeyond

/-- `ofKey` cuts a key at one dot or at none: the path is all of it, or what
stands in front of the last dot. -/
theorem path_ofKey (key : String) :
    (ofKey key).path = key ∨
      ∃ suffix, '.' ∉ suffix ∧ key.toList = (ofKey key).path.toList ++ '.' :: suffix := by
  by_cases hbare : Bare key
  · rw [ofKey_of_bare hbare]
    exact .inl rfl
  · obtain ⟨target, hsuffixed⟩ := Classical.not_not.mp hbare
    rw [ofKey_of_suffixed hsuffixed]
    obtain ⟨suffix, hsuffix, hkey⟩ := hsuffixed
    exact .inr ⟨suffix, Operator.dot_not_mem_of_isNamedBy hsuffix, hkey⟩

/-! ## Keys that name the same -/

/-- `Respelled key key'` says that the keys are two spellings of one target: the
same suffix in other cases of its letters (`recased`), or the suffix of equality
on one of them and none on the other (`added`, `dropped`). -/
inductive Respelled (key key' : String) : Prop where
  | recased {target : Target} (h : target.Suffixed key) (h' : target.Suffixed key')
  | added (h : Bare key) (h' : Suffixed ⟨key, .equals⟩ key')
  | dropped (h : Suffixed ⟨key', .equals⟩ key) (h' : Bare key')

/-- `ofKey` gives one target for two different keys exactly if they are
`Respelled`. If neither has a suffix, each is its own path, and they would be
the same key. -/
theorem ofKey_eq_ofKey_iff {key key' : String} (hne : key' ≠ key) :
    ofKey key' = ofKey key ↔ Respelled key key' := by
  constructor
  · intro h
    by_cases hbare : Bare key
    · rw [ofKey_of_bare hbare, ofKey_eq_iff] at h
      rcases h with h' | ⟨-, h⟩
      · exact .added hbare h'
      · -- without a suffix a key is its own path
        exact absurd (congrArg path h).symm hne
    · obtain ⟨target, htarget⟩ := Classical.not_not.mp hbare
      rw [ofKey_of_suffixed htarget, ofKey_eq_iff] at h
      rcases h with h' | ⟨hbare', rfl⟩
      · exact .recased htarget h'
      · exact .dropped htarget hbare'
  · intro h
    cases h with
    | recased h h' => rw [ofKey_of_suffixed h, ofKey_of_suffixed h']
    | added h h' => rw [ofKey_of_bare h, ofKey_of_suffixed h']
    | dropped h h' => rw [ofKey_of_suffixed h, ofKey_of_bare h']

/-! ## All keys -/

/-- **What the key of a filter names.** `ofKey` gives the operator whose name
stands behind the last dot of the key, in any case of its ASCII letters, and all
that stands in front of this dot. A `Bare` key names equality, and all of it is
the path. So one suffix is taken off at most, even behind another one; a key
without a dot is its own path; and nothing beyond ASCII is a suffix, whatever
the lower case of it may be (`Lowers`). The segments of a path make it up again.
Two keys name the same if they are `Respelled`. -/
theorem ofKey_exact :
    (∀ (key : String) (target : Target),
      ofKey key = target ↔ target.Suffixed key ∨ Bare key ∧ target = ⟨key, .equals⟩) ∧
    (∀ key : String, (ofKey key).path = key ∨
      ∃ suffix, '.' ∉ suffix ∧ key.toList = (ofKey key).path.toList ++ '.' :: suffix) ∧
    (∀ (path : String) (suffix : List Char) (operator : Operator), operator.IsNamedBy suffix →
      ofKey (path ++ "." ++ String.ofList suffix) = ⟨path, operator⟩) ∧
    (∀ key : String, '.' ∉ key.toList → ofKey key = ⟨key, .equals⟩) ∧
    (∀ (key : String) (path suffix : List Char) (c : Char), key.toList = path ++ '.' :: suffix →
      '.' ∉ suffix → c ∈ suffix → 0x80 ≤ c.toNat → ofKey key = ⟨key, .equals⟩) ∧
    (∀ suffix low : List Char, Text.Lowers suffix low →
      Operator.ofName? (String.ofList low) =
        Operator.ofName? (String.ofList (Text.lowercase suffix))) ∧
    (∀ target : Target, ".".intercalate target.segments = target.path ∧
      ∀ segment ∈ target.segments, '.' ∉ segment.toList) ∧
    ∀ key key' : String, ofKey key' = ofKey key ↔ key' = key ∨ Respelled key key' := by
  refine ⟨fun _ _ => ofKey_eq_iff, path_ofKey, fun path suffix operator hsuffix => ?_,
    fun _ hdot => ofKey_of_bare (bare_of_dot_not_mem hdot),
    fun _ _ _ _ hkey hdot hc hbeyond => ofKey_of_bare (bare_of_beyond hkey hdot hc hbeyond),
    fun _ _ => Operator.ofName?_of_lowers,
    fun target => ⟨Text.intercalate_pieces rfl target.path, fun _ => Text.not_mem_of_mem_pieces⟩,
    fun key key' => ?_⟩
  · exact ofKey_of_suffixed ⟨suffix, hsuffix, by simp⟩
  · by_cases hne : key' = key
    · simp [hne]
    · rw [ofKey_eq_ofKey_iff hne, or_iff_right hne]

/-- `ofKey_exact` at a path that itself ends in the name of an operator, and at
a dotted capital I, whose lower case starts with a small i. -/
theorem ofKey_exact_nested :
    Operator.IsNamedBy (.compare .notEqual) "Ne".toList ∧
      ofKey "a.eq.Ne" = ⟨"a.eq", .compare .notEqual⟩ ∧
      "tags.\u0130n".toList = "tags".toList ++ '.' :: ['\u0130', 'n'] ∧
      ofKey "tags.\u0130n" = ⟨"tags.\u0130n", .equals⟩ := by
  have hname : Operator.IsNamedBy (.compare .notEqual) "Ne".toList := by decide
  obtain ⟨-, -, hsuffixed, -, hbeyond, -⟩ := ofKey_exact
  exact ⟨hname, hsuffixed "a.eq" "Ne".toList _ hname, by decide,
    hbeyond _ "tags".toList ['\u0130', 'n'] '\u0130' (by decide) (by decide) (by decide)
      (by decide)⟩

end Target

end ListQuery
