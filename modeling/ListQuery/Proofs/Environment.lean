import Mathlib.Data.List.Perm.Basic
import ListQuery.Environment
import ListQuery.Proofs.Number.Integer
import ListQuery.Proofs.OrderedMap
import ListQuery.Proofs.Text.Lowercase
import ListQuery.Proofs.Traversal

/-!
# What an environment sets

Variables are read one after the other, and the first that fails ends it. What
they set can be said without the reading, setting by setting.

* **`Setting.IsNamedBy`**, **`Makes`** — which variables are for a setting, and
  what a setting becomes: none makes nothing, one makes the integer that it
  writes, and more than one make nothing at all.
* **`Made.Reflects`** — settings made by variables, whatever their order.
* **`Fails`** — what is wrong with a variable behind others.
* **`Made.Reflects.read`** — the crux: one variable more.
* **`Made.readAll_eq_ok_iff`**, **`Made.readAll_eq_error_iff`** — all of them.
* **`ofEnvironment_exact`** — the headline.
-/

namespace ListQuery.Defaults

open Number (WritesInteger)

/-! ## Names -/

namespace Setting

/-- The name is that of the variable for the setting, up to the case of its
ASCII letters. Nothing is said of a lower case beyond ASCII, and no name for a
setting has a character there (`ascii_of_isNamedBy`). -/
def IsNamedBy (setting : Setting) (name : String) : Prop :=
  name.toList.map Char.toLower = setting.variableName.toList

instance (setting : Setting) (name : String) : Decidable (setting.IsNamedBy name) :=
  inferInstanceAs (Decidable (_ = _))

/-- `Setting.variableName` is made of ASCII characters other than `k`, which is
in lower case what a character beyond ASCII can be, the Kelvin sign. So no
letter beyond ASCII becomes one of theirs. -/
theorem of_mem_variableName {setting : Setting} {c : Char} (h : c ∈ setting.variableName.toList) :
    c.toNat < 0x80 ∧ c ≠ 'k' := by
  have hall : (setting.variableName.toList.all fun c => c.toNat < 0x80 ∧ c ≠ 'k') = true := by
    cases setting <;> decide
  simpa using List.all_eq_true.mp hall c h

theorem ofName?_eq_some_iff {name : String} {setting : Setting} :
    ofName? name = some setting ↔ setting.variableName = name := by
  constructor
  · exact fun h => eq_of_beq (List.find?_some (p := fun s : Setting => s.variableName == name) h)
  · rintro rfl
    cases setting <;> decide

/-- A lower case of a name leads to a setting exactly if the name spells that of
its variable. Any lower case will do that has the one of ASCII on ASCII, as
`Text.Lowers` says. -/
theorem ofName?_eq_some_iff_of_lowers {name : String} {low : List Char}
    (h : Text.Lowers name.toList low) {setting : Setting} :
    ofName? (String.ofList low) = some setting ↔ setting.IsNamedBy name := by
  rw [ofName?_eq_some_iff, IsNamedBy, ← h.eq_iff fun c hc => of_mem_variableName hc]
  exact ⟨fun h => by rw [h, String.toList_ofList], fun h => by rw [h, String.ofList_toList]⟩

theorem ofVariable?_eq_some_iff {name : String} {setting : Setting} :
    ofVariable? name = some setting ↔ setting.IsNamedBy name :=
  ofName?_eq_some_iff_of_lowers (Text.lowers_lowercase name.toList)

theorem ofName?_of_lowers {name : String} {low : List Char} (h : Text.Lowers name.toList low) :
    ofName? (String.ofList low) = ofVariable? name := by
  ext setting
  rw [ofName?_eq_some_iff_of_lowers h, ofVariable?_eq_some_iff]

theorem ofVariable?_eq_none_iff {name : String} :
    ofVariable? name = none ↔ ∀ setting : Setting, ¬ setting.IsNamedBy name := by
  rw [Option.eq_none_iff_forall_ne_some]
  simp only [ne_eq, ofVariable?_eq_some_iff]

theorem IsNamedBy.unique {setting setting' : Setting} {name : String} (h : setting.IsNamedBy name)
    (h' : setting'.IsNamedBy name) : setting = setting' :=
  Option.some.inj ((ofVariable?_eq_some_iff.mpr h).symm.trans (ofVariable?_eq_some_iff.mpr h'))

theorem ascii_of_isNamedBy {setting : Setting} {name : String} (h : setting.IsNamedBy name) :
    ∀ c ∈ name.toList, c.toNat < 0x80 :=
  Text.ascii_of_map_toLower (fun _ hc => (of_mem_variableName hc).1) h

end Setting

/-! ## What variables make of a setting -/

/-- A variable of an environment: its name and its value. -/
abbrev Variable := String × String

/-- The variables that are for a setting, in order: those whose name it
`IsNamedBy`. -/
def Setting.among (setting : Setting) (given : List Variable) : List Variable :=
  given.filter fun v => setting.IsNamedBy v.1

/-- `Makes given number` says that a setting has this number once `given`, the
variables that are for it, are read: none of them make nothing, and one makes
the integer that it writes. More than one make nothing at all, not even none. -/
inductive Makes : List Variable → Option Int64 → Prop where
  | nothing : Makes [] none
  | integer {name value : String} {number : Int64} (h : WritesInteger value.toList number.toInt) :
      Makes [(name, value)] (some number)

namespace Made

/-- Every setting is what the variables that are for it make, in whatever order
these stand. It is the invariant of the reading: true of no variables, kept by
one more (`Reflects.of_read`), and enough to know the settings
(`Reflects.unique`). -/
def Reflects (made : Made) (given : List Variable) : Prop :=
  ∀ setting : Setting, Makes (setting.among given) (made.get? setting)

end Made

/-- `Fails front v error` says what is wrong with the variable `v` behind those
of `front`: another one is for the same setting, or else it writes no integer of
64 bits. -/
inductive Fails (front : List Variable) : Variable → Error → Prop where
  | duplicate {setting : Setting} {earlier v : Variable} (hmem : earlier ∈ front)
      (hearlier : setting.IsNamedBy earlier.1) (hname : setting.IsNamedBy v.1) :
      Fails front v (.duplicate setting)
  | malformed {setting : Setting} {v : Variable} {fault : Number.IntegerFault}
      (hfirst : ∀ earlier ∈ front, ¬ setting.IsNamedBy earlier.1) (hname : setting.IsNamedBy v.1)
      (hvalue : Number.readInt64 v.2.toList = .error fault) :
      Fails front v (.malformed v.1 v.2 fault)

variable {setting : Setting} {made made' : Made} {given front back : List Variable} {v : Variable}
  {error : Error}

theorem Setting.mem_among : v ∈ setting.among given ↔ v ∈ given ∧ setting.IsNamedBy v.1 := by
  rw [among, List.mem_filter, decide_eq_true_iff]

theorem Setting.among_eq_nil_iff :
    setting.among given = [] ↔ ∀ v ∈ given, ¬ setting.IsNamedBy v.1 := by
  simp only [List.eq_nil_iff_forall_not_mem, mem_among, not_and]

theorem Setting.among_append (front back : List Variable) :
    setting.among (front ++ back) = setting.among front ++ setting.among back :=
  List.filter_append ..

theorem Setting.among_singleton_of_isNamedBy (h : setting.IsNamedBy v.1) :
    setting.among [v] = [v] :=
  List.filter_eq_self.mpr (by simpa using h)

theorem Setting.among_singleton_of_not (h : ¬ setting.IsNamedBy v.1) : setting.among [v] = [] := by
  simpa [among] using h

/-! ### One setting -/

section
variable {number number' : Option Int64}

/-- What variables `Makes` of a setting is one thing, since a text writes one
integer at most. -/
theorem Makes.unique (h : Makes given number) (h' : Makes given number') : number = number' := by
  cases h with
  | nothing => cases h'; rfl
  | integer hwrites =>
    cases h' with
    | integer hwrites' => rw [Int64.toInt_inj.mp (hwrites.unique hwrites')]

/-- What variables `Makes` of a setting does not depend on their order, since
there is one of them at most. -/
theorem Makes.perm (h : Makes given number) (hperm : given.Perm back) : Makes back number := by
  cases h with
  | nothing => exact hperm.nil_eq ▸ .nothing
  | integer hwrites => exact List.perm_singleton.mp hperm.symm ▸ .integer hwrites

theorem Makes.eq_none_iff (h : Makes given number) : number = none ↔ given = [] := by
  cases h <;> simp

/-- A variable among those that `Makes` something is the only one, and what it
writes is made. This is how the settings are read off the environment again. -/
theorem Makes.alone (h : Makes (front ++ v :: back) number) :
    front = [] ∧ back = [] ∧ ∃ n : Int64, number = some n ∧ WritesInteger v.2.toList n.toInt := by
  generalize hgiven : front ++ v :: back = given at h
  cases h with
  | nothing => simp at hgiven
  | integer hwrites =>
    rw [List.append_eq_singleton_iff] at hgiven
    simp only [List.cons.injEq, reduceCtorEq, and_false, or_false] at hgiven
    obtain ⟨rfl, rfl, rfl⟩ := hgiven
    exact ⟨rfl, rfl, _, rfl, hwrites⟩

/-- Variables with different names `Makes` something of a setting exactly if one
name at most is for it, and its value is the text of an integer of 64 bits. -/
theorem exists_makes_iff (hnodup : (given.map Prod.fst).Nodup) :
    (∃ number, Makes (setting.among given) number) ↔
      (∀ v ∈ given, ∀ w ∈ given, setting.IsNamedBy v.1 → setting.IsNamedBy w.1 → v.1 = w.1) ∧
        ∀ v ∈ given, setting.IsNamedBy v.1 →
          ∃ number : Int64, WritesInteger v.2.toList number.toInt := by
  constructor
  · rintro ⟨number, hmakes⟩
    -- each variable for the setting is the only one, so any two of them are the same
    have hsplit : ∀ v ∈ given, setting.IsNamedBy v.1 → setting.among given = [v] ∧
        ∃ n : Int64, WritesInteger v.2.toList n.toInt := by
      intro v hmem hname
      obtain ⟨front, back, hfront⟩ := List.append_of_mem (Setting.mem_among.mpr ⟨hmem, hname⟩)
      rw [hfront] at hmakes
      obtain ⟨rfl, rfl, n, -, hwrites⟩ := hmakes.alone
      exact ⟨hfront, n, hwrites⟩
    refine ⟨?_, fun v hv hname => (hsplit v hv hname).2⟩
    intro v hv w hw hvname hwname
    have hsame := (hsplit v hv hvname).1.symm.trans (hsplit w hw hwname).1
    rw [List.singleton_inj.mp hsame]
  · rintro ⟨hone, hwrites⟩
    cases hamong : setting.among given with
    | nil => exact ⟨none, .nothing⟩
    | cons v rest =>
      have hv : v ∈ setting.among given := hamong ▸ List.mem_cons_self
      obtain ⟨hmem, hname⟩ := Setting.mem_among.mp hv
      -- another one would have the same name, and no name stands twice
      have hrest : rest = [] := by
        have hsublist : (v :: rest).Sublist given := hamong ▸ List.filter_sublist
        have hnames := hnodup.sublist (hsublist.map Prod.fst)
        rw [List.map_cons, List.nodup_cons] at hnames
        refine List.eq_nil_iff_forall_not_mem.mpr fun w hw => hnames.1 ?_
        have hamongMem : w ∈ setting.among given := hamong ▸ List.mem_cons_of_mem v hw
        obtain ⟨hwmem, hwname⟩ := Setting.mem_among.mp hamongMem
        exact List.mem_map.mpr ⟨w, hw, hone w hwmem v hmem hwname hname⟩
      obtain ⟨n, hn⟩ := hwrites v hmem hname
      exact ⟨some n, hrest ▸ .integer hn⟩

end

/-! ## One variable more -/

namespace Made

theorem get?_set_self (made : Made) (number : Int64) (setting : Setting) :
    (made.set number setting).get? setting = some number := by
  cases setting <;> rfl

theorem get?_set_of_ne {setting other : Setting} (made : Made) (number : Int64)
    (h : other ≠ setting) : (made.set number setting).get? other = made.get? other := by
  cases setting <;> cases other <;> first | rfl | exact absurd rfl h

theorem ext_get? (h : ∀ setting, made.get? setting = made'.get? setting) : made = made' := by
  cases made
  cases made'
  exact Made.mk.injEq .. ▸ ⟨h .page, h .limit⟩

namespace Reflects

theorem unique (h : made.Reflects given) (h' : made'.Reflects given) : made = made' :=
  ext_get? fun setting => (h setting).unique (h' setting)

theorem perm (h : made.Reflects given) (hperm : given.Perm back) : made.Reflects back :=
  fun setting => (h setting).perm (hperm.filter _)

theorem get?_eq_none_iff (h : made.Reflects given) :
    made.get? setting = none ↔ ∀ v ∈ given, ¬ setting.IsNamedBy v.1 := by
  rw [(h setting).eq_none_iff, Setting.among_eq_nil_iff]

/-- A variable that is for no setting leaves all of them as they are: `Reflects`
goes on. -/
theorem append_unnamed (h : made.Reflects given)
    (hname : ∀ setting : Setting, ¬ setting.IsNamedBy v.1) : made.Reflects (given ++ [v]) := by
  intro setting
  rw [Setting.among_append, Setting.among_singleton_of_not (hname setting), List.append_nil]
  exact h setting

/-- The first variable for a setting makes it, and every other setting stays: a
variable is for one setting at most. So `Reflects` goes on with `Made.set`. -/
theorem append_named {n : Int64} (h : made.Reflects given) (hname : setting.IsNamedBy v.1)
    (hfirst : made.get? setting = none) (hwrites : WritesInteger v.2.toList n.toInt) :
    (made.set n setting).Reflects (given ++ [v]) := by
  intro other
  rw [Setting.among_append]
  by_cases hother : other = setting
  · subst hother
    rw [Setting.among_singleton_of_isNamedBy hname, get?_set_self, (h other).eq_none_iff.mp hfirst]
    exact .integer hwrites
  · have hnot : ¬ other.IsNamedBy v.1 := fun hnamed => hother (hnamed.unique hname)
    rw [Setting.among_singleton_of_not hnot, List.append_nil, get?_set_of_ne _ _ hother]
    exact h other

/-- Settings that are made show that no variable fails: one that does is a
second one for its setting, or writes no integer, and `Makes` has room for
neither. -/
theorem not_fails (h : made.Reflects (front ++ v :: back)) : ¬ Fails front v error := by
  intro hfails
  -- a variable for a setting has none in front of it, and writes an integer
  have halone : ∀ setting : Setting, setting.IsNamedBy v.1 →
      setting.among front = [] ∧ ∃ n : Int64, WritesInteger v.2.toList n.toInt := by
    intro setting hname
    have hmakes := h setting
    rw [← List.singleton_append, Setting.among_append, Setting.among_append,
      Setting.among_singleton_of_isNamedBy hname] at hmakes
    obtain ⟨hfront, -, n, -, hwrites⟩ := hmakes.alone
    exact ⟨hfront, n, hwrites⟩
  cases hfails with
  | duplicate hmem hearlier hname =>
    exact Setting.among_eq_nil_iff.mp (halone _ hname).1 _ hmem hearlier
  | malformed hfirst hname hvalue =>
    obtain ⟨-, n, hwrites⟩ := halone _ hname
    rw [Number.readInt64_eq_ok_iff.mpr hwrites] at hvalue
    cases hvalue

end Reflects

/-! ### The four ways to read a variable -/

section
variable {name value : String}

theorem read_of_unnamed (hname : ∀ setting : Setting, ¬ setting.IsNamedBy name) :
    made.read name value = .ok made := by
  rw [read, Setting.ofVariable?_eq_none_iff.mpr hname]

/-- `Made.read` takes a second variable for a setting for a `duplicate`,
whatever its value. -/
theorem read_of_made (hname : setting.IsNamedBy name) (hmade : made.get? setting ≠ none) :
    made.read name value = .error (.duplicate setting) := by
  rw [read, Setting.ofVariable?_eq_some_iff.mpr hname]
  exact if_pos (Option.isSome_iff_ne_none.mpr hmade)

/-- The first variable for a setting gives it the integer that is read. The
value is looked at only here and in `read_of_malformed`. -/
theorem read_of_writes {number : Int64} (hname : setting.IsNamedBy name)
    (hfirst : made.get? setting = none) (hvalue : Number.readInt64 value.toList = .ok number) :
    made.read name value = .ok (made.set number setting) := by
  rw [read, Setting.ofVariable?_eq_some_iff.mpr hname]
  dsimp only
  rw [hfirst, hvalue]
  rfl

/-- `Made.read` takes the first variable for a setting for `malformed` when its
value is no integer. -/
theorem read_of_malformed {fault : Number.IntegerFault} (hname : setting.IsNamedBy name)
    (hfirst : made.get? setting = none) (hvalue : Number.readInt64 value.toList = .error fault) :
    made.read name value = .error (.malformed name value fault) := by
  rw [read, Setting.ofVariable?_eq_some_iff.mpr hname]
  dsimp only
  rw [hfirst, hvalue]
  rfl

end

/-! ### What follows from them -/

namespace Reflects

/-- **One variable more**: either the settings behind it still `Reflects` what
is given, or the variable `Fails` behind the others. -/
theorem read (h : made.Reflects given) (v : Variable) :
    (∃ made', made.read v.1 v.2 = .ok made' ∧ made'.Reflects (given ++ [v])) ∨
      ∃ error, made.read v.1 v.2 = .error error ∧ Fails given v error := by
  by_cases hnamed : ∃ setting : Setting, setting.IsNamedBy v.1
  · obtain ⟨setting, hname⟩ := hnamed
    by_cases hfirst : made.get? setting = none
    · cases hvalue : Number.readInt64 v.2.toList with
      | ok number =>
        exact .inl ⟨_, read_of_writes hname hfirst hvalue,
          h.append_named hname hfirst (Number.readInt64_eq_ok_iff.mp hvalue)⟩
      | error fault =>
        exact .inr ⟨_, read_of_malformed hname hfirst hvalue,
          .malformed (h.get?_eq_none_iff.mp hfirst) hname hvalue⟩
    · have hearlier := hfirst
      rw [h.get?_eq_none_iff] at hearlier
      push Not at hearlier
      obtain ⟨earlier, hmem, hearlier⟩ := hearlier
      exact .inr ⟨_, read_of_made hname hfirst, .duplicate hmem hearlier hname⟩
  · rw [not_exists] at hnamed
    exact .inl ⟨made, read_of_unnamed hnamed, h.append_unnamed hnamed⟩

/-- A variable that `Made.read` accepts keeps up `Reflects`. This is the step of
the induction over an environment. -/
theorem of_read (h : made.Reflects given) (hread : made.read v.1 v.2 = .ok made') :
    made'.Reflects (given ++ [v]) := by
  obtain ⟨between, hok, hreflects⟩ | ⟨_, herror, -⟩ := h.read v
  · rw [Except.ok.inj (hread.symm.trans hok)]
    exact hreflects
  · cases hread.symm.trans herror

/-- The next variable ends the reading exactly if it `Fails` behind those that
were read. -/
theorem read_eq_error_iff (h : made.Reflects given) :
    made.read v.1 v.2 = .error error ↔ Fails given v error := by
  constructor
  · intro hread
    obtain ⟨_, hok, -⟩ | ⟨_, herror, hfails⟩ := h.read v
    · cases hread.symm.trans hok
    · rw [Except.error.inj (hread.symm.trans herror)]
      exact hfails
  · intro hfails
    cases hfails with
    | @duplicate setting earlier _ hmem hearlier hname =>
      refine read_of_made hname fun hnone => ?_
      exact h.get?_eq_none_iff.mp hnone earlier hmem hearlier
    | malformed hfirst hname hvalue =>
      exact read_of_malformed hname (h.get?_eq_none_iff.mpr hfirst) hvalue

end Reflects

end Made

/-! ## All variables -/

/-- The settings that variables make one after the other, with `Made.read`, from
none on. -/
def Made.readAll (given : List Variable) : Except Error Made :=
  given.foldlM (fun (made : Made) (name, value) => made.read name value) ⟨none, none⟩

theorem Made.reflects_nil : (Made.mk none none).Reflects [] := by
  intro setting
  cases setting <;> exact .nothing

/-- Settings that are read are what the variables make of them. Induction on the
variables from the last one, each step being `Reflects.of_read`. -/
theorem Made.reflects_of_readAll (h : Made.readAll given = .ok made) : made.Reflects given := by
  induction given using List.reverseRecOn generalizing made with
  | nil =>
    cases h
    exact reflects_nil
  | append_singleton front v ih =>
    obtain ⟨between, hfront, hlast⟩ := foldlM_append_eq_ok_iff.mp h
    obtain ⟨made', hread, hdone⟩ := foldlM_cons_eq_ok_iff.mp hlast
    cases hdone
    exact (ih hfront).of_read hread

/-- The reading goes through exactly if the variables make something of every
setting, and this is what comes of it. One way is the induction; the other holds
because nothing fails where something is made (`Reflects.not_fails`). -/
theorem Made.readAll_eq_ok_iff : Made.readAll given = .ok made ↔ made.Reflects given := by
  refine ⟨reflects_of_readAll, fun h => ?_⟩
  cases hread : Made.readAll given with
  | ok made' => rw [(reflects_of_readAll hread).unique h]
  | error fault =>
    obtain ⟨front, v, back, between, rfl, hfront, hv⟩ := foldlM_eq_error_iff.mp hread
    exact absurd ((reflects_of_readAll hfront).read_eq_error_iff.mp hv) h.not_fails

/-- `readAll` ends with the first variable that `Fails`: none of those in front
of it does, each behind the ones that stand before it. What is in front has been
read, so the settings there are what its variables make. -/
theorem Made.readAll_eq_error_iff :
    Made.readAll given = .error error ↔
      ∃ front v back, given = front ++ v :: back ∧
        (∀ before w after other, front = before ++ w :: after → ¬ Fails before w other) ∧
        Fails front v error := by
  constructor
  · intro h
    obtain ⟨front, v, back, between, rfl, hfront, hv⟩ := foldlM_eq_error_iff.mp h
    have hreflects := reflects_of_readAll hfront
    refine ⟨front, v, back, rfl, ?_, hreflects.read_eq_error_iff.mp hv⟩
    rintro before w after other rfl
    exact hreflects.not_fails
  · rintro ⟨front, v, back, rfl, hfront, hv⟩
    cases hread : Made.readAll front with
    | ok between =>
      exact foldlM_append_eq_error hread ((reflects_of_readAll hread).read_eq_error_iff.mpr hv) back
    | error other =>
      obtain ⟨before, w, after, between, rfl, hbefore, hw⟩ := foldlM_eq_error_iff.mp hread
      have hfails := (reflects_of_readAll hbefore).read_eq_error_iff.mp hw
      exact absurd hfails (hfront before w after other rfl)

/-! ## Defaults -/

/-- The default of a setting. -/
def get (defaults : Defaults) : Setting → Int64
  | .page => defaults.page
  | .limit => defaults.limit

theorem toInt_max_one (n : Int64) : (max 1 n).toInt = max 1 n.toInt := by
  show (if 1 ≤ n then n else 1).toInt = _
  have hone : (1 : Int64).toInt = 1 := rfl
  split <;> rw [Int64.le_iff_toInt_le] at * <;> omega

/-- A default of `Made.defaults` is the number of its setting, one at least, or
the `standard` one. -/
theorem Made.get_defaults (made : Made) (setting : Setting) :
    made.defaults.get setting = ((made.get? setting).map (max 1)).getD (standard.get setting) := by
  cases setting <;> rfl

/-- A default of `Made.defaults` is one at least, whatever is set, and also
where nothing is. -/
theorem Made.one_le_get_defaults (made : Made) (setting : Setting) :
    1 ≤ (made.defaults.get setting).toInt := by
  rw [get_defaults]
  cases made.get? setting with
  | none => cases setting <;> decide
  | some n =>
    show 1 ≤ (max 1 n).toInt
    rw [toInt_max_one]
    omega

/-- The variables of an environment that count, by `OrderedMap.ofList`. One that
is given twice stands where it first stood, with its last value. -/
def inForce (environment : List Variable) : List Variable := (OrderedMap.ofList environment).entries

variable {environment : List Variable} {defaults : Defaults}

/-- `ofEnvironment` gives the defaults of the settings that `Reflects` the
variables in force. -/
theorem ofEnvironment_eq_ok_iff :
    ofEnvironment environment = .ok defaults ↔
      ∃ made : Made, made.Reflects (inForce environment) ∧ made.defaults = defaults := by
  simp only [← Made.readAll_eq_ok_iff]
  exact map_eq_ok_iff

theorem ofEnvironment_eq_error_iff :
    ofEnvironment environment = .error error ↔ Made.readAll (inForce environment) = .error error :=
  map_eq_error_iff

/-- There are settings that `Reflects` the variables exactly when these `Makes`
something of each setting. The settings do not depend on each other. -/
theorem exists_reflects_iff :
    (∃ made : Made, made.Reflects given) ↔
      ∀ setting : Setting, ∃ n, Makes (setting.among given) n := by
  constructor
  · rintro ⟨made, h⟩ setting
    exact ⟨_, h setting⟩
  · intro h
    obtain ⟨page, hpage⟩ := h .page
    obtain ⟨limit, hlimit⟩ := h .limit
    refine ⟨⟨page, limit⟩, fun setting => ?_⟩
    cases setting with
    | page => exact hpage
    | limit => exact hlimit

/-- Environments whose variables differ only in their order set the same
defaults: what they make of a setting does not depend on it (`Makes.perm`). -/
theorem ofEnvironment_eq_ok_of_perm {environment' : List Variable}
    (hperm : (inForce environment).Perm (inForce environment'))
    (h : ofEnvironment environment = .ok defaults) : ofEnvironment environment' = .ok defaults := by
  obtain ⟨made, hmade, hdefaults⟩ := ofEnvironment_eq_ok_iff.mp h
  exact ofEnvironment_eq_ok_iff.mpr ⟨made, hmade.perm hperm, hdefaults⟩

/-- **What an environment sets.** Only ASCII names are for a setting, whatever
lower case the others may have (`Lowers`). `ofEnvironment` gives defaults
exactly if one name at most is for each setting and its value `WritesInteger` of
64 bits. They are then these integers, or one where they are less, and the
`standard` ones where no variable is for the setting. The order of the variables
matters neither for this nor for whether there are defaults. Otherwise the cause
is the first variable that `Fails`: because one for the same setting stands in
front of it, whatever its value, or else by its value. -/
theorem ofEnvironment_exact (environment : List Variable) :
    (∀ (setting : Setting) (name : String), setting.IsNamedBy name →
      ∀ c ∈ name.toList, c.toNat < 0x80) ∧
    (∀ (name : String) (low : List Char), Text.Lowers name.toList low →
      Setting.ofName? (String.ofList low) = Setting.ofVariable? name) ∧
    ((∃ defaults, ofEnvironment environment = .ok defaults) ↔
      ∀ setting : Setting,
        (∀ v ∈ inForce environment, ∀ w ∈ inForce environment,
          setting.IsNamedBy v.1 → setting.IsNamedBy w.1 → v.1 = w.1) ∧
        ∀ v ∈ inForce environment, setting.IsNamedBy v.1 →
          ∃ number : Int64, WritesInteger v.2.toList number.toInt) ∧
    (∀ defaults, ofEnvironment environment = .ok defaults → ∀ setting : Setting,
      (∀ v ∈ inForce environment, setting.IsNamedBy v.1 → ∀ n, WritesInteger v.2.toList n →
        (defaults.get setting).toInt = max 1 n) ∧
      ((∀ v ∈ inForce environment, ¬ setting.IsNamedBy v.1) →
        defaults.get setting = standard.get setting)) ∧
    (∀ environment', (inForce environment).Perm (inForce environment') →
      (∀ defaults, ofEnvironment environment = .ok defaults ↔
        ofEnvironment environment' = .ok defaults) ∧
      ((∃ error, ofEnvironment environment = .error error) ↔
        ∃ error, ofEnvironment environment' = .error error)) ∧
    ∀ error, ofEnvironment environment = .error error ↔
      ∃ front v back, inForce environment = front ++ v :: back ∧
        (∀ before w after other, front = before ++ w :: after → ¬ Fails before w other) ∧
        Fails front v error := by
  refine ⟨fun _ _ => Setting.ascii_of_isNamedBy, fun _ _ => Setting.ofName?_of_lowers,
    ?_, ?_, ?_, ?_⟩
  · -- when there are defaults
    have hexists : (∃ defaults, ofEnvironment environment = .ok defaults) ↔
        ∃ made : Made, made.Reflects (inForce environment) := by
      simp only [ofEnvironment_eq_ok_iff]
      exact ⟨fun ⟨_, made, h, _⟩ => ⟨made, h⟩, fun ⟨made, h⟩ => ⟨_, made, h, rfl⟩⟩
    rw [hexists, exists_reflects_iff]
    exact forall_congr' fun setting => exists_makes_iff (OrderedMap.ofList environment).nodup_keys
  · -- which they are
    intro defaults h setting
    obtain ⟨made, hmade, rfl⟩ := ofEnvironment_eq_ok_iff.mp h
    constructor
    · intro v hv hname n hwrites
      obtain ⟨front, back, hsplit⟩ := List.append_of_mem (Setting.mem_among.mpr ⟨hv, hname⟩)
      have hmakes := hmade setting
      rw [hsplit] at hmakes
      obtain ⟨-, -, number, hnumber, hvalue⟩ := hmakes.alone
      rw [Made.get_defaults, hnumber]
      exact hvalue.unique hwrites ▸ toInt_max_one number
    · intro hnone
      rw [Made.get_defaults, hmade.get?_eq_none_iff.mpr hnone]
      rfl
  · -- the order of the variables
    intro environment' hperm
    have hok : ∀ defaults, ofEnvironment environment = .ok defaults ↔
        ofEnvironment environment' = .ok defaults :=
      fun defaults => ⟨ofEnvironment_eq_ok_of_perm hperm, ofEnvironment_eq_ok_of_perm hperm.symm⟩
    refine ⟨hok, ?_⟩
    rw [exists_error_iff, exists_error_iff, exists_congr hok]
  · -- the first variable that fails
    intro error
    rw [ofEnvironment_eq_error_iff, Made.readAll_eq_error_iff]

/-- A second spelling of a name counts against it, though its value is no
integer. -/
example :
    ofEnvironment [("QUERY_BUILDER_DEFAULT_PAGE", "+007"), ("Query_Builder_Default_Limit", "-3")] =
      .ok ⟨7, 1⟩ ∧
    ofEnvironment [("query_builder_default_page", "2"), ("QUERY_BUILDER_DEFAULT_PAGE", " 3")] =
      .error (.duplicate .page) := by
  decide +kernel

end ListQuery.Defaults
