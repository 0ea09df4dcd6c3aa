/-!
# Maps that keep their order

A map from strings whose entries stand in the order in which their keys first
came in. Every change goes through `alter`: a present key is altered where it
stands, a new one goes to the end (`keys_alter`). The altered key has its new
value (`get?_alter_self`), and every other key keeps what it had
(`get?_alter_of_ne`). No key stands twice; that is part of the type.
-/

namespace ListQuery

/-! ### Altering one entry of a list -/

/-- The entries with the value of `key` replaced by `f` of the value it had, if
any. A key that has no entry gets one at the end. Insertion and the growing of a
list are both this, with different functions. -/
def alterEntries {α : Type} (key : String) (f : Option α → α) :
    List (String × α) → List (String × α)
  | [] => [(key, f none)]
  | (k, value) :: rest =>
    if k = key then (k, f (some value)) :: rest else (k, value) :: alterEntries key f rest

section
variable {α : Type} {key : String} {f : Option α → α} {entries : List (String × α)}

/-- The keys stay as they are if `key` is one of them; otherwise it comes to the
end. The function `f` has no say in this. -/
theorem keys_alterEntries :
    (alterEntries key f entries).map Prod.fst =
      if key ∈ entries.map Prod.fst then entries.map Prod.fst
      else entries.map Prod.fst ++ [key] := by
  induction entries with
  | nil => simp [alterEntries]
  | cons entry rest ih =>
    by_cases h : entry.1 = key
    · simp [alterEntries, h]
    · by_cases hrest : key ∈ rest.map Prod.fst
      · simp_all [alterEntries]
      · simp_all [alterEntries, Ne.symm h]

/-- No key stands twice after one is altered, which makes `alter` an operation
on the type. -/
theorem nodup_alterEntries (h : (entries.map Prod.fst).Nodup) :
    ((alterEntries key f entries).map Prod.fst).Nodup := by
  rw [keys_alterEntries]
  split
  · exact h
  · next hkey =>
    rw [List.nodup_append]
    exact ⟨h, by simp, fun a ha b hb => by
      rw [List.mem_singleton] at hb
      exact fun hab => hkey (hb ▸ hab ▸ ha)⟩

theorem lookup_cons_of_ne {k : String} {value : α} (h : key ≠ k) :
    ((k, value) :: entries).lookup key = entries.lookup key := by
  rw [List.lookup_cons, beq_eq_false_iff_ne.mpr h]

/-- The altered key has its new value, made of the one that it had. Induction on
the entries, up to the one of the key. -/
theorem lookup_alterEntries_self :
    (alterEntries key f entries).lookup key = some (f (entries.lookup key)) := by
  induction entries with
  | nil => simp [alterEntries]
  | cons entry rest ih =>
    obtain ⟨k, value⟩ := entry
    by_cases h : k = key
    · subst h
      simp [alterEntries]
    · rw [alterEntries, if_neg h, lookup_cons_of_ne (Ne.symm h), lookup_cons_of_ne (Ne.symm h), ih]

/-- Every other key keeps its value. -/
theorem lookup_alterEntries_of_ne {other : String} (h : other ≠ key) :
    (alterEntries key f entries).lookup other = entries.lookup other := by
  induction entries with
  | nil => exact lookup_cons_of_ne h
  | cons entry rest ih =>
    obtain ⟨k, value⟩ := entry
    by_cases hk : k = key
    · rw [alterEntries, if_pos hk, lookup_cons_of_ne (hk ▸ h), lookup_cons_of_ne (hk ▸ h)]
    · rw [alterEntries, if_neg hk]
      by_cases hother : other = k
      · simp [hother]
      · rw [lookup_cons_of_ne hother, lookup_cons_of_ne hother, ih]

end

/-! ### The map -/

/-- A map from strings that remembers in which order its keys came in. That no
key stands twice is part of the type (`nodup_keys`), so that a key has one value
and one place. -/
structure OrderedMap (α : Type) where
  /-- The keys with their values, in order. -/
  entries : List (String × α)
  nodup_keys : (entries.map Prod.fst).Nodup

namespace OrderedMap

variable {α : Type}

/-- Maps with the same entries are the same. -/
@[ext] theorem ext {m m' : OrderedMap α} (h : m.entries = m'.entries) : m = m' := by
  cases m
  cases m'
  congr

/-- The map without entries. -/
def empty : OrderedMap α := ⟨[], List.nodup_nil⟩

instance : Inhabited (OrderedMap α) := ⟨empty⟩

/-- The keys, in order. -/
def keys (m : OrderedMap α) : List String := m.entries.map Prod.fst

/-- The number of keys. -/
def size (m : OrderedMap α) : Nat := m.entries.length

def isEmpty (m : OrderedMap α) : Bool := m.entries.isEmpty

def get? (m : OrderedMap α) (key : String) : Option α := m.entries.lookup key

/-- Replaces the value of `key` by `f` of the value that it had, if any. -/
def alter (m : OrderedMap α) (key : String) (f : Option α → α) : OrderedMap α :=
  ⟨alterEntries key f m.entries, nodup_alterEntries m.nodup_keys⟩

def insert (m : OrderedMap α) (key : String) (value : α) : OrderedMap α :=
  m.alter key fun _ => value

/-- The map of a list of pairs, each inserted in turn: a repeated key stands
where it first stood and has its last value. This is what becomes of the members
of a JSON object. -/
def ofList (pairs : List (String × α)) : OrderedMap α :=
  pairs.foldl (fun m (key, value) => m.insert key value) empty

/-! ### What `alter` does -/

/-- A key that is there is altered where it stands, and a new one goes to the
end. -/
theorem keys_alter (m : OrderedMap α) (key : String) (f : Option α → α) :
    (m.alter key f).keys = if key ∈ m.keys then m.keys else m.keys ++ [key] :=
  keys_alterEntries

theorem get?_alter_self (m : OrderedMap α) (key : String) (f : Option α → α) :
    (m.alter key f).get? key = some (f (m.get? key)) :=
  lookup_alterEntries_self

theorem get?_alter_of_ne (m : OrderedMap α) {key other : String} (f : Option α → α)
    (h : other ≠ key) : (m.alter key f).get? other = m.get? other :=
  lookup_alterEntries_of_ne h

end OrderedMap

end ListQuery
