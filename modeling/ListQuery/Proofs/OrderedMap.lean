import Mathlib.Data.List.Induction
import ListQuery.OrderedMap

/-!
# Where an alteration takes place

`OrderedMap.alter` touches one entry. **`entries_alter`** cuts the entries at
it: those in front and those behind are the same before and after, and nothing
is behind an entry that is new. So a list of pairs whose keys differ is a map as
it stands (**`entries_ofList`**). In any list a key stands where it first comes
(**`keys_ofList`**) and has the value of its last pair (**`get?_ofList`**).
-/

namespace ListQuery

/-! ## Keys without repetitions -/

/-- `eraseDups` leaves keys that differ as they are. Induction on the keys. -/
theorem eraseDups_of_nodup {keys : List String} (h : keys.Nodup) : keys.eraseDups = keys := by
  induction keys with
  | nil => rfl
  | cons key rest ih =>
    obtain ⟨hkey, hrest⟩ := List.nodup_cons.mp h
    have hfilter : rest.filter (fun other => !other == key) = rest := by
      rw [List.filter_eq_self]
      intro other hother
      have hne : other ≠ key := fun heq => hkey (heq ▸ hother)
      simpa using hne
    rw [List.eraseDups_cons, hfilter, ih hrest]

/-- For `eraseDups` a key that has come before may be left out. -/
theorem eraseDups_append_cons_of_mem {keys : List String} {key : String} (h : key ∈ keys)
    (rest : List String) : (keys ++ key :: rest).eraseDups = (keys ++ rest).eraseDups := by
  rw [List.eraseDups_append, List.eraseDups_append, List.removeAll, List.removeAll,
    List.filter_cons_of_neg (by simpa using h)]

/-- A key behind others comes to the end if it is new, and changes nothing if it
is not. This is what `keys_alter` says of the keys of a map. -/
theorem eraseDups_append_singleton (keys : List String) (key : String) :
    (keys ++ [key]).eraseDups =
      if key ∈ keys then keys.eraseDups else keys.eraseDups ++ [key] := by
  have hone : [key].eraseDups = [key] := eraseDups_of_nodup (by simp)
  rw [List.eraseDups_append, List.removeAll]
  split
  · next h => simp [h]
  · next h => rw [List.filter_cons_of_pos (by simpa using h), List.filter_nil, hone]

/-- `eraseDups` and `filter` can be done in either order. Induction on the keys
from the last one. -/
theorem eraseDups_filter (p : String → Bool) (keys : List String) :
    (keys.filter p).eraseDups = keys.eraseDups.filter p := by
  induction keys using List.reverseRecOn with
  | nil => rfl
  | append_singleton keys key ih =>
    rw [List.filter_append, eraseDups_append_singleton]
    cases hp : p key with
    | false =>
      -- the key is filtered out, of the list without repetitions if it is in it
      rw [List.filter_cons_of_neg (by simp [hp]), List.filter_nil, List.append_nil, ih]
      split <;> simp [hp]
    | true =>
      rw [List.filter_cons_of_pos hp, List.filter_nil, eraseDups_append_singleton, ih]
      simp only [List.mem_filter, hp, and_true]
      split <;> simp [hp]

/-! ## Altering an entry -/

namespace OrderedMap

variable {α : Type}

/-- The entry of a key, if it has one. As a list it can be put between what
stands in front of it and what stands behind. -/
def entry (m : OrderedMap α) (key : String) : List (String × α) :=
  ((m.get? key).map (Prod.mk key)).toList

/-- `get?` gives the value of any entry of the key, since no key stands twice.
This is where the type says more than a list of pairs would. -/
theorem get?_of_mem {m : OrderedMap α} {entry : String × α} (h : entry ∈ m.entries) :
    m.get? entry.1 = some entry.2 := by
  obtain ⟨front, back, hsplit⟩ := List.append_of_mem h
  have hnodup := m.nodup_keys
  rw [hsplit, List.map_append, List.map_cons] at hnodup
  have hfront : ∀ other ∈ front, other.1 ≠ entry.1 := by
    intro other hother
    exact (List.nodup_append.mp hnodup).2.2 _ (List.mem_map_of_mem hother) _ List.mem_cons_self
  show m.entries.lookup entry.1 = some entry.2
  rw [hsplit, List.lookup_eq_some_iff]
  exact ⟨front, back, rfl, fun other hother => by simpa using (hfront other hother).symm⟩

theorem entry_of_get? {m : OrderedMap α} {key : String} {value : α} (h : m.get? key = some value) :
    m.entry key = [(key, value)] := by
  rw [entry, h]
  rfl

end OrderedMap

/-- `alterEntries`, with the entries cut at the one that it touches. What is in
front and behind is the same before and after. Induction on the entries. -/
theorem alterEntries_eq_append {α : Type} (key : String) (f : Option α → α)
    (entries : List (String × α)) :
    ∃ front back,
      entries = front ++ ((entries.lookup key).map (Prod.mk key)).toList ++ back ∧
      alterEntries key f entries = front ++ [(key, f (entries.lookup key))] ++ back ∧
      (entries.lookup key = none → back = []) := by
  induction entries with
  | nil => exact ⟨[], [], rfl, rfl, fun _ => rfl⟩
  | cons head rest ih =>
    obtain ⟨k, value⟩ := head
    by_cases hk : k = key
    · -- the alteration stops here
      subst hk
      exact ⟨[], rest, by simp, by simp [alterEntries], by simp⟩
    · obtain ⟨front, back, hentries, halter, hnew⟩ := ih
      refine ⟨(k, value) :: front, back, ?_, ?_, ?_⟩
      · rw [lookup_cons_of_ne (Ne.symm hk)]
        simpa using hentries
      · rw [lookup_cons_of_ne (Ne.symm hk), alterEntries, if_neg hk, halter]
        rfl
      · rwa [lookup_cons_of_ne (Ne.symm hk)]

/-- `alterEntries` passes over entries of other keys. Induction on these
entries. -/
theorem alterEntries_append {α : Type} {key : String} {front : List (String × α)}
    (h : key ∉ front.map Prod.fst) (f : Option α → α) (back : List (String × α)) :
    alterEntries key f (front ++ back) = front ++ alterEntries key f back := by
  induction front with
  | nil => rfl
  | cons head rest ih =>
    rw [List.map_cons, List.mem_cons, not_or] at h
    rw [List.cons_append, alterEntries, if_neg (Ne.symm h.1), ih h.2]
    rfl

namespace OrderedMap

variable {α : Type}

/-- **The entries before and after an alteration differ in the entry of the key
alone**: `alter` keeps what is in front and behind, and a new key has nothing
behind it. -/
theorem entries_alter (m : OrderedMap α) (key : String) (f : Option α → α) :
    ∃ front back,
      m.entries = front ++ m.entry key ++ back ∧
      (m.alter key f).entries = front ++ (m.alter key f).entry key ++ back ∧
      (m.get? key = none → back = []) := by
  obtain ⟨front, back, hentries, halter, hnew⟩ := alterEntries_eq_append key f m.entries
  refine ⟨front, back, hentries, ?_, hnew⟩
  rw [entry_of_get? (get?_alter_self m key f)]
  exact halter

/-- `alter` puts a new key at the end, with what `f` makes of nothing. -/
theorem entries_alter_of_not_mem {m : OrderedMap α} {key : String} (h : key ∉ m.keys)
    (f : Option α → α) : (m.alter key f).entries = m.entries ++ [(key, f none)] := by
  have halter : alterEntries key f (m.entries ++ []) = _ := alterEntries_append h f []
  rw [List.append_nil] at halter
  exact halter

/-- `insert` puts keys that are new and differ one behind the other. Induction
on the pairs. -/
theorem entries_foldl_insert {m : OrderedMap α} {pairs : List (String × α)}
    (h : (m.keys ++ pairs.map Prod.fst).Nodup) :
    (pairs.foldl (fun m (pair : String × α) => m.insert pair.1 pair.2) m).entries =
      m.entries ++ pairs := by
  induction pairs generalizing m with
  | nil => simp
  | cons pair rest ih =>
    have hnew : pair.1 ∉ m.keys := fun hmem =>
      (List.nodup_append.mp h).2.2 pair.1 hmem pair.1 (by simp) rfl
    have hkeys : (m.insert pair.1 pair.2).keys = m.keys ++ [pair.1] := by
      rw [insert, keys_alter, if_neg hnew]
    rw [List.foldl_cons, ih (by rw [hkeys]; simpa using h), insert, entries_alter_of_not_mem hnew]
    simp

theorem entries_ofList {pairs : List (String × α)} (h : (pairs.map Prod.fst).Nodup) :
    (ofList pairs).entries = pairs :=
  entries_foldl_insert (m := empty) h

theorem ofList_entries (m : OrderedMap α) : ofList m.entries = m :=
  ext (entries_ofList m.nodup_keys)

theorem mem_of_get? {m : OrderedMap α} {key : String} {value : α} (h : m.get? key = some value) :
    (key, value) ∈ m.entries := by
  obtain ⟨front, back, hentries, -⟩ := List.lookup_eq_some_iff.mp h
  rw [hentries]
  exact List.mem_append_right _ List.mem_cons_self

theorem ofList_append_singleton (front : List (String × α)) (pair : String × α) :
    ofList (front ++ [pair]) = (ofList front).insert pair.1 pair.2 := by
  rw [ofList, List.foldl_append]
  rfl

/-- The keys of `ofList` stand in the order in which they first come. Induction
on the pairs from the last one, each being an insertion. -/
theorem keys_ofList (pairs : List (String × α)) :
    (ofList pairs).keys = (pairs.map Prod.fst).eraseDups := by
  induction pairs using List.reverseRecOn with
  | nil => rfl
  | append_singleton front pair ih =>
    rw [ofList_append_singleton, insert, keys_alter, ih, List.map_append, List.map_singleton,
      eraseDups_append_singleton]
    simp only [List.mem_eraseDups]

/-- A key of `ofList` has the value that comes last, whatever stands before it.
Induction on the pairs from the last one. -/
theorem get?_ofList (pairs : List (String × α)) (key : String) :
    (ofList pairs).get? key = pairs.reverse.lookup key := by
  induction pairs using List.reverseRecOn with
  | nil => rfl
  | append_singleton front pair ih =>
    rw [ofList_append_singleton, insert, List.reverse_append, List.reverse_singleton,
      List.singleton_append]
    by_cases hkey : key = pair.1
    · rw [hkey, get?_alter_self, List.lookup_cons, beq_self_eq_true]
    · rw [get?_alter_of_ne _ _ hkey, lookup_cons_of_ne hkey, ih]

end OrderedMap

end ListQuery
