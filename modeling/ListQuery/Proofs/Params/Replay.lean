import ListQuery.Proofs.Plan.Change

/-!
# Changes in a row

Parameters after any number of changes, said from the changes alone, without the
map that they were made in.

* **`keys_replay`** — the keys stand in the order in which they first came in.
* **`get?_replay`** — the crux: while nothing is inserted for a key, the strings
  appended for it are behind what it held at first (`Argument.grown`), whatever
  happens to other keys in between.
* **`get?_replay_insert`** — what is inserted counts instead of everything
  before it.
* **`get?_ofPairs`**, **`keys_ofPairs`** — the same for strings that are given
  one after the other: a key holds those that are given for it.
-/

namespace ListQuery

/-! ## Appending to an argument -/

namespace Argument

/-- What a new key holds when it is given strings one after the other: `one`
string if there is one, and `many` otherwise. No strings are a list here, though
such a key is not in the map. -/
def collected : List String → Argument
  | [text] => .one text
  | texts => .many texts

/-- What a key that holds an argument, or none, holds when strings have been
appended for it. A key that holds nothing and gets nothing stays without a
value. -/
def grown : Option Argument → List String → Option Argument
  | held, [] => held
  | none, texts => some (collected texts)
  | some argument, texts => some (.many (argument.texts ++ texts))

example : grown none ["a"] = some (.one "a") := rfl
example : grown (some (.one "a")) ["b"] = some (.many ["a", "b"]) := rfl
example : grown (some (.many [])) ["a"] = some (.many ["a"]) := rfl

theorem grown_cons_none (text : String) (texts : List String) :
    grown (some (.one text)) texts = grown none (text :: texts) := by
  cases texts <;> rfl

/-- For `grown` a string more for a key that holds something goes behind it.
Whether that was a list before does not matter. -/
theorem grown_cons_some (argument : Argument) (text : String) (texts : List String) :
    grown (some (argument.push text)) texts = grown (some argument) (text :: texts) := by
  cases texts with
  | nil => rfl
  | cons next rest => simp [grown, texts_push]

/-- `grown` of what a key holds is `push` of the strings one after the other.
Induction on the strings. -/
theorem grown_eq_foldl_push (argument : Argument) (texts : List String) :
    grown (some argument) texts = some (texts.foldl push argument) := by
  induction texts generalizing argument with
  | nil => rfl
  | cons text rest ih => rw [← grown_cons_some, ih, List.foldl_cons]

/-- `push` makes of a single string and others what is `collected` from all of
them. -/
theorem foldl_push_one (text : String) (texts : List String) :
    texts.foldl push (.one text) = collected (text :: texts) := by
  rw [← Option.some_inj, ← grown_eq_foldl_push, grown_cons_none]
  rfl

theorem texts_collected (texts : List String) : (collected texts).texts = texts := by
  match texts with
  | [] => rfl
  | [_] => rfl
  | _ :: _ :: _ => rfl

end Argument

namespace Params

/-! ## Replaying changes -/

/-- The parameters after changes, each by `change` to a key, the first one
first. -/
def replay (params : Params) (changes : List (String × Change)) : Params :=
  changes.foldl (fun params entry => params.change entry.1 entry.2) params

/-- The strings that changes append for a key, in order. Changes to other keys
count for nothing. -/
def appended (key : String) (changes : List (String × Change)) : List String :=
  changes.filterMap fun
    | (k, .append text) => if k = key then some text else none
    | (_, .insert _) => none

/-- `NotInserted key changes` says that no change inserts anything for the key.
What the key holds then is determined by the strings that are `appended` for
it. -/
def NotInserted (key : String) (changes : List (String × Change)) : Prop :=
  ∀ argument, (key, .insert argument) ∉ changes

theorem replay_append (params : Params) (front back : List (String × Change)) :
    params.replay (front ++ back) = (params.replay front).replay back :=
  List.foldl_append

/-- `change` adds its key behind the others if it is new, and none else. Which
change it is has no say in this. -/
theorem keys_change (params : Params) (key : String) (c : Change) :
    (params.change key c).keys =
      if key ∈ params.keys then params.keys else params.keys ++ [key] := by
  obtain ⟨f, hf⟩ := params.exists_change_eq_alter key c
  rw [hf, OrderedMap.keys_alter]

theorem get?_change_of_ne (params : Params) {key other : String} (c : Change) (h : other ≠ key) :
    (params.change key c).get? other = params.get? other := by
  obtain ⟨f, hf⟩ := params.exists_change_eq_alter key c
  rw [hf, OrderedMap.get?_alter_of_ne _ _ h]

/-- The keys of `replay` stand in the order in which they first came in: those
of the start, and then those of the changes. Induction on the changes. -/
theorem keys_replay (params : Params) (changes : List (String × Change)) :
    (params.replay changes).keys = (params.keys ++ changes.map Prod.fst).eraseDups := by
  induction changes generalizing params with
  | nil =>
    have hnodup : params.keys.Nodup := params.nodup_keys
    rw [List.map_nil, List.append_nil, eraseDups_of_nodup hnodup]
    rfl
  | cons entry rest ih =>
    obtain ⟨key, c⟩ := entry
    have hkeys := ih (params.change key c)
    rw [keys_change] at hkeys
    -- a key that is there already adds nothing to the list without repetitions
    split at hkeys
    · next hkey =>
      rw [List.map_cons, eraseDups_append_cons_of_mem hkey]
      exact hkeys
    · rw [List.map_cons, List.append_cons]
      exact hkeys

/-- `replay` leaves a key for which nothing is inserted what it held, with the
`appended` strings behind it. Induction on the changes. -/
theorem get?_replay (params : Params) {key : String} {changes : List (String × Change)}
    (h : NotInserted key changes) :
    (params.replay changes).get? key =
      Argument.grown (params.get? key) (appended key changes) := by
  induction changes generalizing params with
  | nil => cases hget : params.get? key <;> simp [replay, appended, hget, Argument.grown]
  | cons entry rest ih =>
    obtain ⟨k, c⟩ := entry
    have hrest : NotInserted key rest := fun argument hmem =>
      h argument (List.mem_cons_of_mem _ hmem)
    have hstep := ih (params.change k c) hrest
    by_cases hk : k = key
    · subst hk
      cases c with
      | insert argument => exact absurd List.mem_cons_self (h argument)
      | append text =>
        have happended : appended k ((k, .append text) :: rest) = text :: appended k rest := by
          simp [appended]
        have hget : (params.change k (.append text)).get? k = _ :=
          OrderedMap.get?_alter_self params k _
        rw [hget] at hstep
        rw [happended]
        -- the string begins what the key holds, or goes behind it
        cases hheld : params.get? k with
        | none =>
          rw [hheld] at hstep
          exact hstep.trans (Argument.grown_cons_none text _)
        | some argument =>
          rw [hheld] at hstep
          exact hstep.trans (Argument.grown_cons_some argument text _)
    · -- another key is changed
      have happended : appended key ((k, c) :: rest) = appended key rest := by
        cases c <;> simp [appended, hk]
      rw [get?_change_of_ne _ _ (Ne.symm hk)] at hstep
      rw [happended]
      exact hstep

/-- `replay` gives a key what is inserted last for it, with the strings behind
it that are `appended` later. What the changes before it did to the key is
gone. -/
theorem get?_replay_insert (params : Params) {key : String} {front back : List (String × Change)}
    (argument : Argument) (h : NotInserted key back) :
    (params.replay (front ++ (key, .insert argument) :: back)).get? key =
      Argument.grown (some argument) (appended key back) := by
  have hinsert : ((params.replay front).change key (.insert argument)).get? key = some argument :=
    OrderedMap.get?_alter_self _ key _
  rw [replay_append, ← hinsert, ← get?_replay _ h]
  rfl

/-! ## Strings one after the other -/

/-- The strings that pairs give for a key, in order. A key that no pair has is
given none. -/
def textsFor (key : String) (pairs : List (String × String)) : List String :=
  (pairs.filter fun pair => pair.1 == key).map Prod.snd

/-- The changes that `append` the strings of the pairs, one for each pair. -/
def appends (pairs : List (String × String)) : List (String × Change) :=
  pairs.map fun pair => (pair.1, .append pair.2)

/-- `ofPairs`, which gives strings one after the other, is `replay` of appends
from nothing. -/
theorem ofPairs_eq_replay (pairs : List (String × String)) :
    ofPairs pairs = replay OrderedMap.empty (appends pairs) := by
  rw [replay, appends, List.foldl_map]
  rfl

theorem notInserted_appends (key : String) (pairs : List (String × String)) :
    NotInserted key (appends pairs) := by
  intro argument h
  obtain ⟨pair, _, heq⟩ := List.mem_map.mp h
  exact absurd (congrArg Prod.snd heq) (by nofun)

theorem appended_appends (key : String) (pairs : List (String × String)) :
    appended key (appends pairs) = textsFor key pairs := by
  induction pairs with
  | nil => rfl
  | cons pair rest ih =>
    rw [textsFor] at ih ⊢
    show appended key ((pair.1, .append pair.2) :: appends rest) = _
    by_cases hkey : pair.1 = key
    · rw [List.filter_cons_of_pos (by simpa using hkey), List.map_cons, ← ih]
      simp [appended, hkey]
    · rw [List.filter_cons_of_neg (by simpa using hkey), ← ih]
      simp [appended, hkey]

/-- A key of `ofPairs` holds the strings that are given for it, whatever stands
between them. -/
theorem get?_ofPairs (pairs : List (String × String)) (key : String) :
    (ofPairs pairs).get? key = Argument.grown none (textsFor key pairs) := by
  rw [ofPairs_eq_replay, get?_replay _ (notInserted_appends key pairs), appended_appends]
  rfl

/-- `last?` for a key of `ofPairs` is the last string that is given for it,
since the strings are kept in order. -/
theorem last?_ofPairs (pairs : List (String × String)) (key : String) :
    (ofPairs pairs).last? key = (textsFor key pairs).getLast? := by
  rw [last?, get?_ofPairs]
  cases htexts : textsFor key pairs with
  | nil => rfl
  | cons text rest =>
    show (Argument.collected (text :: rest)).last? = _
    rw [Argument.last?, Argument.texts_collected]

theorem keys_ofPairs (pairs : List (String × String)) :
    (ofPairs pairs).keys = (pairs.map Prod.fst).eraseDups := by
  have hkeys : (appends pairs).map Prod.fst = pairs.map Prod.fst := by
    rw [appends, List.map_map]
    rfl
  rw [ofPairs_eq_replay, keys_replay, hkeys]
  rfl

end Params

end ListQuery
