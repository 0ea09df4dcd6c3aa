import ListQuery.Proofs.Params.Replay
import ListQuery.Session

/-!
# The history of a session

What a session holds can be told from the steps it has taken. Its history is
where it last started from, empty or loaded, and the changes since then, in
order.

* **`Describes`** — parameters as their history tells them: keys in the order in
  which they first came in, each with what it was last given and the strings
  appended since.
* **`step_replay`** — the step lemma: a step on replayed changes is one change
  more, a new start or nothing.
* **`after_eq_replay`** — the run lemma, by induction on the steps.
* **`getElem?_run`** — the headline: at every step of every session.
-/

namespace ListQuery

open Params (Change NotInserted appended)

/-! ## Where parameters are loaded from -/

/-- `source.Gives changes` says that these changes make the parameters of the
source out of none: a query text appends its strings in order, a document
inserts a value for each of its names, and entries are inserted one after the
other. -/
inductive Source.Gives : Source → List (String × Change) → Prop where
  | queryText {text : String} {pairs : List (String × String)}
      (h : Params.QueryText.pairs text.toList = .ok pairs) :
      Gives (.queryText text) (pairs.map fun pair => (pair.1, .append pair.2))
  | document {members : List (String × Json)} {entries : List (String × Argument)}
      (h : (OrderedMap.ofList members).entries.mapM Params.ofMember = .ok entries) :
      Gives (.document (.object members)) (entries.map fun entry => (entry.1, .insert entry.2))
  | entries (pairs : List (String × Argument)) :
      Gives (.entries pairs) (pairs.map fun pair => (pair.1, .insert pair.2))

theorem ofList_eq_replay (pairs : List (String × Argument)) :
    OrderedMap.ofList pairs =
      Params.replay OrderedMap.empty (pairs.map fun pair => (pair.1, .insert pair.2)) := by
  rw [Params.replay, List.foldl_map]
  rfl

/-- What `Source.load` gives is a `replay` of changes from nothing, so that a
session which loads starts a history of its own. One case for each kind of
source. -/
theorem exists_gives_of_load {source : Source} {loaded : Params} (h : source.load = .ok loaded) :
    ∃ changes, source.Gives changes ∧ loaded = Params.replay OrderedMap.empty changes := by
  cases source with
  | queryText text =>
    rw [Source.load, Params.ofQueryText] at h
    cases hpairs : Params.QueryText.pairs text.toList with
    | error error =>
      rw [hpairs] at h
      cases h
    | ok pairs =>
      rw [hpairs] at h
      cases h
      exact ⟨_, .queryText hpairs, Params.ofPairs_eq_replay pairs⟩
  | document json =>
    cases json with
    | object members =>
      rw [Source.load, Params.ofJson] at h
      cases hentries : (OrderedMap.ofList members).entries.mapM Params.ofMember with
      | error error =>
        rw [hentries] at h
        cases h
      | ok entries =>
        rw [hentries] at h
        cases h
        exact ⟨_, .document hentries, ofList_eq_replay entries⟩
    | _ => cases h
  | entries pairs =>
    cases h
    exact ⟨_, .entries pairs, ofList_eq_replay pairs⟩

namespace Session

/-! ## Histories -/

/-- Where a session last started from, and the changes since. -/
structure History where
  start : Params
  changes : List (String × Change)

namespace History

/-- The history with one step more. `clear` and `load` start it anew; steps that
only look, and a load that fails, leave it as it is. `insert` and `append` are
one change more. -/
def record (history : History) : Step → History
  | .clear => ⟨OrderedMap.empty, []⟩
  | .load source =>
    match source.load with
    | .ok loaded => ⟨loaded, []⟩
    | .error _ => history
  | .insert key argument => ⟨history.start, history.changes ++ [(key, .insert argument)]⟩
  | .append key text => ⟨history.start, history.changes ++ [(key, .append text)]⟩
  | _ => history

/-- The history of a session that starts with no parameters. -/
def ofSteps (steps : List Step) : History := steps.foldl record ⟨OrderedMap.empty, []⟩

/-- The parameters that come of the changes since the start, by
`Params.replay`. -/
def replay (history : History) : Params := history.start.replay history.changes

/-- `history.Describes params` says that these are the parameters which the
history tells: the keys in the order in which they first came in, and for each
of them what it was last given with everything that was appended since. -/
structure Describes (history : History) (params : Params) : Prop where
  nodup : params.keys.Nodup
  /-- The keys stand in the order in which they first came in. -/
  keys : params.keys = (history.start.keys ++ history.changes.map Prod.fst).eraseDups
  /-- A key that was given nothing since the start has what it had then. -/
  started : ∀ key, NotInserted key history.changes →
    params.get? key = Argument.grown (history.start.get? key) (appended key history.changes)
  /-- A key has what it was given last. -/
  inserted : ∀ key front argument back,
    history.changes = front ++ (key, .insert argument) :: back → NotInserted key back →
      params.get? key = Argument.grown (some argument) (appended key back)

/-- What a history comes to is what it tells: the keys by `Params.keys_replay`,
and what they hold by `Params.get?_replay` and `Params.get?_replay_insert`. -/
theorem describes_replay (history : History) : history.Describes history.replay where
  nodup := history.replay.nodup_keys
  keys := Params.keys_replay history.start history.changes
  started := fun _ h => Params.get?_replay history.start h
  inserted := by
    intro key front argument back hsplit hback
    rw [replay, hsplit]
    exact Params.get?_replay_insert history.start argument hback

end History

/-! ## What a step does -/

/-- `SameBut key before after` says that the parameters have the same entries,
in the same order, for all keys but one. So a step on one key can neither change
nor move what other keys have. -/
def SameBut (key : String) (before after : Params) : Prop :=
  (after.entries.filter fun entry => entry.1 != key) =
    before.entries.filter fun entry => entry.1 != key

/-- `next.Effect before after` says what the step makes of parameters: it starts
anew, alters one entry or changes nothing. A load that fails leaves them as they
were, and one that does not is told by its source alone. -/
def Step.Effect (next : Step) (before after : Params) : Prop :=
  match next with
  | .clear => after = OrderedMap.empty
  | .load source =>
    (∀ loaded, source.load = .ok loaded → after = loaded ∧
      ∃ changes, source.Gives changes ∧ (History.mk OrderedMap.empty changes).Describes loaded) ∧
    ∀ error, source.load = .error error → after = before
  | .insert key argument => after.get? key = some argument ∧ SameBut key before after
  | .append key text =>
    (after.get? key =
      match before.get? key with
      | none => some (.one text)
      | some (.one old) => some (.many [old, text])
      | some (.many olds) => some (.many (olds ++ [text]))) ∧
    SameBut key before after
  | _ => after = before

/-- `next.Answers params answer` says what a step that looks at parameters has
to tell of them. It is said through `get?` and the keys, so that it does not
depend on how a map keeps its entries. -/
def Step.Answers (next : Step) (params : Params) (answer : Answer) : Prop :=
  match next with
  | .get key => answer = .argument (params.get? key)
  | .last key => answer = .last ((params.get? key).bind fun argument => argument.texts.getLast?)
  | .size => answer = .size params.keys.length
  | .isEmpty => answer = .isEmpty (decide (params.keys = []))
  | .plan => answer = .plan (.ofParams .standard params)
  | _ => True

/-- `alter` leaves the entries of all other keys as they are, and in their
order. -/
theorem sameBut_alter (params : Params) (key : String) (f : Option Argument → Argument) :
    SameBut key params (params.alter key f) := by
  obtain ⟨front, back, hentries, halter, -⟩ := params.entries_alter key f
  -- the entry that is altered is left out on both sides
  have hentry : ∀ params : Params,
      ((params.entry key).filter fun entry => entry.1 != key) = [] := by
    intro params
    rw [OrderedMap.entry]
    cases params.get? key <;> simp
  rw [SameBut, hentries, halter]
  simp only [List.filter_append, hentry]

/-- Every `step` has its `Effect`, on all parameters. One case for each kind of
step. -/
theorem effect_step (params : Params) (next : Step) : next.Effect params (step params next).2 := by
  cases next with
  | load source =>
    constructor
    · intro loaded h
      obtain ⟨changes, hgives, hloaded⟩ := exists_gives_of_load h
      refine ⟨by simp only [step, h], changes, hgives, ?_⟩
      rw [hloaded]
      exact History.describes_replay ⟨OrderedMap.empty, changes⟩
    · intro error h
      simp only [step, h]
  | insert key argument =>
    exact ⟨OrderedMap.get?_alter_self params key _, sameBut_alter params key _⟩
  | append key text =>
    refine ⟨?_, sameBut_alter params key _⟩
    rw [show (step params (.append key text)).2.get? key = _ from
      OrderedMap.get?_alter_self params key _]
    cases params.get? key with
    | none => rfl
    | some argument => cases argument <;> rfl
  | _ => rfl

/-- Every `step` that looks at parameters `Answers` what there is to tell of
them. -/
theorem answers_step (params : Params) (next : Step) :
    next.Answers params (step params next).1 := by
  cases next with
  | size => exact congrArg Answer.size (List.length_map Prod.fst).symm
  | isEmpty =>
    have hempty : params.isEmpty = decide (params.keys = []) := by
      rw [OrderedMap.isEmpty, OrderedMap.keys, Bool.eq_iff_iff]
      simp
    exact congrArg Answer.isEmpty hempty
  | clear => trivial
  | load source => trivial
  | insert key argument => trivial
  | append key text => trivial
  | _ => rfl

/-! ## Runs -/

/-- The parameters after the steps of a session, whatever it answers. -/
def after (params : Params) (steps : List Step) : Params :=
  steps.foldl (fun params next => (step params next).2) params

/-- **The step lemma**: a `step` on what a history comes to is what the history
comes to once it has `record`ed the step. One case for each kind of step; a load
that fails leaves both as they are. -/
theorem step_replay (history : History) (next : Step) :
    (step history.replay next).2 = (history.record next).replay := by
  cases next with
  | load source =>
    simp only [step, History.record]
    cases source.load <;> rfl
  | insert key argument =>
    exact (Params.replay_append history.start history.changes [(key, .insert argument)]).symm
  | append key text =>
    exact (Params.replay_append history.start history.changes [(key, .append text)]).symm
  | _ => rfl

/-- **The run lemma**: steps on what a history comes to lead to what it comes to
once it has all of them in it. Induction on the steps, by `step_replay`. -/
theorem after_replay (history : History) (steps : List Step) :
    after history.replay steps = (steps.foldl History.record history).replay := by
  induction steps generalizing history with
  | nil => rfl
  | cons next rest ih =>
    rw [after, List.foldl_cons, step_replay]
    exact ih (history.record next)

/-- A session that starts with no parameters comes to what `ofSteps` comes
to. -/
theorem after_eq_replay (steps : List Step) :
    after OrderedMap.empty steps = (History.ofSteps steps).replay :=
  after_replay ⟨OrderedMap.empty, []⟩ steps

/-- `run` gives, for each step, the answer to it on the parameters `after` those
in front of it. Induction on these, from any parameters. -/
theorem run_append_cons (params : Params) (front : List Step) (next : Step) (back : List Step) :
    (run params (front ++ next :: back))[front.length]? =
      some (step (after params front) next) := by
  induction front generalizing params with
  | nil => rfl
  | cons first rest ih => exact ih (step params first).2

/-- **Every step of every session.** `run` gives, at every step, the answer of
that step to the parameters `after` the steps in front of it. The history
`Describes` what these are, and what they are after the step. The step changes
the entry of one key at most (`Effect`), unless it starts anew. -/
theorem getElem?_run (front : List Step) (next : Step) (back : List Step) :
    (run OrderedMap.empty (front ++ next :: back))[front.length]? =
        some (step (after OrderedMap.empty front) next) ∧
      (History.ofSteps front).Describes (after OrderedMap.empty front) ∧
      (History.ofSteps (front ++ [next])).Describes (step (after OrderedMap.empty front) next).2 ∧
      next.Effect (after OrderedMap.empty front) (step (after OrderedMap.empty front) next).2 ∧
      next.Answers (after OrderedMap.empty front) (step (after OrderedMap.empty front) next).1 := by
  have hbefore : (History.ofSteps front).Describes (after OrderedMap.empty front) := by
    rw [after_eq_replay]
    exact History.describes_replay _
  have hafter : (History.ofSteps (front ++ [next])).Describes
      (step (after OrderedMap.empty front) next).2 := by
    rw [after_eq_replay, step_replay, History.ofSteps, List.foldl_append]
    exact History.describes_replay _
  exact ⟨run_append_cons _ front next back, hbefore, hafter, effect_step _ next,
    answers_step _ next⟩

end Session

end ListQuery
