import ListQuery.Params.Document
import ListQuery.Params.QueryText
import ListQuery.Plan

/-!
# Sessions

A session works on the parameters of one query, step by step. A step gives an
answer and the parameters that are left after it; steps that only look leave
them as they are, and so does a load that fails.
-/

namespace ListQuery

/-- Where parameters come from: a `Step.load` takes one of these. -/
inductive Source where
  | queryText (text : String)
  | document (json : Json)
  | entries (pairs : List (String × Argument))

/-- The parameters that a source gives. A text and a document can be refused,
and entries cannot: they are typed already. -/
def Source.load : Source → Except Params.Error Params
  | .queryText text => Params.ofQueryText text
  | .document json => Params.ofJson json
  | .entries pairs => .ok (OrderedMap.ofList pairs)

namespace Session

/-- A step of a session. -/
inductive Step where
  | clear
  | load (source : Source)
  | insert (key : String) (argument : Argument)
  | append (key text : String)
  | get (key : String)
  | last (key : String)
  | size
  | isEmpty
  | plan

inductive Answer where
  | done
  | failed (error : Params.Error)
  | argument (argument : Option Argument)
  | last (text : Option String)
  | size (keys : Nat)
  | isEmpty (answer : Bool)
  | plan (plan : Plan)

/-- The answer to a step and the parameters after it. The steps that only look
come last, and return what they were given; a plan is made with
`Defaults.standard`. -/
def step (params : Params) : Step → Answer × Params
  | .clear => (.done, OrderedMap.empty)
  | .load source =>
    match source.load with
    | .ok loaded => (.done, loaded)
    | .error error => (.failed error, params)
  | .insert key argument => (.done, params.insert key argument)
  | .append key text => (.done, params.append key text)
  | .get key => (.argument (params.get? key), params)
  | .last key => (.last (params.last? key), params)
  | .size => (.size params.size, params)
  | .isEmpty => (.isEmpty params.isEmpty, params)
  | .plan => (.plan (.ofParams .standard params), params)

/-- The answers to the steps of a session, each with the parameters after it. A
`step` starts from what the one before it has left. -/
def run (params : Params) : List Step → List (Answer × Params)
  | [] => []
  | next :: rest =>
    let (answer, after) := step params next
    (answer, after) :: run after rest

end Session

end ListQuery
