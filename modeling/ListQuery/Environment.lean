import ListQuery.Number.Integer
import ListQuery.OrderedMap
import ListQuery.Text.Lowercase
import ListQuery.Window

/-!
# Defaults from the environment

The default page and the default limit can be set by environment variables,
whose names may be written in any letter case. At most one variable may set each
of them; a value below one counts as one. The first variable that fails, by its
own value or because another one before it sets the same default, fails the
whole.
-/

namespace ListQuery

namespace Defaults

inductive Setting where
  | page
  | limit
  deriving DecidableEq, Repr

/-- The name of the variable for a setting, in lower case. -/
def Setting.variableName : Setting → String
  | .page => "query_builder_default_page"
  | .limit => "query_builder_default_limit"

/-- The setting whose `variableName` is `name`, in lower case. -/
def Setting.ofName? (name : String) : Option Setting :=
  [Setting.page, Setting.limit].find? fun setting => setting.variableName == name

/-- The setting that a variable is for, by its name in any letter case. The name
is put through `Text.lowercase` as a whole, with letters beyond ASCII too. -/
def Setting.ofVariable? (name : String) : Option Setting :=
  ofName? (String.ofList (Text.lowercase name.toList))

/-- Why an environment sets no defaults. The two faults stop `read` where they
come up, so there is one of them at most. -/
inductive Error where
  /-- The value of a variable is no 64-bit integer. -/
  | malformed (name value : String) (fault : Number.IntegerFault)
  /-- Two variables are for the same setting. -/
  | duplicate (setting : Setting)
  deriving DecidableEq, Repr

/-- What went wrong, whatever the cause. -/
def Error.message : String := "failed to parse QUERY_BUILDER_* environment variables"

/-- What went wrong, by its cause. -/
def Error.cause : Error → String
  | .malformed name value fault =>
    s!"{fault.message} while parsing value '{value}' provided by {name}"
  | .duplicate setting => s!"duplicate field `{setting.variableName}`"

/-- The settings that variables have made so far. A number is kept as it was
read, and made one at least only by `defaults`. -/
structure Made where
  page : Option Int64
  limit : Option Int64
  deriving DecidableEq, Repr

namespace Made

def get? (made : Made) : Setting → Option Int64
  | .page => made.page
  | .limit => made.limit

def set (made : Made) (number : Int64) : Setting → Made
  | .page => { made with page := some number }
  | .limit => { made with limit := some number }

/-- The settings after one more variable. One that is for none of them changes
nothing; a second one for a setting is a `duplicate` before its value is looked
at. -/
def read (made : Made) (name value : String) : Except Error Made :=
  match Setting.ofVariable? name with
  | none => .ok made
  | some setting =>
    if (made.get? setting).isSome then .error (.duplicate setting)
    else
      match Number.readInt64 value.toList with
      | .ok number => .ok (made.set number setting)
      | .error fault => .error (.malformed name value fault)

/-- The defaults that settings make, with those of `Defaults.standard` for what
is not made. -/
def defaults (made : Made) : Defaults where
  page := (made.page.map (max 1)).getD Defaults.standard.page
  limit := (made.limit.map (max 1)).getD Defaults.standard.limit

end Made

/-- The defaults that an environment sets. A variable that is given twice stands
where it first stood, with its last value; two variables whose names differ in
letter case are two. -/
def ofEnvironment (environment : List (String × String)) : Except Error Defaults :=
  let made := (OrderedMap.ofList environment).entries.foldlM
    (fun (made : Made) (name, value) => made.read name value) ⟨none, none⟩
  made.map Made.defaults

end Defaults

end ListQuery
