import ListQuery.Json
import ListQuery.Number.Numeral
import ListQuery.Params
import ListQuery.Text.Space

/-!
# Windows on a result

A query asks for a page and for a limit on its length, and both default. The
window that they make says how many results to skip and how many to take.
Numbers are 64-bit integers, and where a result is beyond these it is clamped to
their range. The limit `null` asks for all results, without a window.

A window is made of the numbers that are `used`, each of them by what `read`
says about what is given for it.
-/

namespace ListQuery

/-- The page and the limit of a query that asks for none. Nothing is asked of
them here; that both are one at least is for those who read them from
somewhere. -/
structure Defaults where
  page : Int64
  limit : Int64
  deriving DecidableEq, Repr

/-- The page 1, of 10 results. -/
def Defaults.standard : Defaults := ⟨1, 10⟩

/-- How many results to take, and how many to skip before them. -/
structure Window where
  limit : Int64
  skip : Int64
  deriving DecidableEq, Repr

namespace Window

/-! ### Reading a page or a limit -/

/-- What a query says about its page or its limit. Only the last of these gives
a number, and only `malformed` is worth a notice. -/
inductive Reading where
  /-- Nothing, or only white space. -/
  | missing
  /-- Something that is no numeral; this is it, without the white space around
  it. -/
  | malformed (text : String)
  /-- A numeral for infinity, or for a number that is zero when its fraction is
  cut off. -/
  | unusable
  /-- A number; its fraction is cut off. -/
  | usable (number : Int64)
  deriving DecidableEq, Repr

/-- What a text says that is not empty, by the numeral that it is, if it is one.
`truncate?` cuts the fraction off before the number is clamped, and zero asks
for the default. -/
def readingOf (text : List Char) : Option Number.Numeral → Reading
  | none => .malformed (String.ofList text)
  | some numeral =>
    match numeral.value.truncate? with
    | none => .unusable
    | some whole => if whole = 0 then .unusable else .usable (Int64.ofIntClamp whole)

/-- What the string given for a page or a limit says. -/
def read : Option String → Reading
  | none => .missing
  | some string =>
    let text := Text.trim string.toList
    if text.isEmpty then .missing else readingOf text (Number.Numeral.read? text)

/-- The number that a reading gives, with a `default` for those that give
none. -/
def Reading.getD : Reading → Int64 → Int64
  | .usable number, _ => number
  | _, default => default

/-- The number that is used for the page or the limit: the one that the query
gives, or else `default`. It may be negative, since the query may ask for
that. -/
def used (params : Params) (control : Control) (default : Int64) : Int64 :=
  (read (params.control? control)).getD default

/-! ### The window -/

/-- The word for a limit that asks for all results. -/
def unlimited : String := "null"

/-- How many results come before a page: the pages before it times the limit.
The difference and the product are clamped, one after the other. -/
def skipped (page limit : Int64) : Int64 :=
  let pagesBefore := Int64.ofIntClamp (page.toInt - 1)
  Int64.ofIntClamp (pagesBefore.toInt * limit.toInt)

/-- The window that parameters ask for; `none` when the limit is the word
`unlimited`. -/
def ofParams (defaults : Defaults) (params : Params) : Option Window :=
  if params.control? .limit = some unlimited then none
  else
    let page := used params .page defaults.page
    let limit := used params .limit defaults.limit
    some ⟨limit, skipped page limit⟩

/-- `ofParams` as a program, which reads the page and the limit by its own
means, the page first, and runs `without` where there is no window. Run with
nothing to tell it is `ofParams`; the notices come from running it with
something to tell. -/
def ofParamsM {m : Type → Type} [Monad m] (without : m Unit) (read : Control → m Reading)
    (defaults : Defaults) (params : Params) : m (Option Window) :=
  if params.control? .limit = some unlimited then do
    without
    return none
  else do
    let page ← read .page
    let limit ← read .limit
    return some ⟨limit.getD defaults.limit,
      skipped (page.getD defaults.page) (limit.getD defaults.limit)⟩

def toJson (window : Window) : Json :=
  .object [("limit", .integer window.limit.toInt), ("skip", .integer window.skip.toInt)]

end Window

end ListQuery
