import PathTemplate.Number.Decimal

/-!
Values of the data format JSON. Numbers are integers of at most 64 bits or doubles, and the
members of an object are in the order in which they are written.
-/
namespace PathTemplate

inductive Json
  | null
  | bool (b : Bool)
  | int (i : Int)
  | real (negative : Bool) (b : Number.Binary)
  | str (t : Text)
  | arr (vs : List Json)
  | obj (ms : List (Text × Json))

namespace Json

/-- Puts a member where its name belongs; a member of that name is replaced. -/
def insertMember (name : Text) (v : Json) : List (Text × Json) → List (Text × Json)
  | [] => [(name, v)]
  | (n, w) :: ms =>
    if name = n then (name, v) :: ms
    else if name < n then (name, v) :: (n, w) :: ms
    else (n, w) :: insertMember name v ms

/-- Members in the order of their names, the last of each name. -/
def sortedMembers (ms : List (Text × Json)) : List (Text × Json) :=
  ms.foldl (fun acc m => insertMember m.1 m.2 acc) []

def field? (ms : List (Text × Json)) (name : String) : Option Json := ms.lookup name.toList

def ofString (s : String) : Json := str s.toList

def ofChar (c : Char) : Json := str [c]

end Json

end PathTemplate
