import PathTemplate.Token

/-!
The values that a path is rendered from, by name. A later value replaces an earlier one.
-/
namespace PathTemplate.Rendering

inductive ParamValue
  | scalar (t : Text)
  | sequence (ts : List Text)
  deriving DecidableEq, Repr

structure Params where
  entries : List (Text × ParamValue) := []
  deriving DecidableEq, Repr

namespace Params

def empty : Params := {}

def get? (ps : Params) (name : Text) : Option ParamValue := ps.entries.lookup name

def insert (ps : Params) (name : Text) (v : ParamValue) : Params :=
  ⟨(name, v) :: ps.entries.filter (·.1 != name)⟩

def insertAll (ps : Params) (vs : List (Text × ParamValue)) : Params :=
  vs.foldl (fun ps nv => ps.insert nv.1 nv.2) ps

def ofList (vs : List (Text × ParamValue)) : Params := empty.insertAll vs

def size (ps : Params) : Nat := ps.entries.length

/-- The value of a parameter, by the text of its name. -/
def lookup (ps : Params) (name : ParamName) : Option ParamValue := ps.get? name.text

theorem get?_insert_self (ps : Params) (name : Text) (v : ParamValue) :
    (ps.insert name v).get? name = some v := by
  simp [get?, insert]

end Params

end PathTemplate.Rendering
