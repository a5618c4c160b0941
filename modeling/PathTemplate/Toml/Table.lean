import PathTemplate.Json.Value

/-!
The tables of a TOML document while it is read. How a table came about decides how it may grow:
a header may name a table that exists only because something below it was named, and dotted keys
may enter only such tables or tables that dotted keys made.
-/
namespace PathTemplate.Toml

inductive Origin
  /-- Named on the way to something below it by a header. -/
  | implied
  /-- Made by a dotted key. -/
  | dotted
  /-- Named by a header of its own. -/
  | defined
  deriving DecidableEq, Repr

inductive Node
  | leaf (v : Json)
  | table (origin : Origin) (entries : List (Text × Node))
  /-- An array of tables, latest first. -/
  | tables (ts : List (List (Text × Node)))

abbrev Entries := List (Text × Node)

/-- Replaces the entry of that name, or adds one at the end. -/
def change (name : Text) (f : Option Node → Option Node) : Entries → Option Entries
  | [] => (f none).map fun n => [(name, n)]
  | (k, n) :: es =>
    if k = name then (f (some n)).map fun n => (k, n) :: es
    else (change name f es).map ((k, n) :: ·)

/-- Changes the table at the end of a path, making the tables on the way that do not exist. -/
def within (dots : Bool) (f : Origin → Entries → Option Entries) :
    List Text → Origin → Entries → Option Entries
  | [], o, es => f o es
  | k :: ks, _, es =>
    let fresh := if dots then Origin.dotted else Origin.implied
    change k (fun
      | none => (within dots f ks fresh []).map (.table fresh)
      | some (.leaf _) => none
      | some (.tables []) => none
      | some (.tables (t :: ts)) => (within dots f ks .defined t).map fun t => .tables (t :: ts)
      | some (.table o es) =>
        if dots && o = .defined then none else (within dots f ks o es).map (.table o)) es

/-- Enters a key with its value into the current table. -/
def enter (key : List Text) (v : Json) (o : Origin) (es : Entries) : Option Entries :=
  let path := key.dropLast
  match key.getLast? with
  | none => none
  | some k =>
    within true (fun o es =>
      if (o = .dotted) = path.isEmpty then none
      else change k (fun
        | none => some (.leaf v)
        | some _ => none) es) path o es

/-- Makes the table that a header names. -/
def openTable (path : List Text) (root : Entries) : Option Entries :=
  match path.getLast? with
  | none => none
  | some k =>
    within false (fun _ es => change k (fun
      | none => some (.table .defined [])
      | some (.table .implied es) => some (.table .defined es)
      | some _ => none) es) path.dropLast .defined root

/-- Adds a table to the array that a header in double brackets names. -/
def openElement (path : List Text) (root : Entries) : Option Entries :=
  match path.getLast? with
  | none => none
  | some k =>
    within false (fun _ es => change k (fun
      | none => some (.tables [[]])
      | some (.tables ts) => some (.tables ([] :: ts))
      | some _ => none) es) path.dropLast .defined root

/-- Enters a key below the table that the last header named. -/
def enterAt (path key : List Text) (v : Json) (root : Entries) : Option Entries :=
  within false (enter key v) path .defined root

mutual

def Node.toJson : Node → Json
  | .leaf v => v
  | .table _ es => .obj (entriesToJson es)
  | .tables ts => .arr (tablesToJson ts).reverse

def entriesToJson : List (Text × Node) → List (Text × Json)
  | [] => []
  | (k, n) :: es => (k, n.toJson) :: entriesToJson es

def tablesToJson : List (List (Text × Node)) → List Json
  | [] => []
  | es :: ts => .obj (entriesToJson es) :: tablesToJson ts

end

end PathTemplate.Toml
