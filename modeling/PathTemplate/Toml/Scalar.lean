import PathTemplate.Toml.Text

/-!
Numbers, truth values, dates and times of TOML, each written without blanks; a blank may only
stand between a date and its time.
-/
namespace PathTemplate.Toml

/-- Removes the underscores of a run of digits; each must stand between two digits. -/
def plainDigits (isDigit : Char → Bool) : Text → Option Text
  | [] => none
  | [c] => if isDigit c then some [c] else none
  | c :: '_' :: r => if isDigit c then (plainDigits isDigit r).map (c :: ·) else none
  | c :: r => if isDigit c then (plainDigits isDigit r).map (c :: ·) else none

def inWord (i : Int) : Option Json :=
  if -Int.pow 2 63 ≤ i && i < Int.pow 2 63 then some (.int i) else none

def unsigned (base : Nat) (isDigit : Char → Bool) (t : Text) : Option Json := do
  let ds ← plainDigits isDigit t
  inWord (← Text.number? base ds)

def isHex (c : Char) : Bool := (Text.hexValue? c).isSome

/-- The digits of a whole number, without zeros in front. -/
def wholeDigits (t : Text) : Option Text :=
  match plainDigits Char.isDigit t with
  | some ('0' :: _ :: _) => none
  | r => r

def integer (t : Text) : Option Json :=
  match t with
  | '0' :: 'x' :: r => unsigned 16 isHex r
  | '0' :: 'o' :: r => unsigned 8 (fun c => '0' ≤ c && c ≤ '7') r
  | '0' :: 'b' :: r => unsigned 2 (fun c => c == '0' || c == '1') r
  | t => do
    let (negative, r) := Text.splitSign t
    let n := Text.decimal (← wholeDigits r)
    inWord (if negative then -(n : Int) else n)

/-- Some double. Options hold no such numbers, so that one is written here is all that counts. -/
def someReal : Json := .real false ⟨0, 0⟩

def fractionOk (t : Text) : Bool := (plainDigits Char.isDigit t).isSome

def isExponentMark (c : Char) : Bool := c == 'e' || c == 'E'

def exponentOk (t : Text) : Bool := fractionOk (Text.splitSign t).2

def float (t : Text) : Option Json :=
  let r := (Text.splitSign t).2
  if r == "inf".toList || r == "nan".toList then some someReal
  else
    let (mantissa, e) := r.span (!isExponentMark ·)
    let (whole, frac) := mantissa.span (· != '.')
    let hasPart := !e.isEmpty || !frac.isEmpty
    if hasPart && (wholeDigits whole).isSome && (frac.isEmpty || fractionOk frac.tail) &&
      (e.isEmpty || exponentOk e.tail)
    then some someReal else none

/-- Exactly `n` digits. -/
def fixedNumber (n : Nat) (t : Text) : Option (Nat × Text) :=
  let ds := t.take n
  if ds.length = n && ds.all Char.isDigit
  then some (Text.decimal ds, t.drop n) else none

def isLeap (y : Nat) : Bool := y % 4 == 0 && (y % 100 != 0 || y % 400 == 0)

def daysIn (y m : Nat) : Nat :=
  if m = 2 then if isLeap y then 29 else 28
  else if m = 4 || m = 6 || m = 9 || m = 11 then 30 else 31

def date (t : Text) : Option Text := do
  let (y, r) ← fixedNumber 4 t
  let '-' :: r := r | none
  let (m, r) ← fixedNumber 2 r
  let '-' :: r := r | none
  let (d, r) ← fixedNumber 2 r
  if 1 ≤ m && m ≤ 12 && 1 ≤ d && d ≤ daysIn y m then some r else none

def time (t : Text) : Option Text := do
  let (h, r) ← fixedNumber 2 t
  let ':' :: r := r | none
  let (m, r) ← fixedNumber 2 r
  let ':' :: r := r | none
  let (s, r) ← fixedNumber 2 r
  if 23 < h || 59 < m || 60 < s then none
  else match r with
    | '.' :: r =>
      let (ds, r) := r.span Char.isDigit
      if ds.isEmpty then none else some r
    | r => some r

def zone (t : Text) : Option Text :=
  match t with
  | [] => some []
  | 'Z' :: r => some r
  | 'z' :: r => some r
  | c :: r => do
    if c != '+' && c != '-' then none
    else
      let (h, r) ← fixedNumber 2 r
      let ':' :: r := r | none
      let (m, r) ← fixedNumber 2 r
      if 23 < h || 59 < m then none else some r

/-- Is this a date, a time, or a date with a time and perhaps a zone? -/
def isMoment (t : Text) : Bool :=
  match date t with
  | some [] => true
  | some (c :: r) =>
    (c == 'T' || c == 't' || c == ' ') && ((time r).bind zone).any List.isEmpty
  | none => (time t).any List.isEmpty

/-- A moment is an object of one member whose name no option has. -/
def moment (t : Text) : Json := .obj [("$moment".toList, .str t)]

def isScalarChar (c : Char) : Bool :=
  c.isAlphanum || c == '+' || c == '-' || c == '_' || c == '.' || c == ':'

/-- The characters of a scalar. After a date a blank and two digits go on with a time. -/
def scalarText (t : Text) : Text × Text :=
  let (s, r) := t.span isScalarChar
  match r with
  | ' ' :: a :: b :: ':' :: _ =>
    if (date s).any List.isEmpty && a.isDigit && b.isDigit then
      let (u, r) := r.tail.span isScalarChar
      (s ++ ' ' :: u, r)
    else (s, r)
  | r => (s, r)

def scalar (t : Text) : Option (Json × Text) :=
  let (s, r) := scalarText t
  let v : Option Json :=
    if s == "true".toList then some (.bool true)
    else if s == "false".toList then some (.bool false)
    else if isMoment s then some (moment s)
    else (integer s).or (float s)
  v.map (·, r)

end PathTemplate.Toml
