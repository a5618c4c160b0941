import PathTemplate.Expression.Compiled
import PathTemplate.Rendering.Error
import PathTemplate.Rendering.Params
import PathTemplate.Template.Tokens

/-!
Renderers write paths from values. Each parameter has a validator, and every encoded value must
match it from end to end before it is written.
-/
namespace PathTemplate.Rendering

open Expression

/-- A part of a renderer: a token, with the validator of a parameter. -/
inductive Part
  | literal (t : Text)
  | parameter (p : Parameter) (validator : Compiled)
  deriving DecidableEq, Repr

def Part.token : Part → Token
  | literal t => .literal t
  | parameter p _ => .parameter p

structure Renderer where
  parts : List Part
  encoder : Encoder

/-- The pattern of a parameter, held to the whole of a segment. -/
def validatorSource (p : Parameter) : Text := "^(?:".toList ++ p.pattern ++ ")$".toList

def validator (p : Parameter) : Except InvalidPattern Compiled :=
  match Compiled.read .segment (validatorSource p) with
  | some c => .ok c
  | none => .error ⟨p.name, p.pattern⟩

def accepts (c : Compiled) (segment : Text) : Bool := c.find segment matches .found _

def Part.ofToken : Token → Except InvalidPattern Part
  | .literal t => .ok (.literal t)
  | .parameter p => (validator p).map (.parameter p)

/-- The parts of the tokens, or the first pattern that cannot be read. -/
def partsOf : List Token → Except InvalidPattern (List Part)
  | [] => .ok []
  | t :: ts =>
    match Part.ofToken t with
    | .error e => .error e
    | .ok p => (partsOf ts).map (p :: ·)

/-- The values of a sequence after the first, or after none, each with what stands before it. -/
def renderElements (p : Parameter) (c : Compiled) (encode : Encoder) (before : Text) :
    List Text → Except RenderError Text
  | [] => .ok []
  | v :: vs =>
    let segment := encode v p
    if accepts c segment then
      (renderElements p c encode [p.delimiter] vs).map (before ++ segment ++ ·)
    else .error (.sequenceMismatch p.name p.pattern segment)

def renderSequence (p : Parameter) (c : Compiled) (encode : Encoder) (vs : List Text) :
    Except RenderError Text :=
  if !p.repeats then .error (.unexpectedSequence p.name)
  else if vs.isEmpty then if p.optional then .ok [] else .error (.emptySequence p.name)
  else renderElements p c encode p.leadText vs

def renderScalar (p : Parameter) (c : Compiled) (encode : Encoder) (v : Text) :
    Except RenderError Text :=
  let segment := encode v p
  if accepts c segment then .ok (p.leadText ++ segment)
  else .error (.mismatch p.name p.pattern segment)

def renderParameter (p : Parameter) (c : Compiled) (encode : Encoder) :
    Option ParamValue → Except RenderError Text
  | some (.sequence vs) => renderSequence p c encode vs
  | some (.scalar v) => renderScalar p c encode v
  | none => if p.optional then .ok [] else .error (.missing p.name p.repeats)

def renderPart (encode : Encoder) (data : Params) : Part → Except RenderError Text
  | .literal t => .ok t
  | .parameter p c => renderParameter p c encode (data.lookup p.name)

/-- What each part contributes, in order; the first part that fails decides. -/
def renderParts (encode : Encoder) (data : Params) : List Part → Except RenderError Text
  | [] => .ok []
  | p :: ps =>
    match renderPart encode data p with
    | .error e => .error e
    | .ok t => (renderParts encode data ps).map (t ++ ·)

namespace Renderer

def ofTokens (o : Options) (ts : List Token) : Except InvalidPattern Renderer :=
  (partsOf ts).map (⟨·, o.encode⟩)

def compile (o : Options) (template : Text) : Except InvalidPattern Renderer :=
  ofTokens o (Template.tokens o template)

def tokens (r : Renderer) : List Token := r.parts.map Part.token

/-- Renders with an encoder other than the one the renderer was built with. -/
def renderWith (r : Renderer) (encode : Encoder) (data : Params) : Except RenderError Text :=
  renderParts encode data r.parts

def render (r : Renderer) (data : Params) : Except RenderError Text := r.renderWith r.encoder data

end Renderer

end PathTemplate.Rendering
