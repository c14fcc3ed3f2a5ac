import Dataflow.Identity
import Dataflow.Liveness.Sweep

/-!
# Plans

A plan says which analyses to run and in which order, how liveness tells locations apart, and how
many sweeps it may take.  Analyses are looked up by name; the name of liveness depends on the
identity.

The choices a plan offers have names, which are read in two ways: in a plan every spelling is
understood, letter for letter; as an option on a command line only the main one is, on request
without regard to the case of ASCII letters.
-/

namespace Dataflow

/-- A kind of analysis that a plan can ask for. -/
inductive PassKind where
  | valueNumbering
  | liveness
deriving DecidableEq, Repr

namespace PassKind

/-- Both, in order. -/
def all : List PassKind := [.valueNumbering, .liveness]

/-- The spelling. -/
def text : PassKind → String
  | .valueNumbering => "value-numbering"
  | .liveness => "liveness"

/-- The kind of this spelling, letter for letter. -/
def ofText? (text : String) : Option PassKind := all.find? fun k => k.text == text

/-- The name of the analysis to run, under an identity. -/
def passName (k : PassKind) (identity : Identity) : String :=
  match k, identity with
  | .valueNumbering, _ => "value-numbering"
  | .liveness, .value => "liveness"
  | .liveness, .name => "liveness-names"

end PassKind

/-! ## Choosing by name -/

/-- Why a text does not name a choice. -/
inductive ChoiceError where
  /-- No spelling fits. -/
  | noMatch
  /-- As an option, the text is not a name. -/
  | invalidOption (text : String)
deriving DecidableEq, Repr

/-- The wording. -/
def ChoiceError.message : ChoiceError → String
  | .noMatch => "Matching variant not found"
  | .invalidOption text => "invalid variant: " ++ text

/-- A choice, or the complaint that nothing fits. -/
def ChoiceError.require {α : Type} : Option α → Except ChoiceError α
  | some a => .ok a
  | none => .error .noMatch

/-- Whether two texts are equal, on request without regard to the case of ASCII letters. -/
def sameOption (ignoreCase : Bool) (s t : String) : Bool :=
  if ignoreCase then s.toList.map Char.toLower == t.toList.map Char.toLower else s == t

/-- Reads an option: the first choice whose main name fits. -/
def chooseOption {α : Type} (choices : List α) (name : α → String) (ignoreCase : Bool)
    (text : String) : Except ChoiceError α :=
  match choices.find? fun a => sameOption ignoreCase (name a) text with
  | some a => .ok a
  | none => .error (.invalidOption text)

/-! ## Plans -/

/-- What to run. -/
structure Plan where
  /-- The analyses in order; one may be asked for several times. -/
  passes : List PassKind := [.valueNumbering, .liveness]
  identity : Identity := .value
  /-- The limit on sweeps, if there is one. -/
  cap : Option SweepCap := none
deriving DecidableEq, Repr

namespace Plan

/-- A plan of these analyses, otherwise as by default. -/
def only (passes : List PassKind) : Plan := { passes := passes }

/-- Whether the plan asks for a kind of analysis. -/
def runs (p : Plan) (k : PassKind) : Bool := p.passes.contains k

/-- The names of the analyses to run, in order. -/
def passNames (p : Plan) : List String := p.passes.map fun k => k.passName p.identity

end Plan

end Dataflow
