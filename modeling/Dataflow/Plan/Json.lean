import Dataflow.Json.Draft
import Dataflow.Plan

/-!
# Plans in JSON

A plan is an object with the members `analyses`, `livenessDomain` and `maxSweeps`, or an array of
them in that order.  What is missing takes its default, and members of other names mean nothing.

There are two readers.  `Plan.ofJson` reads a value: the fields are looked up one after another.
`Plan.ofText` reads a text from front to back and stops at the first mistake, be it that a field is
wrong or repeated or that the text is no JSON; so a wrong field is told of even if the text breaks
off later.
-/

namespace Dataflow

/-! ## Complaints -/

/-- What was found in place of something else. -/
inductive Found where
  | null
  | bool (b : Bool)
  | integer (n : Int)
  | real (x : Float)
  | string (s : String)
  | sequence
  | map

namespace Found

/-- What a view shows. -/
def of {α : Type} : Json.View α → Found
  | .null => .null
  | .bool b => .bool b
  | .number (.natural n) => .integer n
  | .number (.negative n) => .integer (-n)
  | .number (.real x) => .real x
  | .string s => .string s
  | .array _ => .sequence
  | .object => .map

/-- The kind, and the value in backticks or quotes. -/
def text : Found → String
  | .null => "null"
  | .bool b => s!"boolean `{b}`"
  | .integer n => s!"integer `{n}`"
  | .real x => "floating point `" ++ Json.Number.realText x ++ "`"
  | .string s => "string " ++ Text.quote s
  | .sequence => "sequence"
  | .map => "map"

end Found

/-- What is wrong with a plan that is JSON. -/
inductive Complaint where
  /-- A value of another kind was expected. -/
  | wrongType (found : Found) (expected : String)
  /-- The kind is right, but not the value. -/
  | wrongValue (found : Found) (expected : String)
  /-- The array is too long. -/
  | tooLong (length : Nat)
  /-- The text names none of the choices. -/
  | unknownChoice (text : String) (choices : List String)
  /-- A field is given a second time. -/
  | repeatedField (name : String)

/-- The wording of a complaint. -/
def Complaint.message : Complaint → String
  | .wrongType found expected => "invalid type: " ++ found.text ++ ", expected " ++ expected
  | .wrongValue found expected => "invalid value: " ++ found.text ++ ", expected " ++ expected
  | .tooLong length => s!"invalid length {length}, expected fewer elements in array"
  | .unknownChoice text choices =>
    "unknown variant `" ++ text ++ "`, expected "
      ++ " or ".intercalate (choices.map fun c => "`" ++ c ++ "`")
  | .repeatedField name => "duplicate field `" ++ name ++ "`"

/-- Why a plan could not be read. -/
inductive PlanError where
  /-- The text is no JSON. -/
  | malformed
  /-- The JSON is no plan. -/
  | refused (complaint : Complaint)

namespace Plan

/-! ## Fields

The readers of fields are the same for values and drafts: `view` shows the outside of either. -/

section Fields

variable {α : Type} (view : α → Except PlanError (Json.View α))

/-- A kind of analysis. -/
def readPass (a : α) : Except PlanError PassKind := do
  match ← view a with
  | .string s =>
    match PassKind.ofText? s with
    | some k => return k
    | none => throw (.refused (.unknownChoice s (PassKind.all.map PassKind.text)))
  | v => throw (.refused (.wrongType (.of v) "a AnalysisKind string"))

/-- The list of analyses. -/
def readPasses (a : α) : Except PlanError (List PassKind) := do
  match ← view a with
  | .array items => items.mapM (readPass view)
  | v => throw (.refused (.wrongType (.of v) "a sequence"))

/-- The identity. -/
def readIdentity (a : α) : Except PlanError Identity := do
  match ← view a with
  | .string s =>
    match Identity.ofText? s with
    | some i => return i
    | none => throw (.refused (.unknownChoice s (Identity.all.map Identity.text)))
  | v => throw (.refused (.wrongType (.of v) "a LivenessDomain string"))

/-- The limit on sweeps, null for none. -/
def readCap (a : α) : Except PlanError (Option SweepCap) := do
  match ← view a with
  | .null => return none
  | .number (.natural n) =>
    match SweepCap.ofNat? n with
    | some cap => return some cap
    | none => throw (.refused (.wrongValue (.integer n) "a nonzero usize"))
  | .number (.negative n) => throw (.refused (.wrongValue (.integer (-n)) "a nonzero usize"))
  | v => throw (.refused (.wrongType (.of v) "a nonzero usize"))

/-- The fields read so far. -/
structure Fields where
  passes : Option (List PassKind) := none
  identity : Option Identity := none
  cap : Option (Option SweepCap) := none

/-- The plan of these fields; the others take their defaults. -/
def Fields.toPlan (fs : Fields) : Plan where
  passes := fs.passes.getD ({} : Plan).passes
  identity := fs.identity.getD ({} : Plan).identity
  cap := fs.cap.getD ({} : Plan).cap

/-- Fields that may be missing, in their order. -/
def readFields (passes identity cap : Option α) : Except PlanError Fields := do
  let passes ← passes.mapM (readPasses view)
  let identity ← identity.mapM (readIdentity view)
  let cap ← cap.mapM (readCap view)
  return ⟨passes, identity, cap⟩

/-- Fields by position. -/
def readPositions (items : List α) : Except PlanError Fields :=
  readFields view items[0]? items[1]? items[2]?

end Fields

/-! ## Values -/

/-- **Reads a plan** from a JSON value. -/
def ofJson (json : Json) : Except PlanError Plan :=
  let view (j : Json) : Except PlanError (Json.View Json) := .ok j.view
  match json with
  | .object members => do
    let fields ← readFields view (Json.member? members "analyses")
      (Json.member? members "livenessDomain") (Json.member? members "maxSweeps")
    return fields.toPlan
  | .array items => do
    let fields ← readPositions view items
    if items.length ≤ 3 then return fields.toPlan
    else throw (.refused (.tooLong items.length))
  | json => throw (.refused (.wrongType (.of json.view) "struct AnalysisConfig"))

/-- **Writes a plan** as a JSON object. -/
def toJson (p : Plan) : Json :=
  .object [
    ("analyses", .array (p.passes.map fun k => .string k.text)),
    ("livenessDomain", .string p.identity.text),
    ("maxSweeps", match p.cap with
      | some cap => .number (.natural cap.count)
      | none => .null)]

/-! ## Texts -/

/-- The outside of a draft; one without a value is a mistake in the text. -/
def viewDraft (d : Json.Draft) : Except PlanError (Json.View Json.Draft) :=
  match d.view? with
  | some v => .ok v
  | none => throw .malformed

/-- Reads the next member: a known one must not be repeated, and is judged before its value is. -/
def readMember (fs : Fields) (member : Option String × Json.Draft) : Except PlanError Fields := do
  let (name, value) := member
  match name with
  | none => throw .malformed
  | some "analyses" =>
    if fs.passes.isSome then throw (.refused (.repeatedField "analyses"))
    return { fs with passes := some (← readPasses viewDraft value) }
  | some "livenessDomain" =>
    if fs.identity.isSome then throw (.refused (.repeatedField "livenessDomain"))
    return { fs with identity := some (← readIdentity viewDraft value) }
  | some "maxSweeps" =>
    if fs.cap.isSome then throw (.refused (.repeatedField "maxSweeps"))
    return { fs with cap := some (← readCap viewDraft value) }
  | some _ => return fs

/-- Reads a plan from a draft. -/
def ofDraft (draft : Json.Draft) : Except PlanError Plan :=
  match draft with
  | .object members => do
    let fields ← members.foldlM readMember {}
    return fields.toPlan
  | .array items => do
    let fields ← readPositions viewDraft items
    if items.length ≤ 3 then return fields.toPlan else throw .malformed
  | draft => do
    let v ← viewDraft draft
    throw (.refused (.wrongType (.of v) "struct AnalysisConfig"))

/-- **Reads a plan** from JSON text.  What follows the plan is looked at last. -/
def ofText (text : String) : Except PlanError Plan := do
  let (draft, whole) := Json.Draft.ofText text
  let plan ← ofDraft draft
  if whole then return plan else throw .malformed

end Plan

end Dataflow
