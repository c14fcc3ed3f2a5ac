/-!
# What makes two locations one

Liveness can tell locations apart by the value that points to them, or by the name of their slot
only, so that two slots of one name are one location.
-/

namespace Dataflow

/-- How liveness tells locations apart. -/
inductive Identity where
  /-- Every value is a location of its own. -/
  | value
  /-- Slots of one name are one location, and nothing else is a location. -/
  | name
deriving DecidableEq, Repr

namespace Identity

/-- Both, in order. -/
def all : List Identity := [.value, .name]

/-- The main spelling. -/
def text : Identity → String
  | .value => "value"
  | .name => "name"

/-- Every spelling that is understood; the main one comes first. -/
def spellings : Identity → List String
  | .value => ["value"]
  | .name => ["name", "named"]

/-- The identity of this spelling, letter for letter. -/
def ofText? (text : String) : Option Identity :=
  all.find? fun i => i.spellings.contains text

end Identity

end Dataflow
