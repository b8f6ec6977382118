/-
Log events as data.

Operations that have something to tell besides their result return or record events.  What is
done with them, printing included, is up to whoever runs the operation.
-/

namespace FieldStore

/-- How serious an event is. -/
inductive Level
  | warn
  | error
  deriving DecidableEq, Repr

/-- The name of a level. -/
def Level.text : Level → String
  | .warn => "WARN"
  | .error => "ERROR"

/-- Something worth reporting, with named particulars. -/
structure Event where
  level : Level
  message : String
  fields : List (String × String)
  deriving DecidableEq

end FieldStore
