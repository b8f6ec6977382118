/-
The command line: the tour of the library, set up by environment variables.
-/
import FieldStore.Demo

/-- Reads the variables, runs the tour and prints its lines. -/
def main : IO UInt32 := do
  let mut found : List (String × String) := []
  for name in FieldStore.Settings.variableNames do
    if let some value ← IO.getEnv name then
      found := (name, value) :: found
  let report := FieldStore.Demo.run fun name => found.lookup name
  for line in report.output do
    IO.println line
  for line in report.errors do
    IO.eprintln line
  return report.code.toUInt32
