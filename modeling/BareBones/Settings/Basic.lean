/-
The settings of a run.
-/

namespace BareBones

/-- How snapshots of the variables are written. -/
inductive SnapshotFormat where
  | text
  | json
  deriving DecidableEq, Repr

/-- The settings of a run. -/
structure Settings where
  /-- Publish the variables before the run, after each statement and after the run. -/
  verbose : Bool := false
  snapshotFormat : SnapshotFormat := .text
  /-- How many calls may lie inside each other. -/
  maxCallDepth : Nat := 100
  /-- May functions hold conditionals? -/
  conditionalsInFunctions : Bool := true
  deriving DecidableEq, Repr

end BareBones
