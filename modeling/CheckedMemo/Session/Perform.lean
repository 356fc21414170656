import CheckedMemo.Session.Configuration
import CheckedMemo.Session.Creation
import CheckedMemo.Session.Inspection
import CheckedMemo.Session.Tables
import CheckedMemo.Session.Views

/-!
# Performing commands

Every command gives a value or a fault at once, without running code of the program.
-/

namespace CheckedMemo.Session

/-- Performs a command. -/
def perform (s : Session) : Command → Except Fault Value × Session
  | .memory c => s.onMemory (·.run c)
  | .inspect i => s.inspect i
  | .view c => s.view c
  | .create c => (.ok .null, s.create c)
  | .table c => s.table c
  | .settings c => s.settings c
  | .mark v => s.mark v
  | .spell v => ((s.request v).spelled.map fun key => .text key.text, s)

end CheckedMemo.Session
