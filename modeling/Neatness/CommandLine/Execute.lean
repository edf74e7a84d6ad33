import Neatness.CommandLine.Batch
import Neatness.CommandLine.Init

/-!
# Running a command

A command is run on a disk and leaves a disk behind, with everything that it has written.  Watching
goes on for ever, so it is left to the caller (`WatchLoop`).
-/

namespace Neatness
namespace CommandLine

def versionText : String :=
  "grade-guardian 0.4.0"

def usageText : String :=
  "Usage: grade-guardian [OPTIONS] <PATH>\n       grade-guardian init [OPTIONS]"

/-- Run a command that ends by itself. -/
def execute (d : Disk) : Command → Disk × Outcome
  | .scan r => (d, run d r)
  | .init r => init d r
  | .version => (d, { out := [.plain (versionText ++ "\n")], exit := 0 })
  | .help => (d, { out := [.plain (usageText ++ "\n")], exit := 0 })

/-- The command writes in colours, where the terminal has them. -/
def usesColors : Command → Bool
  | .scan r => !r.noColor
  | _ => true

end CommandLine
end Neatness
