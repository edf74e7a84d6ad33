import Neatness.CommandLine.Args
import Neatness.CommandLine.Outcome
import Neatness.Config.Load
import Neatness.Json.Write

/-!
# A first configuration

`init` writes a configuration that says in full what holds anyway, for its reader to change.  A
configuration that is there already is left alone.
-/

namespace Neatness
namespace CommandLine

def initialConfig (name : String) (preset : Preset) : String :=
  "\x7b\n" ++
  "  \"studentName\": " ++ String.ofList (Json.quote name) ++ ",\n" ++
  "  \"preset\": \"" ++ preset.name ++ "\",\n" ++
  "  \"warnThreshold\": " ++ toString preset.warnThreshold.toNat ++ ",\n" ++
  "  \"exceptPass\": true,\n" ++
  "  \"rules\": \x7b\n" ++
  "    \"absolute-path\": \x7b \"penalty\": 40, \"fatal\": true \x7d,\n" ++
  "    \"deep-indentation\": \"on\"\n" ++
  "  \x7d,\n" ++
  "  \"ignore\": [\n" ++
  "    \"**/node_modules/**\",\n" ++
  "    \"**/target/**\",\n" ++
  "    \"**/*.min.js\"\n" ++
  "  ]\n" ++
  "\x7d\n"

/-- Write a first configuration; the disk is as the run leaves it. -/
def init (d : Disk) (r : InitRequest) : Disk × Outcome :=
  let path := (r.dir.getD d.cwdPath).join Config.fileName
  if d.has path then
    (d, { err := message .yellow "Warning" (path.shown ++
      " already exists; use --dir to write elsewhere or remove it first"), exit := 0 })
  else
    let preset := r.preset.getD .standard
    match d.writeText path (initialConfig (r.name.getD "") preset) with
    | .error e =>
      (d, .failure ("Failed to write config to " ++ path.shown ++ ": " ++ e.message))
    | .ok d =>
      (d, { out := message .boldGreen "Done"
              ("Created " ++ path.shown ++ " with preset=" ++ preset.name), exit := 0 })

end CommandLine
end Neatness
