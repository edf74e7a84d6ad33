import Neatness.Report.Styled

/-!
# What a run writes

Output and messages as fragments, in the order in which they are written, and the exit status.
-/

namespace Neatness
namespace CommandLine

/-- What is written to the output and beside it. -/
structure Output where
  out : List Fragment := []
  err : List Fragment := []
deriving DecidableEq, Repr

namespace Output

def append (a b : Output) : Output :=
  ⟨a.out ++ b.out, a.err ++ b.err⟩

instance : Append Output := ⟨append⟩

end Output

/-- What a run writes, and how it ends. -/
structure Outcome extends Output where
  exit : UInt8
deriving DecidableEq, Repr

/-- A message behind a coloured word. -/
def message (style : Style) (word text : String) : List Fragment :=
  [.styled style word, .plain (": " ++ text ++ "\n")]

/-- A run that ends with an error. -/
def Outcome.failure (text : String) : Outcome :=
  { err := message .boldRed "Error" text, exit := 2 }

end CommandLine
end Neatness
