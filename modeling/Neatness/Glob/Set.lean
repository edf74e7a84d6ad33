import Neatness.Glob.Match

/-!
# Sets of globs

Several patterns together; a path is selected when one of them selects it.
-/

namespace Neatness
namespace Glob

/-- A set of patterns. -/
structure PatternSet where
  patterns : List (List Token) := []
deriving Repr

namespace PatternSet

/-- The set of some texts, or the first text that is no pattern. -/
def ofTexts : List String → Except String PatternSet
  | [] => .ok {}
  | text :: texts =>
    match read text with
    | .error _ => .error text
    | .ok pattern =>
      match ofTexts texts with
      | .error e => .error e
      | .ok set => .ok ⟨pattern :: set.patterns⟩

def contains (s : PatternSet) (p : Path) : Bool :=
  s.patterns.any (selects · p)

end PatternSet
end Glob
end Neatness
