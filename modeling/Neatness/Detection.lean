import Neatness.Rule

/-!
# Detections

What a check reports about a document: the rule that was broken, the byte offset of the first
place where it was, and a message for the author.  Every check reports at most one detection.
-/

namespace Neatness

/-- A broken rule and the place where it was noticed. -/
structure Detection where
  rule : Rule
  /-- Byte offset of the place. -/
  offset : Nat
  message : String
deriving DecidableEq, Repr

end Neatness
