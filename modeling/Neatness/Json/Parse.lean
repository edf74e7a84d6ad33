import Neatness.Json.Token

/-!
# Reading JSON

`Json.parse` reads a text as one value.  The tokens are read from left to right; the lists and
objects that are still open wait on a stack of frames, the innermost first.
-/

namespace Neatness
namespace Json

/-- A list or object that is not finished. -/
inductive Frame where
  /-- A list with its items so far, last first. -/
  | arr (done : List Json)
  /-- An object with its members so far, last first, and the name whose value is read. -/
  | obj (done : List (Option String × Json)) (name : Option String)
deriving Repr

/-- What may come next. -/
inductive Mode where
  | value
  /-- A value, or the end of the list that has just been opened. -/
  | firstItem
  /-- A name, or the end of the object that has just been opened. -/
  | firstName
  | name (done : List (Option String × Json))
  | colon (done : List (Option String × Json)) (name : Option String)
  | after (value : Json)
deriving Repr

/-- Read the tokens on, with the open lists and objects on the stack. -/
def build : Mode → List Frame → List Token → Option Json
  | .after v, [], [] => some v
  | _, _, [] => none
  | mode, stack, t :: ts =>
    match mode, stack, t with
    | .value, stack, .null => build (.after .null) stack ts
    | .value, stack, .bool b => build (.after (.bool b)) stack ts
    | .value, stack, .num n => build (.after (.num n)) stack ts
    | .value, stack, .str s => build (.after (.str s)) stack ts
    | .value, stack, .openArr => build .firstItem stack ts
    | .value, stack, .openObj => build .firstName stack ts
    | .firstItem, stack, .closeArr => build (.after (.arr [])) stack ts
    | .firstItem, stack, .null => build (.after .null) (.arr [] :: stack) ts
    | .firstItem, stack, .bool b => build (.after (.bool b)) (.arr [] :: stack) ts
    | .firstItem, stack, .num n => build (.after (.num n)) (.arr [] :: stack) ts
    | .firstItem, stack, .str s => build (.after (.str s)) (.arr [] :: stack) ts
    | .firstItem, stack, .openArr => build .firstItem (.arr [] :: stack) ts
    | .firstItem, stack, .openObj => build .firstName (.arr [] :: stack) ts
    | .firstName, stack, .closeObj => build (.after (.obj [])) stack ts
    | .firstName, stack, .str s => build (.colon [] s) stack ts
    | .name done, stack, .str s => build (.colon done s) stack ts
    | .colon done s, stack, .colon => build .value (.obj done s :: stack) ts
    | .after v, .arr done :: stack, .comma => build .value (.arr (v :: done) :: stack) ts
    | .after v, .arr done :: stack, .closeArr =>
      build (.after (.arr ((v :: done).reverse))) stack ts
    | .after v, .obj done s :: stack, .comma => build (.name ((s, v) :: done)) stack ts
    | .after v, .obj done s :: stack, .closeObj =>
      build (.after (.obj (((s, v) :: done).reverse))) stack ts
    | _, _, _ => none

def parse (text : String) : Option Json :=
  (Token.scan text.toList).bind (build .value [])

end Json
end Neatness
