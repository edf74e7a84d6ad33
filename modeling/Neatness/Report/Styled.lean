import Neatness.Status

/-!
# Styled text

Terminal output is a list of fragments, some of them with a style.  A style is written as a control
sequence in front of the fragment and a reset behind it; a reset inside the fragment would end the
style, so the style is set again behind it.  Without colours a fragment is just its text.

Whether there are colours is asked once, when fragments are written: a reporter that goes without
them and an output that has none write the same text.  The colours are the eight that every
terminal has.  A warning is yellow, which is the nearest of them to its own orange; that one is
left out here, as are terminals on which it could be shown.
-/

namespace Neatness

/-- How a fragment stands out. -/
inductive Style where
  | bold
  | dim
  | tier (t : Tier)
  | red
  | boldRed
  | boldGreen
  | yellow
  | blue
deriving DecidableEq, Repr

namespace Style

/-- The parameters of a style's control sequence. -/
def codes : Style → String
  | bold => "1"
  | dim => "2"
  | tier .success => "1;32"
  | tier .warning => "33"
  | tier .failure => "1;31"
  | red => "31"
  | boldRed => "1;31"
  | boldGreen => "1;32"
  | yellow => "33"
  | blue => "34"

/-- The control sequence that sets some parameters. -/
def sequence (codes : String) : List Char :=
  '\x1b' :: '[' :: codes.toList ++ ['m']

/-- The control sequence that ends every style. -/
def reset : List Char :=
  sequence "0"

/-- A text in which a style is set again behind every reset. -/
def renew (style : List Char) : List Char → List Char
  | '\x1b' :: '[' :: '0' :: 'm' :: cs => reset ++ style ++ renew style cs
  | c :: cs => c :: renew style cs
  | [] => []

/-- A text in a style. -/
def paint (s : Style) (text : List Char) : List Char :=
  sequence s.codes ++ renew (sequence s.codes) text ++ reset

end Style

/-- A piece of output. -/
structure Fragment where
  style : Option Style
  text : String
deriving DecidableEq, Repr

namespace Fragment

def plain (text : String) : Fragment :=
  ⟨none, text⟩

def styled (style : Style) (text : String) : Fragment :=
  ⟨some style, text⟩

/-- What is written for a fragment. -/
def write (colors : Bool) (f : Fragment) : List Char :=
  match f.style with
  | some s => if colors then s.paint f.text.toList else f.text.toList
  | none => f.text.toList

def writeAll (colors : Bool) (fs : List Fragment) : String :=
  String.ofList (fs.flatMap (write colors))

end Fragment
end Neatness
