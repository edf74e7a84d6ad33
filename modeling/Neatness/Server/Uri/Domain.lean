import Neatness.Server.Uri.Letters
import Neatness.Server.Uri.Punycode
import Neatness.Text.Word

/-!
# Domain names

Several spellings stand for one domain name.  `ofChars?` brings a name to its one form: small
letters, the plain form of wide ones, nothing that counts for nothing, and labels beyond the basic
block written out behind `xn--`.
-/

namespace Neatness
namespace Server
namespace Domain

/-- Characters of the basic block that have no place in a name. -/
def isBarred (c : Char) : Bool :=
  c.toNat ≤ 0x20 || c == '\x7f' ||
    ['#', '%', '/', ':', '<', '>', '?', '@', '[', '\\', ']', '^', '|'].contains c

/-- The plain form of a wide character; ideographic full stops are dots. -/
def narrow (c : Char) : Char :=
  let n := c.toNat
  if 0xFF01 ≤ n && n ≤ 0xFF5E then Char.ofNat (n - 0xFEE0)
  else if n = 0x3002 || n = 0xFF61 then '.'
  else c

def small (c : Char) : Char :=
  let n := c.toNat
  match capitals.find? fun (first, last, step, _) =>
      first ≤ n && n ≤ last && (n - first) % step == 0 with
  | some (_, _, _, offset) => Char.ofNat (n + offset).toNat
  | none => c

/-- The character counts for nothing. -/
def isSilent (c : Char) : Bool :=
  Text.inRanges c.toNat silent

/-- The character has a place in a name. -/
def isFit (c : Char) : Bool :=
  !isBarred c && !Text.inRanges c.toNat unfit

def form (c : Char) : Char :=
  small (narrow c)

/-- The mark in front of a label that is written out. -/
def mark : List Char :=
  ['x', 'n', '-', '-']

/-- A written-out label stands for characters beyond the basic block that have no other form, and is
the way to write them. -/
def isWrittenOut (cs : List Char) : Bool :=
  match Punycode.decode? cs with
  | none => false
  | some read =>
    read.any (!Punycode.isBasic ·) && Punycode.encode read == cs &&
      read.all fun c => isFit c && !isSilent c && form c == c

def label? (cs : List Char) : Option (List Char) :=
  if mark.isPrefixOf cs then
    if isWrittenOut (cs.drop mark.length) then some cs else none
  else if cs.all Punycode.isBasic then some cs
  else some (mark ++ Punycode.encode cs)

/-- The one form of a name. -/
def ofChars? (cs : List Char) : Option (List Char) :=
  let cs := (cs.filter (!isSilent ·)).map form
  if cs.all isFit then ((cs.splitOn '.').mapM label?).map (['.'].intercalate ·) else none

end Domain
end Server
end Neatness
