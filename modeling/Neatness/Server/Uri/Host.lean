import Neatness.Server.Uri.Address
import Neatness.Server.Uri.Domain

/-!
# Hosts

The machine that an address names, if it names one.  Schemes with rules of their own know domain
names and network addresses in many spellings; under any other scheme a host is kept as it stands.
-/

namespace Neatness
namespace Server

/-- The host of an address. -/
inductive Host where
  /-- There is room for a host, but none is named. -/
  | empty
  | name (text : String)
  /-- An address of four bytes, as one number. -/
  | fourBytes (value : Nat)
  | eightPieces (pieces : List Nat)
deriving DecidableEq, Repr

namespace Host

def text : Host → String
  | empty => ""
  | name s => s
  | fourBytes n => String.ofList (Address.writeFourBytes n)
  | eightPieces ns => "[" ++ String.ofList (Address.writeEightPieces ns) ++ "]"

def isLocal (h : Host) : Bool :=
  h = empty || h = name "localhost"

/-- A host in brackets, behind the opening one. -/
def bracketed? (cs : List Char) : Option Host :=
  if cs.getLast? = some ']' then (Address.eightPieces? cs.dropLast).map eightPieces else none

/-- Read a host by the rules for names and network addresses. -/
def known? : List Char → Option Host
  | '[' :: cs => bracketed? cs
  | cs => do
    let text ← Utf8.toText? (Percent.decode cs)
    match ← Domain.ofChars? text.toList with
    | [] => none
    | domain =>
      if Address.looksNumeric domain then (Address.fourBytes? domain).map fourBytes
      else some (.name (String.ofList domain))

/-- Characters that have no place in any host. -/
def isBarred (c : Char) : Bool :=
  ['\x00', ' ', '#', '/', ':', '<', '>', '?', '@', '[', '\\', ']', '^', '|'].contains c

/-- Read a host that is kept as it stands. -/
def free? : List Char → Option Host
  | [] => some empty
  | '[' :: cs => bracketed? cs
  | cs =>
    if cs.any isBarred then none
    else some (.name (String.ofList (Percent.encode .free cs)))

end Host
end Server
end Neatness
