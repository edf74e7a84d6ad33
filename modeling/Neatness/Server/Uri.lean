import Neatness.Path
import Neatness.Server.Uri.Host
import Neatness.Server.Uri.Segments

/-!
# Document addresses

Editors name documents by URI.  Two spellings of one address are the same document, so an address
is brought to one form first: the scheme in small letters, dot segments resolved, hosts and service
numbers in their shortest form, and characters that have no place where they stand written as
percent escapes.  Some schemes have rules of their own: they always have a path, and take a
backslash for a slash.  An address with a path and without a host, or on the local host, names a
file.

* `Uri.parse?` reads an address;
* `Uri.text` writes its one form;
* `Uri.filePath?` is the file that it names.
-/

namespace Neatness
namespace Server

/-- What comes before the path of an address. -/
structure Authority where
  /-- The user, with a password if there is one. -/
  user : String := ""
  host : Host := .empty
  /-- The number of the service at the host, unless it is the scheme's own. -/
  service : Option Nat := none
deriving DecidableEq, Repr

def Authority.text (a : Authority) : String :=
  (if a.user = "" then "" else a.user ++ "@") ++ a.host.text ++
    (match a.service with
      | some n => ":" ++ toString n
      | none => "")

/-- An address in its one form. -/
structure Uri where
  /-- The scheme, in small letters. -/
  scheme : String
  authority : Option Authority := none
  /-- The path; without an authority it may be any text. -/
  path : String := ""
  query : Option String := none
  fragment : Option String := none
deriving DecidableEq, Repr

namespace Uri

/-- The text of an address.  A path that starts with two slashes must not be taken for an
authority. -/
def text (u : Uri) : String :=
  u.scheme ++ ":" ++
    (match u.authority with
      | some a => "//" ++ a.text
      | none => if ['/', '/'].isPrefixOf u.path.toList then "/." else "") ++
    u.path ++
    (match u.query with
      | some q => "?" ++ q
      | none => "") ++
    (match u.fragment with
      | some f => "#" ++ f
      | none => "")

/-! ## Schemes -/

/-- The rules that a scheme goes by. -/
inductive Kind where
  | file
  /-- The address is served over a network, by a service with a number of its own. -/
  | network (service : Nat)
  /-- The scheme has no rules of its own. -/
  | other
deriving DecidableEq, Repr

def Kind.ofScheme : String → Kind
  | "file" => .file
  | "http" => .network 80
  | "ws" => .network 80
  | "https" => .network 443
  | "wss" => .network 443
  | "ftp" => .network 21
  | _ => .other

def Kind.isSlash (k : Kind) (c : Char) : Bool :=
  c == '/' || (c == '\\' && k != .other)

def endsPath (c : Char) : Bool :=
  c == '?' || c == '#'

def Kind.endsAuthority (k : Kind) (c : Char) : Bool :=
  k.isSlash c || endsPath c

/-! ## Reading -/

/-- The scheme of an address and what follows its colon. -/
def scheme? (cs : List Char) : Option (String × List Char) :=
  let (name, rest) := cs.span fun c => c.isAlphanum || c == '+' || c == '-' || c == '.'
  match name, rest with
  | c :: _, ':' :: rest =>
    if c.isAlpha then some (String.ofList (name.map Char.toLower), rest) else none
  | _, _ => none

/-- An address with what stands behind its path. -/
def withTail (k : Kind) (u : Uri) (cs : List Char) : Uri :=
  let encode (p : Percent.Part) (cs : List Char) := some (String.ofList (Percent.encode p cs))
  let queryPart := if k = .other then Percent.Part.query else .knownQuery
  match cs with
  | '?' :: cs =>
    let (query, rest) := cs.span (· != '#')
    { u with
      query := encode queryPart query
      fragment := if rest.isEmpty then none else encode .fragment rest.tail }
  | '#' :: cs => { u with fragment := encode .fragment cs }
  | _ => u

/-- An address with its path and all that follows; `form` brings the path to its form. -/
def finish (k : Kind) (form : List Char → List Char) (u : Uri) (cs : List Char) : Uri :=
  let (path, tail) := cs.span (!endsPath ·)
  { u with path := String.ofList (form path) }.withTail k tail

/-- The text before the last `@`, if there is one, and the text behind it. -/
def cutUser (cs : List Char) : Option (List Char) × List Char :=
  if cs.contains '@' then
    let host := (cs.reverse.takeWhile (· != '@')).reverse
    (some ((cs.take (cs.length - host.length)).dropLast), host)
  else (none, cs)

/-- A user; the first colon divides the name from the password. -/
def userText (cs : List Char) : List Char :=
  let (name, rest) := cs.span (· != ':')
  Percent.encode .user name ++
    (match rest.tail with
      | [] => []
      | password => ':' :: Percent.encode .user password)

/-- The host and what follows it: a colon ends it, but not between brackets. -/
def cutHost (inside : Bool) : List Char → List Char × List Char
  | [] => ([], [])
  | c :: cs =>
    if c == ':' && !inside then ([], c :: cs)
    else
      let (host, rest) := cutHost (c == '[' || (inside && c != ']')) cs
      (c :: host, rest)

/-- The service behind a host and what follows it; the scheme's own is not kept. -/
def service? (k : Kind) : List Char → Option (Option Nat × List Char)
  | ':' :: cs =>
    let (digits, rest) := cs.span Char.isDigit
    match Address.numeral? 10 digits with
    | none => none
    | some n =>
      if 0xFFFF < n || (rest.head?.any (· != '\\')) then none
      else some (if digits.isEmpty || k = .network n then none else some n, rest)
  | cs => some (none, cs)

/-- Read a host by the rules of a kind of scheme. -/
def Kind.host? : Kind → List Char → Option Host
  | .other, cs => Host.free? cs
  | _, cs => Host.known? cs

/-- Read an authority and what follows it.  Without a host there is neither a user nor a
service. -/
def authority? (k : Kind) (cs : List Char) : Option (Authority × List Char) := do
  let (area, rest) := cs.span (!k.endsAuthority ·)
  let (user, place) := cutUser area
  if user = some [] && place.isEmpty && !rest.isEmpty then none
  else
    let user := userText (user.getD [])
    let (name, tail) := cutHost false place
    let host ← k.host? name
    if host = .empty && !(user.isEmpty && tail.isEmpty) then none
    else
      let (service, tail) ← service? k tail
      return (⟨String.ofList user, host, service⟩, tail ++ rest)

/-- The host of a file and what follows it.  A drive is no host but starts the path, and the local
host need not be named. -/
def fileHost? : List Char → Option (Host × List Char)
  | a :: b :: cs =>
    if Kind.file.isSlash a && Kind.file.isSlash b then
      let (name, rest) := cs.span (!Kind.file.endsAuthority ·)
      if name.isEmpty then some (.empty, rest)
      else if Segments.isDrive name then some (.empty, cs)
      else (Host.known? name).map fun h => (if h.isLocal then .empty else h, rest)
    else some (.empty, a :: b :: cs)
  | cs => some (.empty, cs)

/-- The path of a file starts with one slash. -/
def filePathForm (cs : List Char) : List Char :=
  '/' :: (Segments.ofChars Kind.file.isSlash cs).dropWhile (· == '/')

/-- The path behind an authority under a scheme without rules of its own may be missing. -/
def otherPathForm (cs : List Char) : List Char :=
  if cs.isEmpty then [] else Segments.ofChars Kind.other.isSlash cs

/-- Characters that do not count at either end of an address. -/
def isMargin (c : Char) : Bool :=
  c.toNat ≤ 0x20

/-- The characters of an address that count: none in the margins, and no tabs and line ends. -/
def essence (text : String) : List Char :=
  let cs := text.toList.dropWhile isMargin
  let cs := (cs.reverse.dropWhile isMargin).reverse
  cs.filter fun c => c != '\t' && c != '\n' && c != '\r'

/-- Read an address; one without a scheme is none. -/
def parse? (text : String) : Option Uri := do
  let (scheme, cs) ← scheme? (essence text)
  let k := Kind.ofScheme scheme
  match k, cs with
  | .file, cs =>
    let (host, cs) ← fileHost? cs
    return finish k filePathForm { scheme, authority := some { host } } cs
  | .network _, cs =>
    let (authority, cs) ← authority? k (cs.dropWhile k.isSlash)
    return finish k (Segments.ofChars k.isSlash) { scheme, authority := some authority } cs
  | .other, '/' :: '/' :: cs =>
    let (authority, cs) ← authority? k cs
    return finish k otherPathForm { scheme, authority := some authority } cs
  | .other, '/' :: cs => return finish k (Segments.ofChars k.isSlash) { scheme } ('/' :: cs)
  | .other, cs => return finish k (Percent.encode .free) { scheme } cs

/-! ## Files -/

/-- A path that ends in a drive names the top of it. -/
def closeDrive (bytes : List UInt8) : List UInt8 :=
  match bytes.reverse with
  | mark :: letter :: _ :: _ =>
    if (mark == 0x3A || mark == 0x7C) && (Char.ofNat letter.toNat).isAlpha then
      bytes ++ [Path.slash]
    else bytes
  | _ => bytes

def filePath? (u : Uri) : Option Path :=
  let isLocal := match u.authority with
    | some a => a.host.isLocal
    | none => true
  if isLocal && u.path.toList.head? = some '/' then
    some ⟨closeDrive (Percent.decode u.path.toList)⟩
  else none

end Uri
end Server
end Neatness
