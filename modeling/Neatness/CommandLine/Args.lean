import Neatness.Path
import Neatness.RuleTable

/-!
# Command line arguments

A run either scans a path, with some options, or writes a first configuration (`init`, as the first
word).  Long options take their value behind an equals sign or as the next word; short ones also
directly behind the letter, and short flags may share one hyphen.  Every option is given at most
once.  Behind two hyphens there are only paths.
-/

namespace Neatness

/-- What is to be scanned, and how. -/
structure ScanRequest where
  path : Path
  name : Option String := none
  preset : Option Preset := none
  /-- The score that every file has to reach. -/
  threshold : Option UInt8 := none
  config : Option Path := none
  jobs : Option Nat := none
  json : Bool := false
  quiet : Bool := false
  verbose : Bool := false
  watch : Bool := false
  noColor : Bool := false
  parallel : Bool := false
deriving DecidableEq, Repr

/-- What a first configuration should say, and where it goes. -/
structure InitRequest where
  name : Option String := none
  preset : Option Preset := none
  /-- The directory of the configuration. -/
  dir : Option Path := none
deriving DecidableEq, Repr

/-- What a run is asked to do. -/
inductive Command where
  | scan (r : ScanRequest)
  | init (r : InitRequest)
  | version
  | help
deriving DecidableEq, Repr

namespace CommandLine

/-- Why the reading of the arguments ends early. -/
inductive Stop where
  | usage
  | version
  | help
deriving DecidableEq, Repr

/-- An option with a value. -/
inductive Setting where
  | name
  | preset
  | threshold
  | config
  | jobs
  | dir
deriving DecidableEq, Repr

/-- An option without a value. -/
inductive Flag where
  | json
  | quiet
  | verbose
  | watch
  | noColor
  | parallel
deriving DecidableEq, Repr

/-- An option. -/
inductive Key where
  | setting (s : Setting)
  | flag (f : Flag)
  | version
  | help
deriving DecidableEq, Repr

/-! ## What has been read so far -/

/-- The arguments read so far. -/
structure Draft where
  path : Option Path := none
  values : List (Setting × String) := []
  flags : List Flag := []
deriving Repr

namespace Draft

/-- One more path; there is room for one, and it is not empty. -/
def addPath (d : Draft) (text : String) : Except Stop Draft :=
  if d.path.isSome || text.isEmpty then .error .usage
  else .ok { d with path := some (Path.ofText text) }

def addFlag (d : Draft) (f : Flag) : Except Stop Draft :=
  if d.flags.contains f then .error .usage else .ok { d with flags := f :: d.flags }

def value? (d : Draft) (s : Setting) : Option String :=
  d.values.lookup s

end Draft

/-! ## Values -/

def digits? (cs : List Char) : Option Nat :=
  if cs.isEmpty || !cs.all Char.isDigit then none
  else some (cs.foldl (fun n c => n * 10 + (c.toNat - 48)) 0)

def signed? (text : String) : Option Int :=
  match text.toList with
  | '+' :: cs => (digits? cs).map Int.ofNat
  | '-' :: cs => (digits? cs).map fun n => -Int.ofNat n
  | cs => (digits? cs).map Int.ofNat

def byte? (text : String) : Option UInt8 :=
  match signed? text with
  | some (.ofNat n) => if n < 256 then some n.toUInt8 else none
  | _ => none

/-- Least number that is too large for a count. -/
def countLimit : Nat := 0x10000000000000000

/-- A count; a minus sign is no part of one. -/
def count? (text : String) : Option Nat :=
  match text.toList with
  | '+' :: cs => (digits? cs).filter (· < countLimit)
  | cs => (digits? cs).filter (· < countLimit)

def fits (s : Setting) (text : String) : Bool :=
  match s with
  | .name => true
  | .preset => match Preset.parse text with | .ok _ => true | .error _ => false
  | .threshold => (byte? text).isSome
  | .config => !text.isEmpty
  | .jobs => (count? text).isSome
  | .dir => !text.isEmpty

/-- One more value, for an option that is new. -/
def Draft.addValue (d : Draft) (s : Setting) (text : String) : Except Stop Draft :=
  if (d.value? s).isSome || !fits s text then .error .usage
  else .ok { d with values := (s, text) :: d.values }

/-! ## Words -/

/-- A word of the command line. -/
inductive Word where
  | escape
  /-- A long option, with a value behind an equals sign. -/
  | long (name : List Char) (value : Option (List Char))
  /-- Letters behind one hyphen. -/
  | short (letters : List Char)
  | plain
deriving DecidableEq, Repr

/-- The kind of a word; a lone hyphen is nothing special. -/
def Word.ofText (text : String) : Word :=
  match text.toList with
  | ['-', '-'] => .escape
  | '-' :: '-' :: cs =>
    let name := cs.takeWhile (· != '=')
    match cs.drop name.length with
    | [] => .long name none
    | _ :: value => .long name (some value)
  | '-' :: c :: cs => .short (c :: cs)
  | _ => .plain

/-- The options of one form of the command. -/
structure Grammar where
  long : List (String × Key)
  short : List (Char × Key)
  takesPath : Bool

def scanGrammar : Grammar where
  long := [("name", .setting .name), ("preset", .setting .preset),
    ("threshold", .setting .threshold), ("config", .setting .config),
    ("jobs", .setting .jobs), ("json", .flag .json), ("quiet", .flag .quiet),
    ("verbose", .flag .verbose), ("watch", .flag .watch), ("no-color", .flag .noColor),
    ("parallel", .flag .parallel), ("version", .version), ("help", .help)]
  short := [('n', .setting .name), ('t', .setting .threshold), ('j', .flag .json),
    ('q', .flag .quiet), ('v', .flag .verbose), ('V', .version), ('h', .help)]
  takesPath := true

/-- The options of a first configuration. -/
def initGrammar : Grammar where
  long := [("name", .setting .name), ("preset", .setting .preset), ("dir", .setting .dir),
    ("help", .help)]
  short := [('h', .help)]
  takesPath := false

/-- Read letters behind one hyphen; the option that is left waits for its value. -/
def readLetters (g : Grammar) (d : Draft) : List Char → Except Stop (Draft × Option Setting)
  | [] => .ok (d, none)
  | c :: cs =>
    match g.short.lookup c with
    | none => .error .usage
    | some .version => .error .version
    | some .help => .error .help
    | some (.flag f) =>
      match d.addFlag f with
      | .error e => .error e
      | .ok d => readLetters g d cs
    | some (.setting s) =>
      match cs with
      | [] => .ok (d, some s)
      | '=' :: value => (d.addValue s (String.ofList value)).map (·, none)
      | value => (d.addValue s (String.ofList value)).map (·, none)

/-- The word can be the value of an option before it. -/
def isValue (text : String) : Bool :=
  Word.ofText text == .plain

/-- Read the words on.  `waiting` is an option whose value comes next, and `escaped` says that only
paths follow. -/
def readWords (g : Grammar) (d : Draft) (waiting : Option Setting) (escaped : Bool) :
    List String → Except Stop Draft
  | [] => if waiting.isSome then .error .usage else .ok d
  | text :: rest =>
    match waiting with
    | some s =>
      if isValue text then
        match d.addValue s text with
        | .error e => .error e
        | .ok d => readWords g d none escaped rest
      else .error .usage
    | none =>
      let path :=
        if g.takesPath then
          match d.addPath text with
          | .error e => .error e
          | .ok d => readWords g d none escaped rest
        else .error .usage
      if escaped then path
      else
        match Word.ofText text with
        | .plain => path
        | .escape => readWords g d none true rest
        | .short letters =>
          match readLetters g d letters with
          | .error e => .error e
          | .ok (d, waiting) => readWords g d waiting escaped rest
        | .long name value =>
          match g.long.lookup (String.ofList name), value with
          | none, _ => .error .usage
          | some .version, none => .error .version
          | some .help, none => .error .help
          | some (.flag f), none =>
            match d.addFlag f with
            | .error e => .error e
            | .ok d => readWords g d none escaped rest
          | some (.setting s), none => readWords g d (some s) escaped rest
          | some (.setting s), some value =>
            match d.addValue s (String.ofList value) with
            | .error e => .error e
            | .ok d => readWords g d none escaped rest
          | some _, some _ => .error .usage

namespace Draft

def preset? (d : Draft) : Option Preset :=
  (d.value? .preset).bind fun text => (Preset.parse text).toOption

def toScan (d : Draft) : Except Stop ScanRequest :=
  match d.path with
  | none => .error .usage
  | some path => .ok {
      path
      name := d.value? .name
      preset := d.preset?
      threshold := (d.value? .threshold).bind byte?
      config := (d.value? .config).map Path.ofText
      jobs := (d.value? .jobs).bind count?
      json := d.flags.contains .json
      quiet := d.flags.contains .quiet
      verbose := d.flags.contains .verbose
      watch := d.flags.contains .watch
      noColor := d.flags.contains .noColor
      parallel := d.flags.contains .parallel }

def toInit (d : Draft) : InitRequest where
  name := d.value? .name
  preset := d.preset?
  dir := (d.value? .dir).map Path.ofText

end Draft

/-- Read all arguments, or say why that ends early. -/
def readArgs : List String → Except Stop Command
  | "init" :: rest => (readWords initGrammar {} none false rest).map fun d => .init d.toInit
  | ["help"] => .error .help
  | ["help", topic] => .error (if topic = "init" || topic = "help" then .help else .usage)
  | "help" :: _ => .error .usage
  | args => do return .scan (← (← readWords scanGrammar {} none false args).toScan)

/-- What the arguments ask for; none when they make no sense. -/
def command? (args : List String) : Option Command :=
  match readArgs args with
  | .ok c => some c
  | .error .version => some .version
  | .error .help => some .help
  | .error .usage => none

end CommandLine
end Neatness
