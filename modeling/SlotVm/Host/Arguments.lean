import SlotVm.Config.Basic

/-!
# Command-line arguments

The arguments select the program, the configuration and what is reported.
`Options.ofArguments` reads them from left to right.

An option that takes a value may have it attached (`-fx`, `-f=x`,
`--file=x`) or take the next argument.  Options of one letter can share an
argument, where one that takes a value ends the group.  A value is looked at
when the next option is met or the arguments end, so that of two mistakes a
misplaced argument is reported before an unusable value in front of it.
-/

namespace SlotVm

/-- Built-in configurations. -/
inductive Profile where
  | unix
  | asuro
deriving DecidableEq

/-- The configuration of a profile. -/
def Profile.config : Profile → Config
  | unix => .unix
  | asuro => .asuro

/-- Options that take a value. -/
inductive Setting where
  | file
  | profile
  | config
  | heapSize
  | stackCheck
deriving DecidableEq

/-- Options without a value. -/
inductive Switch where
  | printBytecode
  | trace
  | verbose
  | quiet
  | help
  | version
deriving DecidableEq

/-- An option. -/
inductive OptionName where
  | setting (s : Setting)
  | switch (s : Switch)
deriving DecidableEq

namespace OptionName

/-- The options, each with its long name and its letter. -/
def all : List (OptionName × String × Option Char) :=
  [(setting .file, "file", some 'f'),
    (setting .profile, "profile", some 'p'),
    (setting .config, "config", some 'c'),
    (setting .heapSize, "heap-size", none),
    (setting .stackCheck, "stack-check", none),
    (switch .printBytecode, "print-bytecode", none),
    (switch .trace, "trace", none),
    (switch .verbose, "verbose", some 'v'),
    (switch .quiet, "quiet", some 'q'),
    (switch .help, "help", some 'h'),
    (switch .version, "version", some 'V')]

/-- The option with a long name. -/
def ofLong? (name : String) : Option OptionName :=
  (all.find? (·.2.1 = name)).map (·.1)

/-- The option with a letter. -/
def ofLetter? (c : Char) : Option OptionName :=
  (all.find? (·.2.2 = some c)).map (·.1)

end OptionName

/-- Why arguments cannot be used. -/
inductive UsageError where
  /-- No program is named. -/
  | missingFile
  /-- A value is missing, or is none of the admitted ones. -/
  | badValue
  /-- A value is not a number in range. -/
  | badNumber
  /-- No option is called so, or an argument belongs to no option. -/
  | unknownArgument
  /-- Options exclude each other, or one is given twice. -/
  | conflict
  /-- An option that takes no value has one. -/
  | needlessValue
deriving DecidableEq

/-- What the arguments lead to instead of a run. -/
inductive Diversion where
  | help
  | version
  | mistake (e : UsageError)
deriving DecidableEq

/-- Exit status without a run. -/
def Diversion.exitCode : Diversion → UInt8
  | help | version => 0
  | mistake _ => 2

/-! ## Values -/

/-- Least number that sizes in bytes do not reach. -/
def sizeLimit : Nat := UInt64.size

/-- The size that a text writes, in decimal digits after at most one plus
sign. -/
def size? (text : String) : Option Nat :=
  let digits :=
    match text.toList with
    | '+' :: rest => rest
    | all => all
  if digits.isEmpty || digits.any (! ·.isDigit) then none
  else
    let n := digits.foldl (fun n c => 10 * n + (c.toNat - '0'.toNat)) 0
    if n < sizeLimit then some n else none

/-- The profile with a name. -/
def Profile.ofName? : String → Option Profile
  | "unix" => some unix
  | "asuro" => some asuro
  | _ => none

/-- The policy with a name. -/
def ResiduePolicy.ofName? : String → Option ResiduePolicy
  | "verify" => some verify
  | "discard" => some discard
  | "retain" => some retain
  | _ => none

/-! ## Options -/

/-- The options that have been given. -/
structure Given where
  file : Option String
  profile : Option Profile
  config : Option String
  heapSize : Option Nat
  residue : Option ResiduePolicy
  switches : List Switch

namespace Given

/-- No options. -/
def empty : Given := ⟨none, none, none, none, none, []⟩

/-- The option has been given. -/
def has (g : Given) : Setting → Bool
  | .file => g.file.isSome
  | .profile => g.profile.isSome
  | .config => g.config.isSome
  | .heapSize => g.heapSize.isSome
  | .stackCheck => g.residue.isSome

/-- A value that is not usable. -/
def usable {α : Type} (e : UsageError) : Option α → Except Diversion α
  | some a => .ok a
  | none => .error (.mistake e)

/-- The name of a file, which is not empty. -/
def fileName? (text : String) : Option String :=
  if text.isEmpty then none else some text

/-- Adds an option with its value. -/
def set (g : Given) (s : Setting) (value : String) :
    Except Diversion Given := do
  if g.has s then
    throw (.mistake .conflict)
  match s with
  | .file =>
      return { g with file := some (← usable .badValue (fileName? value)) }
  | .profile =>
      let profile ← usable .badValue (Profile.ofName? value)
      return { g with profile := some profile }
  | .config =>
      return { g with config := some (← usable .badValue (fileName? value)) }
  | .heapSize =>
      return { g with heapSize := some (← usable .badNumber (size? value)) }
  | .stackCheck =>
      let residue ← usable .badValue (ResiduePolicy.ofName? value)
      return { g with residue := some residue }

/-- Adds an option without a value. -/
def turnOn (g : Given) (s : Switch) : Except Diversion Given :=
  match s with
  | .help => .error .help
  | .version => .error .version
  | s =>
      if s ∈ g.switches then .error (.mistake .conflict)
      else .ok { g with switches := s :: g.switches }

end Given

/-! ## Reading -/

/-- How an argument is written. -/
inductive Argument where
  /-- Two hyphens, after which there are no options. -/
  | separator
  /-- Two hyphens, a name, and what follows an equals sign. -/
  | long (name : String) (value : Option String)
  /-- One hyphen and letters. -/
  | letters (cs : List Char)
  /-- Anything else. -/
  | plain (text : String)

/-- Tells how an argument is written. -/
def Argument.ofString (text : String) : Argument :=
  match text.toList with
  | ['-', '-'] => .separator
  | '-' :: '-' :: body =>
      let name := String.ofList (body.takeWhile (· != '='))
      match body.dropWhile (· != '=') with
      | _ :: value => .long name (some (String.ofList value))
      | [] => .long name none
  | '-' :: c :: cs => .letters (c :: cs)
  | _ => .plain text

/-- Options read so far.  The last one may still wait for its value, or for
its value to be looked at. -/
structure Reading where
  given : Given
  waiting : Option (Setting × Option String)

namespace Reading

/-- Looks at the value of the last option. -/
def settle (r : Reading) : Except Diversion Given :=
  match r.waiting with
  | none => .ok r.given
  | some (_, none) => .error (.mistake .badValue)
  | some (s, some value) => r.given.set s value

/-- Reads an option without a value. -/
def switch (r : Reading) (s : Switch) : Except Diversion Reading := do
  let given ← (← r.settle).turnOn s
  return ⟨given, none⟩

/-- Reads an option whose value is attached. -/
def attached (r : Reading) (s : Setting) (value : String) :
    Except Diversion Reading := do
  let given ← (← r.settle).set s value
  return ⟨given, none⟩

/-- Reads an option whose value is to follow. -/
def detached (r : Reading) (s : Setting) : Except Diversion Reading := do
  return ⟨← r.settle, some (s, none)⟩

/-- Reads an option with a long name. -/
def long (r : Reading) (name : String) (value : Option String) :
    Except Diversion Reading :=
  match OptionName.ofLong? name, value with
  | some (.setting s), some value => r.attached s value
  | some (.setting s), none => r.detached s
  | some (.switch _), some _ => .error (.mistake .needlessValue)
  | some (.switch s), none => r.switch s
  | none, _ => .error (.mistake .unknownArgument)

/-- Reads options of one letter. -/
def letters : List Char → Reading → Except Diversion Reading
  | [], r => .ok r
  | c :: cs, r =>
      match OptionName.ofLetter? c, cs with
      | some (.switch s), cs => do letters cs (← r.switch s)
      | some (.setting s), [] => r.detached s
      | some (.setting s), '=' :: value => r.attached s (String.ofList value)
      | some (.setting s), value => r.attached s (String.ofList value)
      | none, _ => .error (.mistake .unknownArgument)

/-- Reads an argument that is no option. -/
def plain (r : Reading) (text : String) : Except Diversion Reading :=
  match r.waiting with
  | some (s, none) => .ok { r with waiting := some (s, some text) }
  | _ => .error (.mistake .unknownArgument)

/-- Reads all arguments. -/
def arguments : List String → Reading → Except Diversion Reading
  | [], r => .ok r
  | text :: rest, r =>
      match Argument.ofString text with
      | .separator =>
          if rest.isEmpty then .ok r else .error (.mistake .unknownArgument)
      | .long name value => do arguments rest (← r.long name value)
      | .letters cs => do arguments rest (← letters cs r)
      | .plain text => do arguments rest (← r.plain text)

end Reading

/-! ## The options of a run -/

/-- What a run is to do. -/
structure Options where
  /-- The program. -/
  file : String
  profile : Profile
  /-- A file with a configuration in place of the profile. -/
  config : Option String
  /-- Size of the heap in bytes in place of the configured one. -/
  heapSize : Option Nat
  /-- Policy in place of the configured one. -/
  residue : Option ResiduePolicy
  /-- The program is listed before it runs. -/
  printBytecode : Bool
  /-- Every instruction is logged. -/
  trace : Bool
  /-- Starts and ends of runs are logged. -/
  verbose : Bool
  /-- Only errors are logged. -/
  quiet : Bool

/-- The options, if a program is among them and none excludes another. -/
def Given.options (g : Given) : Except Diversion Options :=
  let on (s : Switch) : Bool := g.switches.contains s
  if on .quiet && (on .verbose || on .trace) then
    .error (.mistake .conflict)
  else
    match g.file with
    | none => .error (.mistake .missingFile)
    | some file =>
        .ok {
          file
          profile := g.profile.getD .unix
          config := g.config
          heapSize := g.heapSize
          residue := g.residue
          printBytecode := on .printBytecode
          trace := on .trace
          verbose := on .verbose
          quiet := on .quiet }

/-- The options that arguments write. -/
def Options.ofArguments (arguments : List String) :
    Except Diversion Options := do
  let read ← Reading.arguments arguments ⟨.empty, none⟩
  (← read.settle).options

end SlotVm
