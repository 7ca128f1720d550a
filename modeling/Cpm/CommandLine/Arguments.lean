import Cpm.Address
import Cpm.Mode

/-!
# Arguments

The arguments of the program are options and at most one operand, the image to run.
An option has a long name and may have a short one; it is a switch, or takes a value:
the next argument, or what follows the name with an equals sign between, which a
short name does not need. Short switches can share one argument. Two dashes end the
options. Arguments are taken in turn, so the first fault, or the first call for help
or for the version, decides.
-/

namespace Cpm

structure Arguments where
  image : Option String
  mode : Option Mode
  drives : List String
  loadAddress : Option UInt16
  trace : Bool
  /-- How often more log output was asked for. -/
  verbose : Nat
  /-- The settings file to use. -/
  config : Option String
  deriving DecidableEq, Repr, Inhabited

inductive Request where
  | run (a : Arguments)
  | help
  | version
  deriving DecidableEq, Repr

namespace Request

def versionText : String := "cpm80 0.1.0\n"

def helpText : String := String.intercalate "\n" [
  "Run CP/M 2.2 programs on an 8080/Z80 engine",
  "",
  "Usage: cpm80 [OPTIONS] [IMAGE]",
  "",
  "Arguments:",
  "  [IMAGE]  Program image (.COM) to load and run. Without one, boots from drive A",
  "",
  "Options:",
  "      --mode <MODE>          Instruction set to start in [possible values: 8080, z80]",
  "  -d, --drive <PATH>         Disk image for the next drive, A: first. Repeatable",
  "      --load-address <ADDR>  Where the image is loaded and started (hex or decimal)",
  "      --trace                Log every instruction with a register dump",
  "  -v, --verbose...           More log output. Repeatable",
  "      --config <PATH>        Config file to use instead of the default location",
  "  -h, --help                 Print help",
  "  -V, --version              Print version",
  ""]

end Request

/-- Options that take a value. -/
inductive ValueOption where
  | mode | drive | loadAddress | config
  deriving DecidableEq, Repr

/-- Options that take none. -/
inductive SwitchOption where
  | trace | verbose | help | version
  deriving DecidableEq, Repr

inductive CommandOption where
  | value (o : ValueOption)
  | switch (o : SwitchOption)
  deriving DecidableEq, Repr

namespace CommandOption

def all : List CommandOption :=
  [.value .mode, .value .drive, .value .loadAddress, .switch .trace, .switch .verbose,
    .value .config, .switch .help, .switch .version]

def longName : CommandOption → String
  | .value .mode => "mode"
  | .value .drive => "drive"
  | .value .loadAddress => "load-address"
  | .value .config => "config"
  | .switch .trace => "trace"
  | .switch .verbose => "verbose"
  | .switch .help => "help"
  | .switch .version => "version"

def shortName? : CommandOption → Option Char
  | .value .drive => some 'd'
  | .switch .verbose => some 'v'
  | .switch .help => some 'h'
  | .switch .version => some 'V'
  | _ => none

def ofLongName? (name : List Char) : Option CommandOption :=
  all.find? fun o => o.longName.toList = name

def ofShortName? (name : Char) : Option CommandOption := all.find? fun o => o.shortName? = some name

def shown (o : CommandOption) : String := "--" ++ o.longName

end CommandOption

inductive UsageError where
  /-- No such option, or an operand too many. -/
  | unexpected (arg : String)
  | missingValue (o : ValueOption)
  | unexpectedValue (o : SwitchOption) (value : String)
  | invalidValue (name value : String)
  | invalidAddress (cause : Address.Error)
  | repeated (o : CommandOption)
  deriving DecidableEq, Repr

namespace UsageError

def message : UsageError → String
  | .unexpected arg => "unexpected argument '" ++ arg ++ "' found"
  | .missingValue o =>
    "a value is required for '" ++ (CommandOption.value o).shown ++ "' but none was supplied"
  | .unexpectedValue o value =>
    "unexpected value '" ++ value ++ "' for '" ++ (CommandOption.switch o).shown ++ "' found"
  | .invalidValue name value => "invalid value '" ++ value ++ "' for '" ++ name ++ "'"
  | .invalidAddress cause => "invalid value for '--load-address': " ++ cause.message
  | .repeated o => "the argument '" ++ o.shown ++ "' cannot be used multiple times"

end UsageError

inductive ArgumentForm where
  | endOfOptions
  | long (name : List Char) (value : Option (List Char))
  | short (cluster : List Char)
  | plain
  deriving DecidableEq, Repr

namespace ArgumentForm

/-- The form of an argument. A single dash is no option. -/
def ofChars : List Char → ArgumentForm
  | ['-', '-'] => .endOfOptions
  | '-' :: '-' :: text =>
    let name := text.takeWhile (· ≠ '=')
    match text.dropWhile (· ≠ '=') with
    | _ :: value => .long name (some value)
    | [] => .long name none
  | ['-'] => .plain
  | '-' :: cluster => .short cluster
  | _ => .plain

end ArgumentForm

namespace Arguments

def empty : Arguments := ⟨none, none, [], none, false, 0, none⟩

/-- A path, which is never empty. -/
def path (name value : String) : Except UsageError String :=
  if value.isEmpty then .error (.invalidValue name value) else .ok value

/-- Gives an option its value. Only drives can be given more than once. -/
def give (a : Arguments) (o : ValueOption) (value : String) : Except UsageError Arguments := do
  let shown := (CommandOption.value o).shown
  let once (given : Bool) : Except UsageError Unit :=
    if given then .error (.repeated (.value o)) else .ok ()
  match o with
  | .mode =>
    once a.mode.isSome
    match Mode.ofName? value with
    | some m => .ok { a with mode := some m }
    | none => .error (.invalidValue shown value)
  | .drive => return { a with drives := a.drives ++ [← path shown value] }
  | .loadAddress =>
    once a.loadAddress.isSome
    match Address.parse value with
    | .ok addr => .ok { a with loadAddress := some addr }
    | .error cause => .error (.invalidAddress cause)
  | .config =>
    once a.config.isSome
    return { a with config := some (← path shown value) }

def operand (a : Arguments) (value : String) : Except UsageError Arguments :=
  if a.image.isSome then .error (.unexpected value)
  else return { a with image := some (← path "IMAGE" value) }

/-- Takes a switch. Help and the version settle what is asked for. -/
def switch (a : Arguments) : SwitchOption → Except UsageError (Arguments × Option Request)
  | .trace =>
    if a.trace then .error (.repeated (.switch .trace)) else .ok ({ a with trace := true }, none)
  | .verbose => .ok ({ a with verbose := a.verbose + 1 }, none)
  | .help => .ok (a, some .help)
  | .version => .ok (a, some .version)

inductive Progress where
  /-- More arguments can follow. -/
  | ready (a : Arguments)
  /-- The next argument is the value of an option. -/
  | wanting (o : ValueOption) (a : Arguments)
  | settled (r : Request)

/-- What follows the short name of an option that takes a value, without an equals
sign. -/
def attached : List Char → List Char
  | '=' :: value => value
  | value => value

/-- Takes the options of a cluster of short names. The first that takes a value ends
it. -/
def cluster (a : Arguments) : List Char → Except UsageError Progress
  | [] => .ok (.ready a)
  | c :: rest =>
    match CommandOption.ofShortName? c with
    | none => .error (.unexpected (String.ofList ['-', c]))
    | some (.switch o) =>
      match a.switch o with
      | .error e => .error e
      | .ok (_, some r) => .ok (.settled r)
      | .ok (a, none) => cluster a rest
    | some (.value o) =>
      if rest.isEmpty then .ok (.wanting o a)
      else return .ready (← a.give o (String.ofList (attached rest)))

def long (a : Arguments) (name : List Char) (value : Option (List Char)) :
    Except UsageError Progress :=
  match CommandOption.ofLongName? name, value with
  | none, _ => .error (.unexpected ("--" ++ String.ofList name))
  | some (.switch o), none => do
    match ← a.switch o with
    | (_, some r) => .ok (.settled r)
    | (a, none) => .ok (.ready a)
  | some (.switch o), some value => .error (.unexpectedValue o (String.ofList value))
  | some (.value o), none => .ok (.wanting o a)
  | some (.value o), some value => return .ready (← a.give o (String.ofList value))

def take (a : Arguments) (arg : String) : ArgumentForm → Except UsageError Progress
  | .long name value => a.long name value
  | .short chars => a.cluster chars
  | _ => return .ready (← a.operand arg)

/-- Reads arguments after those that were taken already. `wanted` is an option whose
value comes next. -/
def read (wanted : Option ValueOption) (a : Arguments) : List String → Except UsageError Request
  | [] =>
    match wanted with
    | some o => .error (.missingValue o)
    | none => .ok (.run a)
  | arg :: rest =>
    match wanted, ArgumentForm.ofChars arg.toList with
    | some o, .plain => do read none (← a.give o arg) rest
    | some o, _ => .error (.missingValue o)
    | none, .endOfOptions => do
      return .run (← rest.foldlM operand a)
    | none, form => do
      match ← a.take arg form with
      | .ready a => read none a rest
      | .wanting o a => read (some o) a rest
      | .settled r => .ok r

def parse (args : List String) : Except UsageError Request := read none empty args

end Arguments

end Cpm
