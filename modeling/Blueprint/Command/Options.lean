import Blueprint.Command.Basic
import Blueprint.Text.Parts

/-!
# Arguments of the program

`Invocation.ofArgs` reads the arguments into a command. A flag may be given once, a setting takes the next argument or
what follows its equals sign, short flags may be joined, and after two hyphens no more options are read.
-/

namespace Blueprint

inductive Subcommand where
  | compile
  | schema
  | manual
  | list
deriving Repr, DecidableEq

inductive Setting where
  | config
  | order
deriving Repr, DecidableEq

/-- A long option as it is written: a flag, a setting, or a setting with its value. -/
inductive LongOption where
  | help
  | verbose
  | strict
  | setting (s : Setting)
  | attached (s : Setting) (value : String)
deriving Repr, DecidableEq

def Subcommand.ofName? : String → Option Subcommand
  | "compile" => some .compile
  | "schema" => some .schema
  | "docs" => some .manual
  | "list" => some .list
  | _ => none

/-- How many arguments without hyphen a command takes. -/
def Subcommand.arity : Subcommand → Nat
  | .compile | .manual => 1
  | .schema | .list => 0

def Setting.ofName? : String → Option Setting
  | "config" => some .config
  | "order" => some .order
  | _ => none

/-- The option that a text after two hyphens stands for. -/
def LongOption.ofText? (text : String) : Option LongOption :=
  match text with
  | "help" => some .help
  | "verbose" => some .verbose
  | "strict" => some .strict
  | _ =>
    let name := text.toList.takeWhile (· ≠ '=')
    (Setting.ofName? (String.ofList name)).map fun s =>
      match text.toList.drop name.length with
      | [] => .setting s
      | _ :: value => .attached s (String.ofList value)

/-- The options and arguments of a command read so far. -/
structure Options where
  values : List String := []
  config : Option String := none
  order : List String := []
  strict : Bool := false
  verbose : Bool := false

namespace Options

def commaParts (text : String) : List String := (Text.parts ',' text.toList).map String.ofList

/-- Sets a setting, which only the compile command has; a file needs a name, and only the order may be repeated. -/
def set? (o : Options) (sub : Subcommand) (s : Setting) (value : String) : Option Options :=
  match sub, s with
  | .compile, .config => if o.config.isSome || value.isEmpty then none else some { o with config := some value }
  | .compile, .order => some { o with order := o.order ++ commaParts value }
  | _, _ => none

def setVerbose? (o : Options) : Option Options := if o.verbose then none else some { o with verbose := true }

/-- Sets a flag of the compile command that is not set yet. -/
def setStrict? (o : Options) (sub : Subcommand) : Option Options :=
  if o.strict || sub ≠ .compile then none else some { o with strict := true }

def addValue? (sub : Subcommand) (o : Options) (value : String) : Option Options :=
  if o.values.length < sub.arity && !(sub = .compile && value.isEmpty) then some { o with values := o.values ++ [value] }
  else none

/-- The command that the options and arguments amount to. -/
def command? (o : Options) (sub : Subcommand) : Option Command :=
  match sub, o.values with
  | .compile, [file] => some (.compile file o.config o.order o.strict)
  | .schema, [] => some .schema
  | .manual, [] => some (.manual none)
  | .manual, [category] => some (.manual (some category))
  | .list, [] => some .list
  | _, _ => none

end Options

namespace Invocation

def ofCommand? (command : Option Command) : Invocation :=
  match command with
  | some c => .command c
  | none => .misuse

/-- Whether an argument is no option: it has no hyphen, or is a hyphen only. -/
def isValue (arg : String) : Bool := !arg.startsWith "-" || arg == "-"

/-- What a cluster of short flags comes to: options read, options that still want the value of a setting, or an end. -/
inductive Cluster where
  | read (o : Options)
  | wanting (o : Options) (s : Setting)
  | ending (i : Invocation)

/-- Reads a cluster of short flags; what follows a setting in it is its value. -/
def readCluster (sub : Subcommand) (o : Options) : List Char → Cluster
  | [] => .read o
  | 'v' :: cs =>
    match o.setVerbose? with
    | some o => readCluster sub o cs
    | none => .ending .misuse
  | 'h' :: _ => .ending .help
  | ['c'] => .wanting o .config
  | 'c' :: cs =>
    let value := if cs.head? = some '=' then cs.tail else cs
    match o.set? sub .config (String.ofList value) with
    | some o => .read o
    | none => .ending .misuse
  | _ => .ending .misuse

/-- Reads the arguments of a command. The value of a setting is the next argument, unless that is an option itself. -/
def readCommand (sub : Subcommand) (o : Options) : List String → Invocation
  | [] => ofCommand? (o.command? sub)
  | arg :: rest =>
    let continue? (o : Option Options) : Invocation :=
      match o with
      | some o => readCommand sub o rest
      | none => .misuse
    let setNext (o : Options) (s : Setting) : Invocation :=
      match rest with
      | value :: rest =>
        if !isValue value then .misuse
        else match o.set? sub s value with
          | some o => readCommand sub o rest
          | none => .misuse
      | [] => .misuse
    if arg = "--" then ofCommand? ((rest.foldlM (Options.addValue? sub) o).bind (·.command? sub))
    else if isValue arg then continue? (o.addValue? sub arg)
    else match arg.toList with
      | '-' :: '-' :: text =>
        match LongOption.ofText? (String.ofList text) with
        | some .help => .help
        | some .verbose => continue? o.setVerbose?
        | some .strict => continue? (o.setStrict? sub)
        | some (.setting s) => setNext o s
        | some (.attached s value) => continue? (o.set? sub s value)
        | none => .misuse
      | flags =>
        match readCluster sub o (flags.drop 1) with
        | .ending i => i
        | .read o => readCommand sub o rest
        | .wanting o s => setNext o s

/-- Reads a cluster of short flags in front of the command: an end, or whether `verbose` is given. -/
def readGlobalCluster (verbose : Bool) : List Char → Invocation ⊕ Bool
  | [] => .inr verbose
  | 'v' :: cs => if verbose then .inl .misuse else readGlobalCluster true cs
  | 'h' :: _ => .inl .help
  | 'V' :: _ => .inl .version
  | _ => .inl .misuse

/-- Whether help can be asked for on these topics. -/
def isTopic (topics : List String) : Bool :=
  match topics with
  | [] => true
  | [topic] => topic == "help" || (Subcommand.ofName? topic).isSome
  | _ => false

/-- Reads the arguments, `verbose` given already or not. -/
def readArgs (verbose : Bool) : List String → Invocation
  | [] => .misuse
  | arg :: rest =>
    if isValue arg then
      if arg = "help" then (if isTopic rest then .help else .misuse)
      else match Subcommand.ofName? arg with
        | some sub => readCommand sub {} rest
        | none => .misuse
    else match arg.toList with
      | '-' :: '-' :: text =>
        match String.ofList text with
        | "verbose" => if verbose then .misuse else readArgs true rest
        | "help" => .help
        | "version" => .version
        | _ => .misuse
      | flags =>
        match readGlobalCluster verbose (flags.drop 1) with
        | .inl i => i
        | .inr verbose => readArgs verbose rest

def ofArgs (args : List String) : Invocation := readArgs false args

end Invocation
end Blueprint
