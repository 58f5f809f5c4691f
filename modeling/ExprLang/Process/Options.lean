/-!
# Command line options

Arguments are read from left to right. A request for help or for the version, and the first
fault, end the reading at once. Switches have long names, some also short ones, and short ones
may be combined. Two dashes by themselves make the rest positional; one dash by itself and the
empty text are positional anyway. At most one argument is positional.
-/

namespace ExprLang

/-- What the options ask for. -/
structure Options where
  /-- The positional argument names a file that holds the script. -/
  file : Bool
  /-- Tokens are listed before a run. -/
  tokens : Bool
  /-- Statements are listed before a run. -/
  ast : Bool
  /-- The positional argument. -/
  contents : Option String
deriving DecidableEq, Repr

/-- No argument read yet. -/
def Options.empty : Options := ⟨false, false, false, none⟩

/-- A switch of the command line. -/
inductive Switch where
  | file
  | tokens
  | ast
  | help
  | version
deriving DecidableEq, Repr

namespace Switch

/-- The switch with a long name. -/
def ofLongName? : String → Option Switch
  | "file" => some file
  | "tokens" => some tokens
  | "ast" => some ast
  | "help" => some help
  | "version" => some version
  | _ => none

/-- The switch with a short name. -/
def ofShortName? : Char → Option Switch
  | 'f' => some file
  | 'h' => some help
  | 'V' => some version
  | _ => none

end Switch

/-- What is wrong with an argument. -/
inductive UsageError where
  /-- No switch has this name. -/
  | unknownSwitch (name : String)
  /-- A switch was given a value. -/
  | unexpectedValue (name : String)
  /-- A switch was given a second time. -/
  | repeated (switch : Switch)
  /-- A second positional argument. -/
  | extraArgument (argument : String)
deriving DecidableEq, Repr

namespace UsageError

/-- The description of a usage error. -/
def message : UsageError → String
  | unknownSwitch name => "unexpected argument '" ++ name ++ "' found"
  | unexpectedValue name => "unexpected value for '" ++ name ++ "' found"
  | repeated _ => "an argument cannot be used multiple times"
  | extraArgument argument => "unexpected argument '" ++ argument ++ "' found"

end UsageError

/-- Why the reading of arguments ended before the last one. -/
inductive Interruption where
  | help
  | version
  | rejected (error : UsageError)
deriving DecidableEq, Repr

namespace Options

/-- Takes a switch. -/
def addSwitch (options : Options) (switch : Switch) : Except Interruption Options :=
  let once (given : Bool) (updated : Options) : Except Interruption Options :=
    if given then .error (.rejected (.repeated switch)) else .ok updated
  match switch with
  | .file => once options.file { options with file := true }
  | .tokens => once options.tokens { options with tokens := true }
  | .ast => once options.ast { options with ast := true }
  | .help => .error .help
  | .version => .error .version

/-- Takes a switch with a short name. -/
def addShort (options : Options) (name : Char) : Except Interruption Options :=
  match Switch.ofShortName? name with
  | some switch => options.addSwitch switch
  | none => .error (.rejected (.unknownSwitch (String.singleton name)))

/-- Takes what stands behind two dashes: a long name, which an equals sign and a value may follow,
though no switch takes a value. -/
def addLong (options : Options) (text : List Char) : Except Interruption Options :=
  let name := String.ofList (text.takeWhile (· ≠ '='))
  match Switch.ofLongName? name with
  | none => .error (.rejected (.unknownSwitch name))
  | some switch =>
    if '=' ∈ text then .error (.rejected (.unexpectedValue name)) else options.addSwitch switch

/-- Takes a positional argument. -/
def addPositional (options : Options) (argument : String) : Except Interruption Options :=
  match options.contents with
  | none => .ok { options with contents := some argument }
  | some _ => .error (.rejected (.extraArgument argument))

/-- Takes arguments, after some have been read. -/
def addArguments (options : Options) : List String → Except Interruption Options
  | [] => .ok options
  | argument :: arguments =>
    match argument.toList with
    | ['-', '-'] => arguments.foldlM addPositional options
    | '-' :: '-' :: text => do (← options.addLong text).addArguments arguments
    | '-' :: name :: names => do
      (← (name :: names).foldlM addShort options).addArguments arguments
    | _ => do (← options.addPositional argument).addArguments arguments

/-- The options that arguments ask for. -/
def ofArguments (arguments : List String) : Except Interruption Options :=
  empty.addArguments arguments

end Options

end ExprLang
