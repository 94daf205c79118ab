import ComponentWiring.Command.Generate

/-!
Reading the command line. Arguments are read from left to right, and the first one that is wrong, or
that asks for help or for the version, ends the reading. A value that starts with a dash is no
value, unless it is nothing but a dash; an option that is not meant to be repeated is refused the
second time; two options count at both levels, and the deeper one wins.
-/

namespace ComponentWiring

open Text

/-- An option. -/
inductive CommandOption
  | verbose
  | format
  | help
  | version
  | source
  | manifest
  | output
  | mode
  | policy
  | configuration
  | clean
  | convention
  deriving DecidableEq, Repr, Inhabited

namespace CommandOption

/-- The long name. -/
def long : CommandOption → String
  | verbose => "verbose"
  | format => "format"
  | help => "help"
  | version => "version"
  | source => "source"
  | manifest => "manifest"
  | output => "output"
  | mode => "mode"
  | policy => "zero-injected"
  | configuration => "config"
  | clean => "clean"
  | convention => "default-convention"

/-- The letter, for an option that has one. -/
def letter? : CommandOption → Option Char
  | verbose => some 'v'
  | help => some 'h'
  | version => some 'V'
  | source => some 's'
  | output => some 'o'
  | configuration => some 'c'
  | _ => none

/-- Whether a value belongs to the option. -/
def takesValue : CommandOption → Bool
  | verbose | help | version | clean => false
  | _ => true

/-- Whether the option may come more than once. -/
def isRepeatable (o : CommandOption) : Bool :=
  o == source

/-- Whether the value is a path, which must not be empty. -/
def isPath : CommandOption → Bool
  | source | manifest | output | configuration => true
  | _ => false

end CommandOption

/-- A part of the command line. -/
inductive CommandLevel
  | root
  | generate
  | scan
  | completions
  deriving DecidableEq, Repr, Inhabited

namespace CommandLevel

/-- The options that may come at a level. -/
def options : CommandLevel → List CommandOption
  | root => [.verbose, .format, .help, .version]
  | generate =>
    [.verbose, .format, .help, .source, .manifest, .output, .mode, .policy, .configuration, .clean]
  | scan => [.verbose, .format, .help, .source, .convention]
  | completions => [.verbose, .format, .help]

/-- The command of a name. -/
def ofName? : String → Option CommandLevel
  | "generate" => some generate
  | "scan" => some scan
  | "completions" => some completions
  | _ => none

/-- The shells for which there are completion scripts. -/
def completionShells : List String :=
  ["bash", "elvish", "fish", "powershell", "zsh"]

/-- Whether an argument that is no option may come behind those that came before it: the name of
one shell, where a completion script is asked for. -/
def acceptsPositional (level : CommandLevel) (before : List String) (argument : String) : Bool :=
  level == completions && before.isEmpty && completionShells.contains argument

end CommandLevel

/-- What ends the reading early. -/
inductive ArgumentStop
  | help
  | version
  | misuse
  deriving DecidableEq, Repr, Inhabited

/-- What was given at one level. -/
structure GivenArguments where
  options : List (CommandOption × String) := []
  positionals : List String := []
  deriving DecidableEq, Repr, Inhabited

namespace GivenArguments

/-- Whether an option was given. -/
def has (given : GivenArguments) (o : CommandOption) : Bool :=
  given.options.any (·.1 == o)

/-- The value of an option. -/
def value? (given : GivenArguments) (o : CommandOption) : Option String :=
  given.options.lookup o

/-- The values of an option, in order. -/
def values (given : GivenArguments) (o : CommandOption) : List String :=
  (given.options.filter (·.1 == o)).map (·.2)

/-- Takes an option with its value, an empty one for an option without. -/
def add (given : GivenArguments) (o : CommandOption) (value : String) :
    Except ArgumentStop GivenArguments :=
  match o with
  | .help => .error .help
  | .version => .error .version
  | _ =>
    if (given.has o && !o.isRepeatable) || (o.isPath && value.isEmpty) then .error .misuse
    else .ok { given with options := given.options ++ [(o, value)] }

/-- Takes an argument that is no option. -/
def addPositional (given : GivenArguments) (level : CommandLevel) (argument : String) :
    Except ArgumentStop GivenArguments :=
  if level.acceptsPositional given.positionals argument then
    .ok { given with positionals := given.positionals ++ [argument] }
  else .error .misuse

end GivenArguments

/-- What was given so far, and the option that still waits for its value. -/
abbrev Awaiting := GivenArguments × Option CommandOption

/-- Takes letters that stand together behind one dash. Whatever follows an option with a value is
its value, without a leading equals sign. -/
def takeLetters (level : CommandLevel) (given : GivenArguments) :
    List Char → Except ArgumentStop Awaiting
  | [] => .ok (given, none)
  | c :: rest =>
    match level.options.find? (·.letter? == some c) with
    | none => .error .misuse
    | some o =>
      if o.takesValue then
        match rest with
        | [] => .ok (given, some o)
        | '=' :: value => (given.add o (String.ofList value)).map (·, none)
        | value => (given.add o (String.ofList value)).map (·, none)
      else
        match given.add o "" with
        | .ok given => takeLetters level given rest
        | .error stop => .error stop

/-- Takes an option that is written out, with its value if there is an equals sign. -/
def takeWord (level : CommandLevel) (given : GivenArguments) (word : List Char) :
    Except ArgumentStop Awaiting :=
  let (name, value) :=
    match splitFirst '=' word with
    | some (name, value) => (name, some (String.ofList value))
    | none => (word, none)
  match level.options.find? (·.long == String.ofList name) with
  | none => .error .misuse
  | some o =>
    match o.takesValue, value with
    | true, some value => (given.add o value).map (·, none)
    | true, none => .ok (given, some o)
    | false, some _ => .error .misuse
    | false, none => (given.add o "").map (·, none)

/-- Takes arguments none of which is an option. -/
def takePositionals (level : CommandLevel) (given : GivenArguments) (arguments : List String) :
    Except ArgumentStop GivenArguments :=
  arguments.foldlM (fun given argument => given.addPositional level argument) given

/-- Whether an argument can be the value of an option. -/
def isValue (argument : String) : Bool :=
  argument == "-" || !argument.startsWith "-"

/-- Takes the arguments of a level. At the root, the first argument that is no option names the
command, and it is returned with those that follow. -/
def takeArguments (level : CommandLevel) :
    Awaiting → List String → Except ArgumentStop (GivenArguments × List String)
  | (given, none), [] => .ok (given, [])
  | (_, some _), [] => .error .misuse
  | (given, some o), argument :: rest =>
    if isValue argument then
      match given.add o argument with
      | .ok given => takeArguments level (given, none) rest
      | .error stop => .error stop
    else .error .misuse
  | (given, none), argument :: rest =>
    match argument.toList with
    | ['-', '-'] => (takePositionals level given rest).map (·, [])
    | '-' :: '-' :: word =>
      match takeWord level given word with
      | .ok awaiting => takeArguments level awaiting rest
      | .error stop => .error stop
    | '-' :: c :: letters =>
      match takeLetters level given (c :: letters) with
      | .ok awaiting => takeArguments level awaiting rest
      | .error stop => .error stop
    | _ =>
      if level = .root then .ok (given, argument :: rest)
      else
        match given.addPositional level argument with
        | .ok given => takeArguments level (given, none) rest
        | .error stop => .error stop

/-! ## Commands -/

/-- A command with its options. -/
inductive Command
  | generate (options : GenerateOptions)
  | scan (sources : List String) (convention : Option String)
  /-- A completion script for a shell. -/
  | completions (shell : String)
  deriving DecidableEq, Repr, Inhabited

/-- A command and the name of the output format. -/
structure Invocation where
  command : Command
  format : String := "pretty"
  deriving DecidableEq, Repr, Inhabited

namespace Invocation

/-- The command of a level, with what was given for it. The mode may also come from the
environment. -/
def commandOf (environmentMode : Option String) (given : GivenArguments) :
    CommandLevel → Except ArgumentStop Command
  | .root => .error .misuse
  | .generate =>
    .ok (.generate {
      sources := given.values .source
      manifest := given.value? .manifest
      output := given.value? .output
      mode := given.value? .mode <|> environmentMode
      policy := given.value? .policy
      configuration := given.value? .configuration
      clean := given.has .clean })
  | .scan =>
    if given.has .source then .ok (.scan (given.values .source) (given.value? .convention))
    else .error .misuse
  | .completions =>
    match given.positionals with
    | [shell] => .ok (.completions shell)
    | _ => .error .misuse

/-- What asking for help about commands ends with. -/
def helpAbout : List String → ArgumentStop
  | [] => .help
  | [name] => if (CommandLevel.ofName? name).isSome || name == "help" then .help else .misuse
  | _ => .misuse

/-- Reads a command line. -/
def parse (environmentMode : Option String) (arguments : List String) :
    Except ArgumentStop Invocation := do
  let (atRoot, left) ← takeArguments .root ({}, none) arguments
  match left with
  | [] => throw .misuse
  | "help" :: names => throw (helpAbout names)
  | name :: rest =>
    match CommandLevel.ofName? name with
    | none => throw .misuse
    | some level =>
      let (given, _) ← takeArguments level ({}, none) rest
      let command ← commandOf environmentMode given level
      return { command
               format := (given.value? .format <|> atRoot.value? .format).getD "pretty" }

end Invocation

end ComponentWiring
