/-
**Reading a command line.**

A command line names a command and gives its file and options.  Words are read from left to right
and the first one that cannot be accepted decides what is wrong.  The value of an option, when it
is a word of its own, and the file are looked at late: when the next option that the command knows
or the next argument turns up, or at the end.  So an unknown option is reported before a bad value
in front of it.

The wish for more logging may stand before and behind the name of the command; what stands behind
it wins.

Main definitions:

* `GrammarCatalog.UsageError` — why a command line is not carried out;
* `GrammarCatalog.Subcommand`, `GrammarCatalog.Switch`, `GrammarCatalog.Parameter` — what a command
  line is made of;
* `GrammarCatalog.Reading` — what was read of a command, with the value that is to be looked at;
* `GrammarCatalog.Invocation.ofWords` — the invocation of a command line.
-/

import GrammarCatalog.CommandLine.Command
import GrammarCatalog.CommandLine.Word

set_option relaxedAutoImplicit false
set_option autoImplicit false

namespace GrammarCatalog

/-! ### Why a command line is not carried out -/

/-- Why a command line is not carried out. -/
inductive UsageError where
  /-- Help was asked for. -/
  | helpRequested
  /-- The version was asked for. -/
  | versionRequested
  /-- There is nothing on the command line. -/
  | nothingGiven
  /-- There are options but no command. -/
  | missingSubcommand
  /-- A word stands for no command. -/
  | invalidSubcommand
  /-- A word has no place on the command line. -/
  | unknownArgument
  /-- A value that is none of those allowed, or no value at all. -/
  | invalidValue
  /-- A value that is no number of the right size. -/
  | invalidNumber
  /-- A value for an option that has none. -/
  | unneededValue
  /-- Options that exclude each other, or one option twice. -/
  | conflict
  /-- The file is missing. -/
  | missingFile
  deriving DecidableEq, Repr, Inhabited

/-! ### What a command line is made of -/

/-- The commands by name. -/
inductive Subcommand where
  | names
  | startSymbols
  | tree
  deriving DecidableEq, Repr, Inhabited

namespace Subcommand

/-- How a command is named. -/
def name : Subcommand → String
  | names => "names"
  | startSymbols => "start-symbols"
  | tree => "tree"

/-- The command of a name; names are not abbreviated. -/
def ofName? (name : String) : Option Subcommand :=
  [names, startSymbols, tree].find? fun subcommand => subcommand.name == name

end Subcommand

/-- The command that shows help about commands. -/
def helpName : String := "help"

/-- Options without a value. -/
inductive Switch where
  | showInner
  | showConditional
  | hideAlias
  | hidePinned
  | all
  | markers
  | showAbsent
  deriving DecidableEq, Repr, Inhabited

/-- What has a value: options, and the file. -/
inductive Parameter where
  | file
  | format
  | extra
  | indent
  deriving DecidableEq, Repr, Inhabited

/-- What an option does. -/
inductive OptionAction where
  /-- It asks for more logging. -/
  | verbose
  /-- It asks for help. -/
  | help
  /-- It asks for the version. -/
  | version
  /-- It turns something on. -/
  | turnOn (switch : Switch)
  /-- It gives a value. -/
  | set (parameter : Parameter)
  deriving DecidableEq, Repr, Inhabited

/-- The options that stand before the name of a command. -/
def topOptions : List (String × OptionAction) :=
  [("verbose", .verbose), ("help", .help), ("version", .version)]

/-- The options that choose names. -/
def filterOptions : List (String × OptionAction) :=
  [("show-inner", .turnOn .showInner), ("show-conditional", .turnOn .showConditional),
    ("hide-alias", .turnOn .hideAlias), ("hide-pinned", .turnOn .hidePinned),
    ("all", .turnOn .all)]

/-- The options of a command, by their long names. -/
def Subcommand.options (subcommand : Subcommand) : List (String × OptionAction) :=
  let own :=
    match subcommand with
    | names => filterOptions ++ [("format", .set .format), ("markers", .turnOn .markers)]
    | startSymbols => filterOptions ++ [("extra", .set .extra), ("format", .set .format)]
    | tree => [("show-absent", .turnOn .showAbsent), ("indent", .set .indent)]
  own ++ [("verbose", .verbose), ("help", .help)]

/-- The letters of the options that have one. -/
def OptionAction.letter? : OptionAction → Option Char
  | verbose => some 'v'
  | help => some 'h'
  | version => some 'V'
  | _ => none

/-- The option of a long name. -/
def longOption? (options : List (String × OptionAction)) (name : String) : Option OptionAction :=
  (options.find? fun entry => entry.1 == name).map (·.2)

/-- The option of a letter. -/
def shortOption? (options : List (String × OptionAction)) (letter : Char) : Option OptionAction :=
  (options.find? fun entry => entry.2.letter? == some letter).map (·.2)

/-! ### What is given to a command -/

/-- What a command line gives to a command. -/
structure Given where
  /-- How often more logging was asked for. -/
  verbosity : Nat := 0
  /-- What was turned on. -/
  switches : List Switch := []
  /-- The file. -/
  file? : Option String := none
  /-- The form of the list. -/
  format? : Option Format := none
  /-- The width of a level of the tree. -/
  indent? : Option Nat := none
  /-- The further start symbols, in order. -/
  extra : List String := []
  deriving DecidableEq, Repr, Inhabited

namespace Given

/-- More logging cannot be asked for more often than this. -/
def maxVerbosity : Nat := 255

/-- More logging is asked for. -/
def raiseVerbosity (given : Given) : Given :=
  { given with verbosity := min (given.verbosity + 1) maxVerbosity }

/-- Something is turned on, which can be done once. -/
def turnOn (given : Given) (switch : Switch) : Except UsageError Given :=
  if given.switches.contains switch then .error .conflict
  else .ok { given with switches := given.switches ++ [switch] }

/-- A value is given.  Only further start symbols can be given more than once, and a second value
is not looked at. -/
def set (given : Given) (parameter : Parameter) (value : String) : Except UsageError Given :=
  match parameter with
  | .file => if value.isEmpty then .error .invalidValue else .ok { given with file? := some value }
  | .extra => .ok { given with extra := given.extra ++ [value] }
  | .format =>
      if given.format?.isSome then .error .conflict
      else
        match Format.ofName? value with
        | some format => .ok { given with format? := some format }
        | none => .error .invalidValue
  | .indent =>
      if given.indent?.isSome then .error .conflict
      else
        match Word.unsigned64? value with
        | some width => .ok { given with indent? := some width }
        | none => .error .invalidNumber

/-- Something was turned on. -/
def isOn (given : Given) (switch : Switch) : Bool := given.switches.contains switch

/-- The flags by which names are chosen. -/
def filter (given : Given) : FilterFlags :=
  ⟨given.isOn .showInner, given.isOn .showConditional, given.isOn .hideAlias,
    given.isOn .hidePinned, given.isOn .all⟩

/-- To list all names excludes the other choices of names. -/
def hasConflict (given : Given) : Bool :=
  given.isOn .all &&
    (given.isOn .showInner || given.isOn .showConditional || given.isOn .hideAlias ||
      given.isOn .hidePinned)

/-- The command of what is given to it.  Conflicts are reported before a missing file. -/
def command (given : Given) (subcommand : Subcommand) : Except UsageError Command :=
  if given.hasConflict then .error .conflict
  else
    match given.file? with
    | none => .error .missingFile
    | some file =>
        let format := given.format?.getD .text
        let style : Outline.Style := {}
        match subcommand with
        | .names => .ok (.names file given.filter format (given.isOn .markers))
        | .startSymbols => .ok (.startSymbols file given.extra given.filter format)
        | .tree =>
            .ok (.tree file
              { indentWidth := given.indent?.getD style.indentWidth
                showAbsent := given.isOn .showAbsent })

end Given

/-! ### Reading the words of a command -/

/-- What was read of a command: what is given for certain, and what has been named but not looked
at. -/
structure Reading where
  /-- What is given for certain. -/
  given : Given := {}
  /-- A parameter that was named, and its value unless that is still awaited. -/
  pending : Option (Parameter × Option String) := none
  /-- The word for the file was met. -/
  fileMet : Bool := false
  deriving DecidableEq, Repr, Inhabited

namespace Reading

/-- The pending value is looked at; a value that is still awaited is missing. -/
def settle (reading : Reading) : Except UsageError Reading :=
  match reading.pending with
  | none => .ok reading
  | some (_, none) => .error .invalidValue
  | some (parameter, some value) =>
      (reading.given.set parameter value).map fun given =>
        { reading with given := given, pending := none }

/-- An option without a value is met. -/
def meetSwitch (reading : Reading) (action : OptionAction) : Except UsageError Reading := do
  let reading ← reading.settle
  match action with
  | .verbose => return { reading with given := reading.given.raiseVerbosity }
  | .help => throw .helpRequested
  | .version => throw .versionRequested
  | .turnOn switch => return { reading with given := ← reading.given.turnOn switch }
  | .set parameter => return { reading with pending := some (parameter, none) }

/-- A long option is met.  An attached value is looked at, at once. -/
def meetLong (reading : Reading) (action : OptionAction) (value : Option String) :
    Except UsageError Reading :=
  match action, value with
  | .set parameter, some value => do
      let reading ← reading.settle
      return { reading with given := ← reading.given.set parameter value }
  | action, none => reading.meetSwitch action
  | _, some _ => .error .unneededValue

/-- The letters of short options are met, one after the other. -/
def meetLetters (options : List (String × OptionAction)) (reading : Reading) :
    List Char → Except UsageError Reading
  | [] => .ok reading
  | letter :: letters =>
      match shortOption? options letter with
      | none => .error .unknownArgument
      | some action => do (← reading.meetSwitch action).meetLetters options letters

/-- An argument is met: the file, which is the only one. -/
def meetArgument (reading : Reading) (text : String) : Except UsageError Reading :=
  if reading.fileMet then .error .unknownArgument
  else
    reading.settle.map fun reading =>
      { reading with pending := some (.file, some text), fileMet := true }

/-- A plain word is met: the value that is awaited, or an argument. -/
def meetPlain (reading : Reading) (text : String) : Except UsageError Reading :=
  match reading.pending with
  | some (parameter, none) => .ok { reading with pending := some (parameter, some text) }
  | _ => reading.meetArgument text

/-- Words behind the end of the options, which are arguments all of them. -/
def readArguments (reading : Reading) : List String → Except UsageError Reading
  | [] => .ok reading
  | text :: words => do (← reading.meetArgument text).readArguments words

/-- The words behind the name of a command. -/
def readWords (options : List (String × OptionAction)) (reading : Reading) :
    List String → Except UsageError Reading
  | [] => .ok reading
  | word :: words =>
      match Word.ofString word with
      | .separator => reading.readArguments words
      | .long name value =>
          match longOption? options name with
          | none => .error .unknownArgument
          | some action => do (← reading.meetLong action value).readWords options words
      | .short letters => do (← reading.meetLetters options letters).readWords options words
      | .plain text => do (← reading.meetPlain text).readWords options words

end Reading

/-! ### Reading a command line -/

/-- A command with the words behind its name. -/
def Subcommand.read (subcommand : Subcommand) (words : List String) :
    Except UsageError (Nat × Command) := do
  let reading ← Reading.readWords subcommand.options {} words
  let reading ← reading.settle
  return (reading.given.verbosity, ← reading.given.command subcommand)

/-- The words behind the command for help: at most one, the name of a command. -/
def helpTopic : List String → UsageError
  | [] => .helpRequested
  | [word] =>
      if (Subcommand.ofName? word).isSome || word == helpName then .helpRequested
      else .invalidSubcommand
  | _ => .invalidSubcommand

/-- A word behind the end of the options, where the name of a command should have stood. -/
def misplacedWord (word : String) : UsageError :=
  if (Subcommand.ofName? word).isSome || word == helpName then .unknownArgument
  else .invalidSubcommand

namespace Invocation

/-- There is no command: the line is empty, but for options. -/
def withoutCommand (top : Reading) : UsageError :=
  if top.given.verbosity = 0 then .nothingGiven else .missingSubcommand

/-- The words of a command line, of which some options were read. -/
def readWords (top : Reading) : List String → Except UsageError Invocation
  | [] => .error (withoutCommand top)
  | word :: words =>
      match Word.ofString word with
      | .separator =>
          match words with
          | [] => .error (withoutCommand top)
          | other :: _ => .error (misplacedWord other)
      | .long name value =>
          match longOption? topOptions name with
          | none => .error .unknownArgument
          | some action => do readWords (← top.meetLong action value) words
      | .short letters => do readWords (← top.meetLetters topOptions letters) words
      | .plain text =>
          match Subcommand.ofName? text with
          | some subcommand => do
              let (verbosity, command) ← subcommand.read words
              return ⟨if verbosity = 0 then top.given.verbosity else verbosity, command⟩
          | none => .error (if text == helpName then helpTopic words else .invalidSubcommand)

/-- The invocation of a command line, given without the name of the program. -/
def ofWords (words : List String) : Except UsageError Invocation := readWords {} words

end Invocation

end GrammarCatalog
