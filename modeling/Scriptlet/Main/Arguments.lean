import Scriptlet.CommandLine

/-!
The arguments of the command. Arguments are read from left to right; asking for the version or for
help stops the reading, so it wins over every mistake behind it and over mistakes that show only in
the whole.
-/

namespace Scriptlet.Main

open Text CommandLine

inductive UsageError where
  | unknownOption (argument : String)
  /-- An option that takes no value was given one. -/
  | valueNotTaken (option : String)
  | valueMissing (option : String)
  | repeated (option : String)
  | unexpected (argument : String)
  | sourceAndFile
deriving DecidableEq, Repr

def UsageError.message : UsageError → String
  | unknownOption argument => "there is no option " ++ argument
  | valueNotTaken option => option ++ " takes no value"
  | valueMissing option => option ++ " needs a value"
  | repeated option => option ++ " may be given once only"
  | unexpected argument => "one argument too many: " ++ argument
  | sourceAndFile => "--eval cannot be used together with a file"

inductive Item where
  | file (path : String)
  | source (text : Option String)
  | prompt (text : Option String)
  | verbose
  | version
  | help
  | mistake (error : UsageError)
deriving DecidableEq, Repr

/-- An argument that may be the value of the option before it: any that does not look like an
option. A dash alone is an ordinary argument. -/
def isPlain (argument : String) : Bool :=
  match argument.toList with
  | '-' :: _ :: _ => false
  | _ => true

def attached (value : List Char) : String :=
  match value with
  | '=' :: value => String.ofList value
  | value => String.ofList value

inductive Reading where
  | done (items : List Item)
  /-- The last option has its value in the next argument. -/
  | pending (items : List Item) (option : Option String → Item)

def Reading.after (item : Item) : Reading → Reading
  | done items => done (item :: items)
  | pending items option => pending (item :: items) option

/-- Reads the letters of an argument with one dash. An option with a value takes all that is left.
-/
def readLetters : List Char → Reading
  | [] => .done []
  | 'v' :: rest => (readLetters rest).after .verbose
  | 'V' :: rest => (readLetters rest).after .version
  | 'h' :: rest => (readLetters rest).after .help
  | 'e' :: [] => .pending [] .source
  | 'e' :: value => .done [.source (some (attached value))]
  | letter :: _ => .done [.mistake (.unknownOption (String.ofList ['-', letter]))]

def readOption (name : String) (value : Option String) : Reading :=
  match name, value with
  | "eval", none => .pending [] .source
  | "eval", some text => .done [.source (some text)]
  | "prompt", none => .pending [] .prompt
  | "prompt", some text => .done [.prompt (some text)]
  | "verbose", none => .done [.verbose]
  | "version", none => .done [.version]
  | "help", none => .done [.help]
  | name, value =>
      if name ∈ ["verbose", "version", "help"] ∧ value.isSome then
        .done [.mistake (.valueNotTaken ("--" ++ name))]
      else .done [.mistake (.unknownOption ("--" ++ name))]

def splitOption (text : List Char) : String × Option String :=
  (String.ofList (text.takeWhile (· != '=')),
    match text.dropWhile (· != '=') with
    | [] => none
    | _ :: value => some (String.ofList value))

def readArgument (argument : String) : Reading :=
  match argument.toList with
  | '-' :: '-' :: option => readOption (splitOption option).1 (splitOption option).2
  | '-' :: letter :: letters => readLetters (letter :: letters)
  | _ => .done [.file argument]

/-- What all arguments say, in order. Behind two dashes alone every argument names a file. -/
def readArguments : List String → List Item
  | [] => []
  | argument :: rest =>
      if argument = "--" then rest.map .file
      else
        match readArgument argument with
        | .done items => items ++ readArguments rest
        | .pending items option =>
            match rest with
            | value :: rest =>
                if isPlain value then items ++ option (some value) :: readArguments rest
                else items ++ option none :: readArguments (value :: rest)
            | [] => items ++ [option none]

inductive Request where
  | run (options : Options)
  | version
  | help
deriving DecidableEq, Repr

structure Given where
  file : Option String
  sources : List (Option String)
  prompts : List (Option String)

def once (name : String) : List (Option String) → Except UsageError (Option String)
  | [] => .ok none
  | [some value] => .ok (some value)
  | [none] => .error (.valueMissing name)
  | _ => .error (.repeated name)

def Given.request (given : Given) : Except UsageError Request := do
  let source ← once "--eval" given.sources
  let prompt ← once "--prompt" given.prompts
  if source.isSome ∧ given.file.isSome then
    throw .sourceAndFile
  return .run ⟨given.file, source, prompt.getD Shell.defaultPrompt⟩

def requestFrom (given : Given) : List Item → Except UsageError Request
  | [] => given.request
  | .file path :: rest =>
      match given.file with
      | some _ => .error (.unexpected path)
      | none => requestFrom { given with file := some path } rest
  | .source text :: rest => requestFrom { given with sources := text :: given.sources } rest
  | .prompt text :: rest => requestFrom { given with prompts := text :: given.prompts } rest
  | .verbose :: rest => requestFrom given rest
  | .version :: _ => .ok .version
  | .help :: _ => .ok .help
  | .mistake error :: _ => .error error

def request (arguments : List String) : Except UsageError Request :=
  requestFrom ⟨none, [], []⟩ (readArguments arguments)

def versionText : String := "monke 0.1.0\n"

def usageText : String :=
  "usage: monke [FILE] [-e|--eval SOURCE] [--prompt TEXT] [-v|--verbose ...]\n"

def settle (arguments : List String) : Completion ⊕ Options :=
  match request arguments with
  | .error error => .inl ⟨2, [], encode (error.message ++ "\n" ++ usageText)⟩
  | .ok .version => .inl (succeeded versionText)
  | .ok .help => .inl (succeeded usageText)
  | .ok (.run options) => .inr options

end Scriptlet.Main
