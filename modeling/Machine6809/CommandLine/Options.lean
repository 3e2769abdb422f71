import Machine6809.Text.Hex

/-!
# Options of the command line

A command line is a list of arguments. An argument names a file unless it begins with a dash; a
dash alone is a file too. There are two kinds of options.

* A **setting** has a value. It has a letter and a word: `-n 5`, `-n5`, `--steps 5` and
  `--steps=5` all mean the same. The argument after a setting without a value of its own is its
  value, whatever it looks like.
* A **request** has no value, and no letter.

All that follows `--` are files. Options and files may be mixed, and no option may be given twice.
`Arguments.read` reads a command line, and `usage` is the text that explains it.
-/

namespace Machine6809

namespace CommandLine

/-! ### The options -/

/-- An option with a value. -/
inductive Setting where
  /-- The address at which to begin. -/
  | entry
  /-- The address at which to stop. -/
  | stop
  /-- The number of instructions. -/
  | steps
  /-- The speed level of the clock. -/
  | speed
  deriving DecidableEq, Repr, Inhabited

namespace Setting

/-- All settings. -/
def list : List Setting := [.entry, .stop, .steps, .speed]

/-- The letter of a setting. -/
def letter : Setting → Char
  | .entry => 'e'
  | .stop => 'u'
  | .steps => 'n'
  | .speed => 's'

/-- The word of a setting. -/
def word : Setting → String
  | .entry => "entry"
  | .stop => "until"
  | .steps => "steps"
  | .speed => "speed"

/-- What stands for the value in the usage text. -/
def placeholder : Setting → String
  | .entry | .stop => "ADDR"
  | .steps => "N"
  | .speed => "LEVEL"

/-- What the setting does. -/
def explanation : Setting → String
  | .entry => "entry point address (default: reset vector at FFFE)"
  | .stop => "run until this PC"
  | .steps => "execute at most N instructions"
  | .speed => "clock speed level 0-15 (default: 7, 1MHz)"

end Setting

/-- An option without a value. -/
inductive Request where
  | selfTest
  | help
  | version
  deriving DecidableEq, Repr, Inhabited

namespace Request

/-- All requests. -/
def list : List Request := [.selfTest, .help, .version]

/-- The word of a request. -/
def word : Request → String
  | .selfTest => "selftest"
  | .help => "help"
  | .version => "version"

/-- What the request does. -/
def explanation : Request → String
  | .selfTest => "run the MMU self tests and exit"
  | .help => "display this help and exit"
  | .version => "output version information and exit"

end Request

/-- An option. -/
inductive Switch where
  | setting (s : Setting)
  | request (r : Request)
  deriving DecidableEq, Repr, Inhabited

namespace Switch

/-- All options. -/
def list : List Switch := Setting.list.map .setting ++ Request.list.map .request

/-- The word of an option. -/
def word : Switch → String
  | .setting s => s.word
  | .request r => r.word

/-- A text names an option: it is the word, or for a setting the letter. -/
def isNamed (name : String) : Switch → Bool
  | .setting s => name == s.word || name == String.singleton s.letter
  | .request r => name == r.word

/-- The option that a text names. -/
def named? (name : String) : Option Switch := list.find? (·.isNamed name)

end Switch

/-! ### Usage -/

/-- The column in which the explanations of the options begin. -/
def explanationColumn : Nat := 24

/-- One line of the usage text. -/
def usageLine (option explanation : String) : String :=
  option ++ String.ofList (List.replicate (explanationColumn - option.length) ' ') ++ explanation
    ++ "\n"

/-- The line that explains an option. -/
def Switch.usage : Switch → String
  | .setting s =>
    usageLine s!"    -{s.letter}, --{s.word} {s.placeholder}" s.explanation
  | .request r => usageLine s!"        --{r.word}" r.explanation

/-- The text that explains the command line. -/
def usage : String :=
  "Usage: sbc09emu [OPTIONS...] FILE...\n\nOptions:\n" ++ String.join (Switch.list.map (·.usage))

/-! ### Arguments -/

/-- What one argument is, looked at by itself. -/
inductive Argument where
  /-- A file. -/
  | file
  /-- The mark after which all arguments are files. -/
  | endOfOptions
  /-- The name of an option, and a value that is attached to it. -/
  | option (name : String) (value : Option String)
  deriving DecidableEq, Repr, Inhabited

/-- The text in front of the first equals sign, and what follows it if there is one. -/
def cutAtEquals (text : List Char) : String × Option String :=
  match text.span (· ≠ '=') with
  | (name, []) => (String.ofList name, none)
  | (name, _ :: value) => (String.ofList name, some (String.ofList value))

/-- What an argument is. -/
def Argument.classify : List Char → Argument
  | ['-', '-'] => .endOfOptions
  | '-' :: '-' :: text => .option (cutAtEquals text).1 (cutAtEquals text).2
  | ['-', letter] => .option (String.singleton letter) none
  | '-' :: letter :: value => .option (String.singleton letter) (some (String.ofList value))
  | _ => .file

/-- What is wrong with a command line. -/
inductive UsageError where
  /-- There is no such option. -/
  | unrecognized (name : String)
  /-- A setting stands at the end without its value. -/
  | valueMissing (name : String)
  /-- A request has a value attached. -/
  | valueUnexpected (name : String)
  /-- An option is given twice. -/
  | repeated (option : Switch)
  /-- There is nothing to do. -/
  | noFiles
  deriving DecidableEq, Repr, Inhabited

/-- The error in words. -/
def UsageError.message : UsageError → String
  | .unrecognized name => s!"Unrecognized option: {quoted name}"
  | .valueMissing name => s!"Argument to option {quoted name} missing"
  | .valueUnexpected name => s!"Option {quoted name} does not take an argument"
  | .repeated option => s!"Option {quoted option.word} given more than once"
  | .noFiles => "no input files"

/-- A command line, sorted. -/
structure Arguments where
  /-- The settings with their values, in the order given. -/
  settings : List (Setting × String)
  /-- The requests in the order given. -/
  requests : List Request
  /-- The files in the order given. -/
  files : List String
  deriving DecidableEq, Repr

namespace Arguments

/-- Arguments that are all files. -/
def ofFiles (files : List String) : Arguments := { settings := [], requests := [], files }

/-- A setting in front. -/
def addSetting (s : Setting) (value : String) (arguments : Arguments) : Arguments :=
  { arguments with settings := (s, value) :: arguments.settings }

/-- A request in front. -/
def addRequest (r : Request) (arguments : Arguments) : Arguments :=
  { arguments with requests := r :: arguments.requests }

/-- A file in front. -/
def addFile (file : String) (arguments : Arguments) : Arguments :=
  { arguments with files := file :: arguments.files }

/-- The value of a setting. -/
def value? (arguments : Arguments) (s : Setting) : Option String := arguments.settings.lookup s

/-- A request is made. -/
def asks (arguments : Arguments) (r : Request) : Bool := arguments.requests.contains r

/-- The number of times an option is given. -/
def count (arguments : Arguments) : Switch → Nat
  | .setting s => (arguments.settings.map Prod.fst).count s
  | .request r => arguments.requests.count r

/-- Sort arguments, whether or not options are repeated. -/
def sort : List String → Except UsageError Arguments
  | [] => .ok (ofFiles [])
  | arg :: rest =>
    match Argument.classify arg.toList with
    | .file => (sort rest).map (addFile arg)
    | .endOfOptions => .ok (ofFiles rest)
    | .option name value =>
      match Switch.named? name, value, rest with
      | none, _, _ => .error (.unrecognized name)
      | some (.request r), none, rest => (sort rest).map (addRequest r)
      | some (.request _), some _, _ => .error (.valueUnexpected name)
      | some (.setting s), some value, rest => (sort rest).map (addSetting s value)
      | some (.setting s), none, value :: rest => (sort rest).map (addSetting s value)
      | some (.setting _), none, [] => .error (.valueMissing name)

/-- Read a command line. -/
def read (args : List String) : Except UsageError Arguments := do
  let arguments ← sort args
  match Switch.list.find? (1 < arguments.count ·) with
  | some option => throw (.repeated option)
  | none => return arguments

end Arguments

end CommandLine

end Machine6809
