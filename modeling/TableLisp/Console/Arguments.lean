import TableLisp.Text.Digit

/-!
# Command-line arguments

What the arguments of a command line ask for. An argument is a switch, an operand, or two dashes
after which every argument is an operand. Long switches may be cut short, their value may follow
an equals sign, and the value of a short switch may follow it directly. There is one operand, the
program file.

- `Argument.classify`: what each argument is, before any is acted on.
- `Command.ofArguments`: what all of them ask for.
- `Options.task`: what is to be run.
-/

namespace TableLisp

open Text

/-! ## Switches -/

inductive Switch
  | help | eval | noColor | logLevel | version
  deriving DecidableEq, Repr

namespace Switch

def all : List Switch :=
  [help, eval, noColor, logLevel, version]

def longName : Switch → String
  | help => "help"
  | eval => "eval"
  | noColor => "no-color"
  | logLevel => "log-level"
  | version => "version"

def letter? : Switch → Option Char
  | help => some 'h'
  | eval => some 'e'
  | noColor | logLevel | version => none

/-- The switches whose long spelling begins with some characters. -/
def completions (start : List Char) : List Switch :=
  all.filter fun switch => start.isPrefixOf switch.longName.toList

def ofLetter? (c : Char) : Option Switch :=
  all.find? fun switch => switch.letter? == some c

end Switch

/-! ## Single arguments -/

inductive Argument
  /-- A text that is no switch. -/
  | operand (text : String)
  /-- Two dashes. -/
  | dashes
  /-- A switch, how it was spelled, and the value that is part of the argument. -/
  | switch (switch : Switch) (long : Bool) (value : Option (List Char))
  /-- Something that looks like a switch and is none. -/
  | unknown
  deriving DecidableEq, Repr

namespace Argument

/-- The characters before the first equals sign, and those after it if there is one. -/
def cutEquals (cs : List Char) : List Char × Option (List Char) :=
  (cs.takeWhile (· != '='),
    match cs.dropWhile (· != '=') with
    | [] => none
    | _ :: value => some value)

/-- The digits of a negative number after its minus, with at most one point among them that digits
follow. A line feed at the end does not count. -/
def isNumber (cs : List Char) : Bool :=
  let cs := if cs.getLast? = some '\n' then cs.dropLast else cs
  let isDigit := fun c => (digitValue? c).isSome
  match cs.dropWhile isDigit with
  | [] => !cs.isEmpty
  | '.' :: places => !places.isEmpty && places.all isDigit
  | _ => false

/-- What an argument is that begins with a dash and spells no switch. -/
def unspelled (text : String) : Argument :=
  if isNumber (text.toList.drop 1) || text.toList.contains ' ' then .operand text else .unknown

/-- What an argument is; nothing if it is short for several switches. -/
def classify (text : String) : Option Argument :=
  match text.toList with
  | '-' :: '-' :: [] => some .dashes
  | '-' :: '-' :: rest =>
    let (name, value) := cutEquals rest
    match Switch.completions name with
    | [found] => some (.switch found true value)
    | [] => some (unspelled text)
    | _ => none
  | '-' :: c :: rest =>
    match Switch.ofLetter? c, rest with
    | some found, [] => some (.switch found false none)
    | some found, '=' :: value => some (.switch found false (some value))
    | some found, value => some (.switch found false (some value))
    | none, _ => some (unspelled text)
  | _ => some (.operand text)

/-- What each argument is, all being operands after two dashes. -/
def classifyAll : List String → Option (List Argument)
  | [] => some []
  | text :: rest => do
    match ← classify text with
    | .dashes => return .dashes :: rest.map .operand
    | argument => return argument :: (← classifyAll rest)

end Argument

/-! ## Options -/

/-- What the arguments give for a setting: nothing at all, a switch that is left without its value,
or a value. -/
inductive Setting
  | absent
  | blank
  | text (value : String)
  deriving DecidableEq, Repr

/-- What a value gives that is part of the switch's argument. Two dashes leave the switch without
one, as they are not counted among the values. -/
def Setting.ofAttached (value : List Char) : Setting :=
  if value = ['-', '-'] then .blank else .text (.ofList value)

/-- What a command line asks to be run. -/
structure Options where
  code : Setting
  file : Option String
  color : Bool
  logLevel : Setting
  deriving DecidableEq, Repr

inductive Task
  | program (code : String)
  | file (name : String)
  | conversation (color : Bool)
  deriving DecidableEq, Repr

/-- What breaks a run off: a log level without a value, a null character in the name of a file, or
a numeral that is too long. -/
inductive Breakdown
  | levelMissing
  | nullInName
  | numeralTooLong
  deriving DecidableEq, Repr

/-- What the options ask to be run. Code in an argument goes before a file, and where its switch
has no value it is empty. -/
def Options.task (options : Options) : Except Breakdown Task :=
  if options.logLevel = .blank then .error .levelMissing
  else
    match options.code, options.file with
    | .text code, _ => .ok (.program code)
    | .blank, _ => .ok (.program "")
    | .absent, some name =>
      if name.toList.contains '\x00' then .error .nullInName else .ok (.file name)
    | .absent, none => .ok (.conversation options.color)

/-! ## Commands -/

inductive Command
  | run (options : Options)
  | showVersion
  | showHelp
  | refused
  deriving DecidableEq, Repr

namespace Command

/-- Whether help is given although letters follow the help switch in its argument. They may be
help switches again, and then the switch of code with its value, in the argument or in the next. -/
def helpsDespite (next : List Argument) : List Char → Bool
  | [] => true
  | c :: rest =>
    match Switch.ofLetter? c with
    | some .eval =>
      !rest.isEmpty || (match next with
        | .operand _ :: _ => true
        | _ => false)
    | some _ => helpsDespite next rest
    | none => false

/-- Acts on arguments in order. `taken` says that the operand is settled, and `excess` that
something was found which no switch and no operand accounts for. -/
def act (options : Options) (taken excess : Bool) : List Argument → Command
  | [] => if excess then .refused else .run options
  | .unknown :: rest => act options taken true rest
  | .dashes :: .operand text :: rest =>
    if taken then act options taken true rest
    else act { options with file := some text } true excess rest
  | .dashes :: rest => act options true (excess || taken) rest
  | .operand text :: .dashes :: rest =>
    if taken then act options taken true rest
    else act { options with file := some text } true excess rest
  | .operand text :: rest =>
    if taken then act options taken true rest
    else act { options with file := some text } true excess rest
  | .switch .help long value :: rest =>
    match value with
    | none => .showHelp
    | some letters =>
      if !long && !letters.isEmpty && helpsDespite rest letters then .showHelp else .refused
  | .switch .version _ value :: _ => if value.isNone then .showVersion else .refused
  | .switch .noColor _ value :: rest =>
    if value.isNone then act { options with color := false } taken excess rest else .refused
  | .switch .eval _ (some value) :: rest =>
    act { options with code := .ofAttached value } taken excess rest
  | .switch .eval _ none :: .operand text :: rest =>
    act { options with code := .text text } taken excess rest
  | .switch .logLevel _ (some value) :: rest =>
    act { options with logLevel := .ofAttached value } taken excess rest
  | .switch .logLevel _ none :: .operand text :: rest =>
    act { options with logLevel := .text text } taken excess rest
  | .switch _ _ none :: _ => .refused

def ofArguments (arguments : List String) : Command :=
  match Argument.classifyAll arguments with
  | none => .refused
  | some arguments => act ⟨.absent, none, true, .absent⟩ false false arguments

end Command

end TableLisp
