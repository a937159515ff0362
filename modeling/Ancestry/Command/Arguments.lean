import Ancestry.Command.Options
import Ancestry.Text.Digit

/-!
Arguments of the command line. First each argument is told to be an option or a plain one; then the
options take their values from left to right. A long option may be cut short as long as one option
alone starts that way, and a value may follow an equals sign.
-/

namespace Ancestry.Command

/-- What is attached to a flag in the same argument. -/
inductive Attachment where
  | nothing
  | value (value : String)
  /-- What follows a flag of one letter, with an equals sign between or directly. -/
  | letters (letters : List Char)
  deriving DecidableEq, Repr

/-- What an argument is taken for. -/
inductive Role where
  | plain
  /-- Two dashes; all arguments behind them are plain. -/
  | divider
  | option (flag : Flag) (attachment : Attachment)
  | unknownOption
  deriving DecidableEq, Repr

/-- What a command line asks for. -/
inductive Invocation where
  | run (options : Options)
  | help
  | misuse (error : UsageError)
  deriving DecidableEq, Repr

/-- Divides a text at its first equals sign. -/
def splitEquals (s : String) : String × Option String :=
  let name := s.toList.takeWhile (· ≠ '=')
  match s.toList.drop name.length with
  | [] => (s, none)
  | _ :: value => (String.ofList name, some (String.ofList value))

def Attachment.ofValue? : Option String → Attachment
  | none => .nothing
  | some given => .value given

/-- Whether a text is a number below zero, perhaps with a line break at its end. -/
def isNegativeNumber (s : List Char) : Bool :=
  let s := if s.getLast? = some '\n' then s.dropLast else s
  match s with
  | '-' :: t =>
    let whole := t.takeWhile Text.isDigit
    match t.dropWhile Text.isDigit with
    | [] => whole ≠ []
    | '.' :: fraction => fraction ≠ [] && fraction.all Text.isDigit
    | _ => false
  | _ => false

/-- The options that an argument that is no exact spelling may stand for. -/
def candidates (argument : String) : List (String × Flag × Attachment) :=
  match argument.toList with
  | '-' :: '-' :: _ =>
    let (start, value?) := splitEquals argument
    (Flag.spellings.filter fun e => start.toList.isPrefixOf e.1.toList).map fun e =>
      (e.1, e.2, .ofValue? value?)
  | dash :: letter :: letters =>
    (Flag.spellings.filter fun e => e.1 = String.ofList [dash, letter]).map fun e =>
      (e.1, e.2, .letters letters)
  | _ => []

/-- What an argument that starts with a dash is taken for. -/
def dashedRole (argument : String) : Except UsageError Role :=
  let (name, value?) := splitEquals argument
  match Flag.ofSpelling? argument, argument.length, value?.bind fun _ => Flag.ofSpelling? name with
  | some flag, _, _ => .ok (.option flag .nothing)
  | none, 1, _ => .ok .plain
  | none, _, some flag =>
    .ok (.option flag (if name.length = 2 then .letters (value?.getD "").toList
      else .ofValue? value?))
  | none, _, none =>
    match candidates argument with
    | [(_, flag, attachment)] => .ok (.option flag attachment)
    | [] =>
      .ok (if isNegativeNumber argument.toList || argument.toList.contains ' ' then .plain
        else .unknownOption)
    | several => .error (.ambiguous argument (several.map (·.1)))

/-- What an argument is taken for on its own. -/
def roleOf (argument : String) : Except UsageError Role :=
  if argument = "--" then .ok .divider
  else if argument.toList.head? = some '-' then dashedRole argument
  else .ok .plain

/-- The roles of all arguments. -/
def roles : List String → Except UsageError (List (String × Role))
  | [] => .ok []
  | argument :: rest => do
    let role ← roleOf argument
    if role = .divider then
      return (argument, .divider) :: rest.map fun a => (a, Role.plain)
    return (argument, role) :: (← roles rest)

/-- Gives a flag its value. -/
def Options.set (o : Options) (flag : Flag) (value : String) : Except UsageError Options :=
  match flag with
  | .help => .ok o
  | .projectRoot => .ok { o with projectRoot? := some (Path.ofString value) }
  | .config => .ok { o with config? := some (Path.ofString value) }
  | .logDirectory => .ok { o with logDirectory? := some (Path.ofString value) }
  | .transport =>
    match Transport.ofName? value with
    | some transport => .ok { o with transport }
    | none => .error (.unknownTransport value)

/-- The flag for help takes no value. Letters behind it are flags in their turn for as long as each
of them asks for help; what they leave over is a value that is not wanted. -/
def helpWithLetters : List Char → Invocation
  | ['h'] => .help
  | 'h' :: rest => helpWithLetters rest
  | letters => .misuse (.unwantedValue .help (String.ofList letters))

def helpWith : Attachment → Invocation
  | .nothing => .help
  | .value value => .misuse (.unwantedValue .help value)
  | .letters letters => helpWithLetters letters

/-- Goes through the arguments. `strange` holds those that belong to nothing. -/
def interpret (o : Options) (strange : List String) : List (String × Role) → Invocation
  | [] => if strange = [] then .run o else .misuse (.unrecognized strange)
  | (_, .option .help attachment) :: _ => helpWith attachment
  | (_, .option flag (.value value)) :: rest =>
    match o.set flag value with
    | .ok o => interpret o strange rest
    | .error e => .misuse e
  | (_, .option flag _) :: (value, .plain) :: rest =>
    match o.set flag value with
    | .ok o => interpret o strange rest
    | .error e => .misuse e
  | (_, .option flag _) :: _ => .misuse (.missingValue flag)
  | (argument, _) :: rest => interpret o (strange ++ [argument]) rest

/-- What the arguments of a command line ask for. -/
def Invocation.ofArguments (arguments : List String) : Invocation :=
  match roles arguments with
  | .ok roles => interpret {} [] roles
  | .error e => .misuse e

end Ancestry.Command
