import TemplateAnalysis.CommandLine.Request

/-! # Usage of the command line

    The command line is an action, the template it works on, and options with
    a value each, in any order. An option can be shortened as long as no other
    begins the same, and its value can stand behind a `=`. Behind `--` nothing
    is an option.

    Action and template are read together: a template that options separate
    from its action is not recognised.
-/

namespace TemplateAnalysis.CommandLine

open Text

/-! ## Options -/

inductive Flag
  | help
  | workspace
  | templates
  | statics
  | data
  | name
  | version
  deriving DecidableEq, Repr

/-- The options as they are written. -/
def spelledFlags : List (String × Flag) :=
  [("-h", .help), ("--help", .help), ("--workspace", .workspace), ("--templates", .templates),
   ("--static", .statics), ("--data", .data), ("--name", .name), ("--version", .version)]

/-- Does a value belong to the option? -/
def Flag.takesValue : Flag → Bool
  | .help | .version => false
  | _ => true

/-- The option as it is called in messages. -/
def Flag.display (flag : Flag) : String :=
  String.intercalate "/" ((spelledFlags.filter fun entry => entry.2 = flag).map (·.1))

/-- What is wrong with a command line. -/
inductive UsageError
  | ambiguous (argument : String) (options : List String)
  | ignoredValue (flag : Flag) (value : String)
  | valueMissing (flag : Flag)
  | invalidAction (value : String)
  | actionMissing
  | unrecognized (arguments : List String)
  deriving DecidableEq, Repr

/-- The words for it. -/
def UsageError.message : UsageError → String
  | .ambiguous argument options =>
    "ambiguous option: " ++ argument ++ " could match " ++ String.intercalate ", " options
  | .ignoredValue flag value =>
    "argument " ++ flag.display ++ ": ignored explicit argument " ++ quotedString value
  | .valueMissing flag => "argument " ++ flag.display ++ ": expected one argument"
  | .invalidAction value =>
    "argument action: invalid choice: " ++ quotedString value ++ " (choose from " ++
      String.intercalate ", " (Action.names.map quotedString) ++ ")"
  | .actionMissing => "the following arguments are required: action"
  | .unrecognized arguments => "unrecognized arguments: " ++ String.intercalate " " arguments

/-! ## Kinds of arguments -/

/-- An option as it is used, by its short name or not, with the value that is
    written in one argument with it. -/
structure FlagUse where
  flag : Flag
  isShort : Bool
  attached : Option (List Char)
  deriving DecidableEq, Repr

/-- What an argument is. -/
inductive Token
  /-- An action, a template, or the value of an option. -/
  | plain (text : String)
  /-- The first `--`. -/
  | separator
  /-- An option; `none` when there is none of this name. -/
  | option (text : String) (use : Option FlagUse)
  deriving DecidableEq, Repr

/-- The argument as it was written. -/
def Token.text : Token → String
  | .plain text => text
  | .separator => "--"
  | .option text _ => text

/-- Is the argument an option? -/
def Token.isOption : Token → Bool
  | .option _ _ => true
  | _ => false

/-- A negative number, with or without a fraction. One newline behind it does not
    count. -/
def isNegativeNumber : List Char → Bool
  | '-' :: rest =>
    let body := if rest.getLast? = some '\n' then rest.dropLast else rest
    match body.dropWhile isDigit with
    | [] => !body.isEmpty
    | '.' :: fraction => !fraction.isEmpty && fraction.all isDigit
    | _ => false
  | _ => false

/-- The option of an exact name. -/
def flagNamed? (name : List Char) : Option Flag :=
  spelledFlags.lookup (String.ofList name)

/-- The name before the first `=` of an argument, and the value behind it. -/
def splitSign (argument : List Char) : List Char × Option (List Char) :=
  let name := argument.takeWhile (· != '=')
  match argument.drop name.length with
  | _ :: value => (name, some value)
  | [] => (name, none)

/-- What an argument that begins with a dash can be short for. -/
def abbreviated (argument : List Char) : List (String × FlagUse) :=
  if ['-', '-'].isPrefixOf argument then
    let (name, attached) := splitSign argument
    (spelledFlags.filter fun entry => name.isPrefixOf entry.1.toList).map fun entry =>
      (entry.1, ⟨entry.2, false, attached⟩)
  else
    match flagNamed? (argument.take 2) with
    | some flag => [(String.ofList (argument.take 2), ⟨flag, true, some (argument.drop 2)⟩)]
    | none => []

/-- What an argument before any `--` is. -/
def readArgument (text : String) : Except UsageError Token :=
  let argument := text.toList
  let (name, attached) := splitSign argument
  if argument.head? ≠ some '-' then .ok (.plain text)
  else if let some flag := flagNamed? argument then
    .ok (.option text (some ⟨flag, argument.length = 2, none⟩))
  -- A dash alone is no option.
  else if argument.length = 1 then .ok (.plain text)
  else if let (some flag, some _) := (flagNamed? name, attached) then
    .ok (.option text (some ⟨flag, name.length = 2, attached⟩))
  else
    match abbreviated argument with
    | [entry] => .ok (.option text (some entry.2))
    | [] =>
      -- No option: a number or a phrase is taken for an argument.
      if isNegativeNumber argument || argument.contains ' ' then .ok (.plain text)
      else .ok (.option text none)
    | entries => .error (.ambiguous text (entries.map (·.1)))

/-- What each of the arguments is. -/
def readArguments : List String → Except UsageError (List Token)
  | [] => .ok []
  | text :: rest =>
    if text = "--" then .ok (.separator :: rest.map .plain)
    else do
      let token ← readArgument text
      let tokens ← readArguments rest
      .ok (token :: tokens)

/-! ## Reading the command line -/

/-- What has been read of a command line. -/
structure Progress where
  arguments : Arguments := {}
  /-- Have action and template been read? -/
  placed : Bool := false
  /-- What belongs nowhere. -/
  extras : List String := []

/-- What a command line asks for. -/
inductive Command
  | run (arguments : Arguments)
  | showVersion
  | showHelp
  deriving DecidableEq, Repr

/-- The arguments without the first `--`. -/
def dropSeparator (texts : List String) : List String :=
  texts.erase "--"

/-- How many separators come first. -/
def separatorsLength (tokens : List Token) : Nat :=
  (tokens.takeWhile (· = .separator)).length

/-- How many of the next tokens make one plain argument, with the separators on
    both sides of it. -/
def placeLength (tokens : List Token) : Option Nat :=
  let before := separatorsLength tokens
  match tokens.drop before with
  | .plain _ :: rest => some (before + 1 + separatorsLength rest)
  | _ => none

/-- Read action and template, unless that is done, from the tokens that come
    next: how many of them were read, and the progress. -/
def placeArguments (tokens : List Token) (progress : Progress) :
    Except UsageError (Nat × Progress) :=
  if progress.placed then .ok (0, progress)
  else match placeLength tokens with
    | none => .ok (0, progress)
    | some length =>
      let behind := tokens.drop length
      -- The template is read with the action or, when an option comes first, not at all.
      let length' := (placeLength behind).getD (separatorsLength behind)
      let action := dropSeparator ((tokens.take length).map Token.text)
      let target := dropSeparator ((behind.take length').map Token.text)
      match action with
      | name :: _ =>
        if Action.names.contains name then
          .ok (length + length',
            { progress with
              placed := true
              arguments :=
                { progress.arguments with action := some name, target := target.head? } })
        else .error (.invalidAction name)
      | [] => .ok (0, progress)

/-- Give an option its value. -/
def Arguments.set (arguments : Arguments) (flag : Flag) (value : String) : Arguments :=
  match flag with
  | .workspace => { arguments with workspace := some value }
  | .templates => { arguments with templates := some value }
  | .statics => { arguments with statics := some value }
  | .data => { arguments with data := some value }
  | .name => { arguments with name := some value }
  | .help | .version => arguments

/-- What is wrong with a text behind the short name of the help option. The
    short name can be repeated there, but no value can be given. -/
def helpProblem? : List Char → Option UsageError
  | ['h'] => none
  | 'h' :: rest => helpProblem? rest
  | value => some (.ignoredValue .help (String.ofList value))

/-- What an option without a value asks for. -/
def askedFor (use : FlagUse) : Except UsageError Command :=
  let command := if use.flag = .version then Command.showVersion else .showHelp
  match use.attached with
  | none => .ok command
  | some value =>
    if use.isShort then
      match helpProblem? value with
      | some problem => .error problem
      | none => .ok command
    else .error (.ignoredValue use.flag (String.ofList value))

/-- The value written in one argument with an option. A separator is no value
    and leaves an empty one. -/
def attachedValue (value : List Char) : String :=
  (dropSeparator [String.ofList value]).headD ""

/-- The end of a command line. -/
def finish (progress : Progress) : Except UsageError Command :=
  if !progress.placed then .error .actionMissing
  else if !progress.extras.isEmpty then .error (.unrecognized progress.extras)
  else .ok (.run progress.arguments)

/-- Read the tokens of a command line. Each round reads at least one of them,
    so there are enough rounds when there are as many as tokens. -/
def readTokens : Nat → List Token → Progress → Except UsageError Command
  | 0, _, progress => finish progress
  | fuel + 1, tokens, progress =>
    match tokens with
    | [] => finish progress
    | .option text use :: rest =>
      match use with
      | none => readTokens fuel rest { progress with extras := progress.extras ++ [text] }
      | some use =>
        if use.flag.takesValue then
          match use.attached, rest with
          | some value, _ =>
            readTokens fuel rest
              { progress with
                arguments := progress.arguments.set use.flag (attachedValue value) }
          | none, .plain value :: more =>
            readTokens fuel more
              { progress with arguments := progress.arguments.set use.flag value }
          | none, _ => .error (.valueMissing use.flag)
        else askedFor use
    | _ => do
      let (length, progress') ← placeArguments tokens progress
      if length ≠ 0 then readTokens fuel (tokens.drop length) progress'
      else
        let loose := tokens.takeWhile (!·.isOption)
        readTokens fuel (tokens.drop loose.length)
          { progress' with extras := progress'.extras ++ loose.map Token.text }

/-- What a command line asks for. -/
def readCommandLine (arguments : List String) : Except UsageError Command := do
  let tokens ← readArguments arguments
  readTokens (tokens.length + 1) tokens {}

end TemplateAnalysis.CommandLine
