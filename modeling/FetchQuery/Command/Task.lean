import FetchQuery.Json.Value
import FetchQuery.Sql.Render
import FetchQuery.Window

/-!
# Arguments of a call

The arguments of a call name a command, which has options and at most one text. An
option with a number takes it behind an equals sign or as the next argument. Single
letters can be joined behind one hyphen, and two hyphens alone end the options. The
arguments are read from left to right, and the first that asks for something else than
a command, or that has no place, decides.
-/

set_option autoImplicit false

namespace FetchQuery.Command

/-- What a call asks for. A text that is not given is read from the standard input. -/
inductive Task where
  | toFetch (sql : Option String) (indent : Nat) (lenient : Bool)
  | toSql (xml : Option String) (layout : Sql.Layout) (json : Bool)
  | tokens (sql : Option String) (layout : Json.Layout)
  | check (sql : Option String) (width : Nat) (lenient : Bool)
  | docs
  | doc (topic : String)

/-- Why a call asks for no task. -/
inductive Halt where
  | version
  | help
  | misuse
deriving DecidableEq, Repr

/-- The options of a command: flags with their letters, options that take a number,
and how many texts there may be. -/
structure Grammar where
  flags : List (String × Option Char)
  numbers : List String
  texts : Nat

/-- The arguments of a command that have been read. -/
structure Given where
  flags : List String
  numbers : List (String × Nat)
  texts : List String

namespace Given

/-- No arguments. -/
def empty : Given :=
  ⟨[], [], []⟩

/-- Whether a flag is given. -/
def has (g : Given) (flag : String) : Bool :=
  g.flags.contains flag

/-- The number given for an option, or the default. -/
def number (g : Given) (option : String) (otherwise : Nat) : Nat :=
  ((g.numbers.find? fun n => n.1 == option).map Prod.snd).getD otherwise

/-- Adds a flag, which may be given once. -/
def addFlag (g : Given) (flag : String) : Except Halt Given :=
  if g.has flag then .error .misuse else .ok { g with flags := flag :: g.flags }

/-- Adds the number of an option, which may be given once. -/
def addNumber (g : Given) (option text : String) : Except Halt Given :=
  match rowCount? text with
  | some n =>
    if g.numbers.any fun given => given.1 == option then .error .misuse
    else .ok { g with numbers := (option, n.toNat) :: g.numbers }
  | none => .error .misuse

/-- Adds a text, if there is a place for it. -/
def addText (g : Given) (grammar : Grammar) (text : String) : Except Halt Given :=
  if g.texts.length < grammar.texts then .ok { g with texts := g.texts ++ [text] }
  else .error .misuse

/-- Adds texts one after the other. -/
def addTexts (grammar : Grammar) : Given → List String → Except Halt Given
  | g, [] => .ok g
  | g, text :: rest => (g.addText grammar text).bind fun next => addTexts grammar next rest

end Given

/-- How an argument is written. -/
inductive Shape where
  | optionsEnd
  | long (name : String) (value : Option String)
  | letters (letters : List Char)
  | text

/-- The shape of an argument. A single hyphen is a text. -/
def shapeOf (argument : String) : Shape :=
  match argument.toList with
  | ['-', '-'] => .optionsEnd
  | '-' :: '-' :: cs =>
    let name := String.ofList (cs.takeWhile (· != '='))
    match cs.dropWhile (· != '=') with
    | [] => .long name none
    | _ :: value => .long name (some (String.ofList value))
  | '-' :: c :: cs => .letters (c :: cs)
  | _ => .text

/-- Reads the letters of an argument; the letter `v` asks for log output and changes no
result. -/
def readLetters (grammar : Grammar) : Given → List Char → Except Halt Given
  | g, [] => .ok g
  | g, c :: cs =>
    if c = 'v' then readLetters grammar g cs
    else if c = 'h' then .error .help
    else
      match grammar.flags.find? fun f => f.2 == some c with
      | some (flag, _) => (g.addFlag flag).bind fun next => readLetters grammar next cs
      | none => .error .misuse

/-- Reads an option without a value. -/
def readFlag (grammar : Grammar) (g : Given) (name : String) : Except Halt Given :=
  if name = "verbose" then .ok g
  else if name = "help" then .error .help
  else if grammar.flags.any fun f => f.1 == name then g.addFlag name
  else .error .misuse

/-- Reads the arguments of a command. -/
def readArguments (grammar : Grammar) : Given → List String → Except Halt Given
  | g, [] => .ok g
  | g, argument :: rest =>
    match shapeOf argument with
    | .optionsEnd => g.addTexts grammar rest
    | .text => (g.addText grammar argument).bind fun next => readArguments grammar next rest
    | .letters letters =>
      (readLetters grammar g letters).bind fun next => readArguments grammar next rest
    | .long name (some value) =>
      if grammar.numbers.contains name then
        (g.addNumber name value).bind fun next => readArguments grammar next rest
      else .error .misuse
    | .long name none =>
      if grammar.numbers.contains name then
        match rest with
        | [] => .error .misuse
        | value :: others =>
          (g.addNumber name value).bind fun next => readArguments grammar next others
      else (readFlag grammar g name).bind fun next => readArguments grammar next rest

/-- The task of a command with its arguments. -/
def taskOf (command : String) (arguments : List String) : Except Halt Task :=
  match command with
  | "to-fetchxml" =>
    (readArguments ⟨[("allow-unqualified", none)], ["indent"], 1⟩ .empty arguments).map fun g =>
      .toFetch g.texts.head? (g.number "indent" 2) (g.has "allow-unqualified")
  | "to-sql" =>
    (readArguments ⟨[("compact", none), ("json", none)], [], 1⟩ .empty arguments).map fun g =>
      .toSql g.texts.head? (if g.has "compact" then .compact else .pretty) (g.has "json")
  | "tokens" =>
    (readArguments ⟨[("pretty", some 'p')], [], 1⟩ .empty arguments).map fun g =>
      .tokens g.texts.head? (if g.has "pretty" then .pretty else .compact)
  | "check" =>
    (readArguments ⟨[("allow-unqualified", none)], ["context-width"], 1⟩ .empty arguments).map
      fun g =>
        .check g.texts.head? (g.number "context-width" Window.defaultWidth)
          (g.has "allow-unqualified")
  | "docs" => (readArguments ⟨[], [], 0⟩ .empty arguments).map fun _ => .docs
  | "doc" =>
    (readArguments ⟨[], [], 1⟩ .empty arguments).bind fun g =>
      match g.texts with
      | topic :: _ => .ok (.doc topic)
      | [] => .error .misuse
  | "help" => .error .help
  | _ => .error .misuse

/-- Reads the letters of an argument in front of the command: log output, help and
version. -/
def readLeadingLetters : List Char → Except Halt Unit
  | [] => .ok ()
  | c :: cs =>
    if c = 'v' then readLeadingLetters cs
    else if c = 'h' then .error .help
    else if c = 'V' then .error .version
    else .error .misuse

/-- The task that the arguments of a call ask for. -/
def Task.ofArguments : List String → Except Halt Task
  | [] => .error .misuse
  | argument :: rest =>
    match shapeOf argument with
    | .optionsEnd => .error .misuse
    | .long "verbose" none => ofArguments rest
    | .long "help" none => .error .help
    | .long "version" none => .error .version
    | .long _ _ => .error .misuse
    | .letters letters => (readLeadingLetters letters).bind fun _ => ofArguments rest
    | .text => taskOf argument rest

end FetchQuery.Command
