import FetchQuery.Command.Task
import FetchQuery.Convert
import FetchQuery.Manual

/-!
# Outcomes of a call

A call ends with an exit code and the texts that it prints. `Command.run` gives them for
the arguments of a call and its standard input.
-/

set_option autoImplicit false

namespace FetchQuery.Command

/-- The exit code of a call and what it prints. -/
structure Outcome where
  exit : Nat
  stdout : String
  stderr : String
deriving DecidableEq, Repr

namespace Outcome

/-- A call that succeeds with a line of output. -/
def success (output : String) : Outcome :=
  ⟨0, output ++ "\n", ""⟩

/-- A call that fails with a line of report. -/
def failure (report : String) : Outcome :=
  ⟨1, "", report ++ "\n"⟩

end Outcome

/-- The class of a token in a token listing. -/
def kindJson : TokenKind → Json.Value
  | .keyword word => .object [("Keyword", .text word.spelling)]
  | .identifier name => .object [("Identifier", .text name)]
  | .number text => .object [("Number", .text text)]
  | .string content => .object [("String", .text content)]
  | .comment body => .object [("Comment", .text body)]
  | .fault cause => .object [("Error", .text cause.message)]
  | .symbol sign => .text sign.label
  | .endOfInput => .text "Eof"

/-- A token in a token listing. -/
def tokenJson (t : Token) : Json.Value :=
  .object [("kind", kindJson t.kind), ("text", .text t.text),
    ("position", .object [("line", .number t.position.line),
      ("column", .number t.position.column), ("offset", .number t.position.offset)])]

/-- The token listing of a source text. -/
def tokensJson (sql : String) : Json.Value :=
  .array ((tokenize sql).map tokenJson)

/-- The whole result of reading FetchXML. -/
def conversionJson : Except Fetch.ReadError (Fetch.Reading String) → Json.Value
  | .ok read =>
    .object [("success", .truth true), ("sql", .text read.value), ("error", .null),
      ("warnings", .array (read.warnings.map fun w => .object [("message", .text w.message)]))]
  | .error e =>
    .object [("success", .truth false), ("sql", .null), ("error", .text e.message),
      ("warnings", .array [])]

/-- The outcome of writing FetchXML for an SQL text. -/
def toFetchOutcome (sql : String) (indent : Nat) (lenient : Bool) : Outcome :=
  match sqlToFetch sql lenient indent with
  | .ok xml => .success xml
  | .error window => .failure window.report

/-- The outcome of writing SQL for a FetchXML text. Warnings are reported apart from
the SQL text, or all together as JSON. -/
def toSqlOutcome (xml : String) (layout : Sql.Layout) (json : Bool) : Outcome :=
  let result := fetchToSql xml layout
  if json then
    ⟨if result.isOk then 0 else 1, (conversionJson result).render .pretty 0 ++ "\n", ""⟩
  else
    match result with
    | .ok read =>
      ⟨0, read.value ++ "\n",
        String.join (read.warnings.map fun w => "warning: " ++ w.message ++ "\n")⟩
    | .error e => .failure ("Translation failed: " ++ e.message)

/-- The outcome of checking an SQL text. -/
def checkOutcome (sql : String) (width : Nat) (lenient : Bool) : Outcome :=
  match checkSql sql lenient width with
  | .ok _ => .success "Syntax is valid"
  | .error window => .failure window.report

/-- The outcome of showing a page of the manual. -/
def docOutcome (name : String) : Outcome :=
  match Manual.Topic.ofName? name with
  | some topic => ⟨0, topic.text, ""⟩
  | none => .failure (Manual.unknownTopicMessage name)

/-- The outcome of a task with the text of the standard input. -/
def Task.outcome (input : String) : Task → Outcome
  | .toFetch sql indent lenient => toFetchOutcome (sql.getD input) indent lenient
  | .toSql xml layout json => toSqlOutcome (xml.getD input) layout json
  | .tokens sql layout => .success ((tokensJson (sql.getD input)).render layout 0)
  | .check sql width lenient => checkOutcome (sql.getD input) width lenient
  | .docs => ⟨0, Manual.overview, ""⟩
  | .doc topic => docOutcome topic

/-- Whether a task reads the standard input. -/
def Task.readsInput : Task → Bool
  | .toFetch sql _ _ => sql.isNone
  | .toSql xml _ _ => xml.isNone
  | .tokens sql _ => sql.isNone
  | .check sql _ _ => sql.isNone
  | .docs => false
  | .doc _ => false

/-- The summary of the commands. -/
def usage : String :=
  Manual.page [
    "Usage: fxsql [-v] <command>",
    "",
    "  to-fetchxml [SQL] [--indent N] [--allow-unqualified]",
    "  to-sql [XML] [--compact] [--json]",
    "  tokens [SQL] [-p|--pretty]",
    "  check [SQL] [--context-width N] [--allow-unqualified]",
    "  docs",
    "  doc <category>"]

/-- The outcome of a call that asks for no task. -/
def Halt.outcome : Halt → Outcome
  | .version => ⟨0, "fxsql 0.1.0\n", ""⟩
  | .help => ⟨0, usage, ""⟩
  | .misuse => ⟨2, "", usage⟩

/-- The outcome of a call with the given arguments and standard input. -/
def run (arguments : List String) (input : String) : Outcome :=
  match Task.ofArguments arguments with
  | .ok task => task.outcome input
  | .error halt => halt.outcome

end FetchQuery.Command
