import Treewalk.Command.Arguments
import Treewalk.Command.FileSystem
import Treewalk.Diagnostic.Drawn
import Treewalk.Diagnostic.Plain
import Treewalk.Document.Decode
import Treewalk.Document.Encode
import Treewalk.Json.Writer

/-! What a command does.

`conclude` decides everything that hangs on the document alone: what is printed, which report is due and
why the command fails. `Conclusion.outcome` then words it, drawing the report if a source was found. -/
namespace Treewalk.Command

inductive Failure where
  | unreadable (file : String) (reason : ReadFailure)
  | decode
  | evaluation
deriving DecidableEq, Repr

def Failure.summary : Failure → String
  | unreadable file reason => "cannot read file '" ++ file ++ "': " ++ reason.text
  | decode => "decode error"
  | evaluation => "evaluation error"

inductive Notice where
  | decoded (name : String) (nodes : Nat)
  | wellFormed (file : String) (nodes : Nat)
deriving DecidableEq, Repr

def Notice.line : Notice → String
  | decoded name nodes =>
      Text.coloured Text.blue "info:" ++ " decoded '" ++ name ++ "' (" ++ nodes.repr ++ " nodes)\n"
  | wellFormed file nodes =>
      Text.coloured Text.green
        ("'" ++ file ++ "' is a well-formed document (" ++ nodes.repr ++ " nodes)") ++ "\n"

/-- All that hangs on the document alone. -/
structure Conclusion where
  output : String
  notices : List Notice
  diagnostic : Option Diagnostic
  failure : Option Failure
deriving DecidableEq, Repr

def perform (invocation : Invocation) (p : Program) : Conclusion :=
  match invocation.verb with
  | .run =>
      match (Evaluator.onTerminal invocation.options.maxDepth).run p with
      | (.ok _, evaluator) => ⟨evaluator.printer.written, [], none, none⟩
      | (.error e, evaluator) => ⟨evaluator.printer.written, [], some e.diagnostic, some .evaluation⟩
  | .check => ⟨"", [.wellFormed invocation.file p.expression.nodeCount], none, none⟩
  | .dump => ⟨p.toJson.pretty ++ "\n", [], none, none⟩

/-- The message that a document has been decoded, which names the program if it has a name. -/
def decodedNotice (invocation : Invocation) (p : Program) : List Notice :=
  if invocation.options.verbose then
    [.decoded (if p.name.isEmpty then invocation.file else p.name) p.expression.nodeCount]
  else []

def conclude (invocation : Invocation) (content : Except ReadFailure ByteArray) : Conclusion :=
  match content with
  | .error reason => ⟨"", [], none, some (.unreadable invocation.file reason)⟩
  | .ok bytes =>
      match Program.parse bytes with
      | .error e => ⟨"", [], some e.diagnostic, some .decode⟩
      | .ok p =>
          let conclusion := perform invocation p
          { conclusion with notices := decodedNotice invocation p ++ conclusion.notices }

/-- Where the source of a report is looked for: beside the document, then by its name alone. -/
def sourceCandidates (file filename : String) : List String :=
  if "/".isPrefixOf filename then [filename] else [folderOf file ++ filename, filename]

def Conclusion.sources (c : Conclusion) (file : String) : List String :=
  match c.diagnostic.bind (·.filename?) with
  | some filename => sourceCandidates file filename
  | none => []

def textOf? (content : Except ReadFailure ByteArray) : Option String :=
  content.toOption.bind String.fromUTF8?

def Conclusion.source? (c : Conclusion) (files : FileSystem) (file : String) : Option String :=
  (c.sources file).findSome? fun name => textOf? (files name)

/-- What a command leaves behind: its exit status, its output, its messages and a summary of its failure.
The time taken, if it is asked for, is told between messages and summary. -/
structure Outcome where
  status : Nat
  output : String
  messages : String
  summary : String
  timed : Bool
deriving DecidableEq, Repr

def report (d : Diagnostic) : Option String → String
  | some source => d.drawn source
  | none => d.plain

def Conclusion.outcome (c : Conclusion) (options : Options) (source : Option String) : Outcome :=
  { status := if c.failure.isSome then 1 else 0
    output := c.output
    messages :=
      String.join (c.notices.map Notice.line) ++
        (match c.diagnostic with
          | some d => report d source
          | none => "")
    summary :=
      match c.failure with
      | some failure =>
          if options.quiet then "" else Text.coloured Text.red "error:" ++ " " ++ failure.summary ++ "\n"
      | none => ""
    timed := options.time }

def Invocation.execute (invocation : Invocation) (files : FileSystem) : Outcome :=
  let c := conclude invocation (files invocation.file)
  c.outcome invocation.options (c.source? files invocation.file)

def versionOutcome : Outcome := ⟨0, "rinha 0.1.0\n", "", "", false⟩

/-- What the parser of command lines has to say to some words: its help, or what it objects to. These texts are its own
and are given from outside; without them the program is silent. -/
structure Manual where
  help : List String → String := fun _ => ""
  objection : List String → String := fun _ => ""

def Manual.helpOutcome (manual : Manual) (words : List String) : Outcome := ⟨0, manual.help words, "", "", false⟩

def Manual.usageOutcome (manual : Manual) (words : List String) : Outcome :=
  ⟨2, "", manual.objection words, "", false⟩

def execute (files : FileSystem) (words : List String) (manual : Manual := {}) : Outcome :=
  match Request.ofWords words with
  | .version => versionOutcome
  | .help => manual.helpOutcome words
  | .unusable => manual.usageOutcome words
  | .invoke invocation => invocation.execute files

end Treewalk.Command
