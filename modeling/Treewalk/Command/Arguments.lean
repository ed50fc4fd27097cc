import Treewalk.Evaluation.Evaluator

/-! The words of a command line.

A line names a verb first, or none and then the document is run. Options may stand before and behind the
document; behind a lone `--` every word is a document. A word that names a verb, or asks for help, does so
only in the first place. The first fault decides, and so does a request for the version or for help that
comes before any. -/
namespace Treewalk.Command

inductive Verb where
  | run
  | check
  | dump
deriving DecidableEq, Repr

def Verb.ofWord? (word : String) : Option Verb :=
  if word = "run" then some .run
  else if word = "check" then some .check
  else if word = "dump" then some .dump
  else none

structure Options where
  verbose : Bool
  quiet : Bool
  time : Bool
  maxDepth : Nat
deriving DecidableEq, Repr

structure Invocation where
  verb : Verb
  file : String
  options : Options
deriving DecidableEq, Repr

inductive Request where
  | version
  | help
  | invoke (invocation : Invocation)
  | unusable
deriving DecidableEq, Repr

/-- The words read so far. -/
structure Draft where
  verb : Option Verb
  verbose : Bool := false
  quiet : Bool := false
  time : Bool := false
  maxDepth : Option Nat := none
  file : Option String := none
deriving DecidableEq, Repr

def defaultFile : String := "/var/rinha/source.rinha.json"

namespace Draft

/-- What the words ask for when there are no more. A verb needs a document. -/
def finish (d : Draft) : Request :=
  let options := ⟨d.verbose, d.quiet, d.time, d.maxDepth.getD Evaluator.defaultLimit⟩
  match d.verb, d.file with
  | some verb, some file => .invoke ⟨verb, file, options⟩
  | some _, none => .unusable
  | none, some file => .invoke ⟨.run, file, options⟩
  | none, none => .invoke ⟨.run, defaultFile, options⟩

/-- Sets the option for messages; no option may be given twice. -/
def setVerbose? (d : Draft) : Option Draft := if d.verbose then none else some { d with verbose := true }

def setQuiet? (d : Draft) : Option Draft := if d.quiet then none else some { d with quiet := true }

def setTime? (d : Draft) : Option Draft := if d.time then none else some { d with time := true }

def setMaxDepth? (d : Draft) (depth : Nat) : Option Draft :=
  if d.maxDepth.isSome then none else some { d with maxDepth := some depth }

def setFile? (d : Draft) (file : String) : Option Draft :=
  if d.file.isSome then none else some { d with file := some file }

end Draft

/-- A number of at most 64 bits in decimal, with or without a plus sign. -/
def depthOf? (word : String) : Option Nat :=
  let digits := match word.toList with
    | '+' :: rest => rest
    | all => all
  let n := digits.foldl (fun n c => 10 * n + (c.toNat - 48)) 0
  if digits.isEmpty || !digits.all Char.isDigit || 18446744073709551615 < n then none else some n

inductive Effect where
  | proceed (draft : Draft)
  | settle (request : Request)
deriving DecidableEq, Repr

def Effect.ofDraft? : Option Draft → Effect
  | some draft => .proceed draft
  | none => .settle .unusable

/-- Letters behind a single dash, each an option. -/
def readLetters (d : Draft) : List Char → Effect
  | [] => .proceed d
  | c :: rest =>
      if c = 'V' && d.verb.isNone then .settle .version
      else if c = 'h' then .settle .help
      else
        match (if c = 'v' then d.setVerbose? else if c = 'q' then d.setQuiet? else none) with
        | some d => readLetters d rest
        | none => .settle .unusable

def readOne (d : Draft) (word : String) : Effect :=
  match word.toList with
  | '-' :: '-' :: _ =>
      if word = "--verbose" then .ofDraft? d.setVerbose?
      else if word = "--quiet" then .ofDraft? d.setQuiet?
      else if word = "--time" then .ofDraft? d.setTime?
      else if word = "--version" && d.verb.isNone then .settle .version
      else if word = "--help" then .settle .help
      else if "--max-depth=".isPrefixOf word then
        .ofDraft? ((depthOf? (String.ofList (word.toList.drop 12))).bind d.setMaxDepth?)
      else .settle .unusable
  | '-' :: c :: letters => readLetters d (c :: letters)
  | _ => .ofDraft? (d.setFile? word)

def readFiles (d : Draft) : List String → Request
  | [] => d.finish
  | word :: rest =>
      match d.setFile? word with
      | some d => readFiles d rest
      | none => .unusable

def readWords (d : Draft) : List String → Request
  | [] => d.finish
  | word :: rest =>
      if word = "--" then readFiles d rest
      else if word = "--max-depth" then
        match rest with
        | [] => .unusable
        | value :: rest =>
            match (depthOf? value).bind d.setMaxDepth? with
            | some d => readWords d rest
            | none => .unusable
      else
        match readOne d word with
        | .proceed d => readWords d rest
        | .settle request => request

def helpWord : String := "help"

/-- The words behind the one that asks for help: at most one, which is a verb or that word again. -/
def readTopic : List String → Request
  | [] => .help
  | [word] => if word = helpWord || (Verb.ofWord? word).isSome then .help else .unusable
  | _ => .unusable

def Request.ofWords (words : List String) : Request :=
  match words with
  | [] => readWords { verb := none } []
  | word :: rest =>
      if word = helpWord then readTopic rest
      else
        match Verb.ofWord? word with
        | some verb => readWords { verb := verb } rest
        | none => readWords { verb := none } (word :: rest)

end Treewalk.Command
