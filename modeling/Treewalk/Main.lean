import Treewalk.Command.Outcome

/-! The command line program. -/
namespace Treewalk.Command

def ReadFailure.ofError : IO.Error → ReadFailure
  | .noFileOrDirectory .. => .notFound
  | .inappropriateType _ code _ => if code = 21 then .isDirectory else .notDirectory
  | .invalidArgument _ 36 _ => .nameTooLong
  | .permissionDenied .. => .other "Permission denied (os error 13)"
  | e => .other (toString e)

def readDisk (name : String) : IO (Except ReadFailure ByteArray) := do
  match ← (IO.FS.readBinFile name).toBaseIO with
  | .ok bytes => return .ok bytes
  | .error e => return .error (.ofError e)

def firstText : List String → IO (Option String)
  | [] => return none
  | name :: rest => do
      match textOf? (← readDisk name) with
      | some text => return some text
      | none => firstText rest

def timeLine (elapsed : Nat) : String :=
  let thousandths := (1000 + elapsed % 1000).repr.toList.drop 1
  Text.coloured Text.blue "time:" ++ " " ++ (elapsed / 1000).repr ++ "." ++ String.ofList thousandths ++
    "s (" ++ elapsed.repr ++ "ms)\n"

/-- Writes an outcome; the time taken goes between messages and summary. -/
def Outcome.emit (outcome : Outcome) (elapsed : Nat) : IO UInt32 := do
  IO.print outcome.output
  IO.eprint outcome.messages
  if outcome.timed then IO.eprint (timeLine elapsed)
  IO.eprint outcome.summary
  return outcome.status.toUInt32

end Treewalk.Command

open Treewalk.Command in
/-- Carries out the command line that the program was started with. -/
def main (words : List String) : IO UInt32 := do
  match Request.ofWords words with
  | .version => versionOutcome.emit 0
  | .help => (Manual.helpOutcome {} words).emit 0
  | .unusable => (Manual.usageOutcome {} words).emit 0
  | .invoke invocation => do
      let started ← IO.monoMsNow
      let conclusion := conclude invocation (← readDisk invocation.file)
      let source ← firstText (conclusion.sources invocation.file)
      let outcome := conclusion.outcome invocation.options source
      outcome.emit ((← IO.monoMsNow) - started)
