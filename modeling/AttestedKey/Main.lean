import AttestedKey.Command.Run
import AttestedKey.Provisioning.RequestId
import Std.Time.DateTime.Timestamp

/-! The program: a command is read off the arguments, and its questions are answered with the
files, the clock, and no network. -/

namespace AttestedKey

/-- Codes may come negated. -/
def systemText (code : UInt32) (detail : String) : String :=
  let code := if code < 0x80000000 then code else 0 - code
  s!"{detail.capitalize} (os error {code})"

def fileText : IO.Error → String
  | .noFileOrDirectory _ code detail | .permissionDenied _ code detail
  | .inappropriateType _ code detail
  | .alreadyExists _ code detail | .resourceExhausted _ code detail | .invalidArgument _ code detail
  | .interrupted _ code detail | .noSuchThing _ code detail | .otherError code detail
  | .resourceBusy code detail | .hardwareFault code detail | .unsupportedOperation code detail =>
    systemText code detail
  | e => toString e

/-- What the clock says, or the epoch if that is out of range. -/
def currentTime : IO Instant := do
  let now ← Std.Time.Timestamp.now
  pure ((Instant.ofMillis? now.toMillisecondsSinceUnixEpoch.val).getD ⟨0, by decide⟩)

def attempt {α : Type} (action : IO α) : IO (Except String α) := do
  try pure (.ok (← action)) catch e => pure (.error (fileText e))

def answer : (q : Command.Question) → IO q.Answer
  | .read path => attempt do pure (← IO.FS.readBinFile path).toList
  | .write path content => attempt (IO.FS.writeBinFile path ⟨content.toArray⟩)
  | .send _ => pure .failed
  | .time => currentTime

/-- Runs the command; arguments that are none end with status 2. -/
def runProgram (arguments : List String) : IO UInt32 := do
  let stderr ← IO.getStderr
  match Command.ofArguments? arguments with
  | none =>
    stderr.putStrLn Command.usage
    pure 2
  | some command =>
    let requestId := RequestId.ofRandom (← IO.getRandomBytes 16).toList
    let printed := command.printed (← (command.run requestId).run.run answer)
    IO.print printed.output
    stderr.putStr printed.errors
    pure 0

end AttestedKey

def main (arguments : List String) : IO UInt32 := AttestedKey.runProgram arguments
