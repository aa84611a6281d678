import CycleAccounting.Program

/-!
# The command

Runs the program on the files of the system.
-/

namespace CycleAccounting

/-- The fault that the system reports, with its number. -/
def FileFault.ofError : IO.Error → FileFault
  | .alreadyExists _ code details | .otherError code details | .resourceBusy code details
  | .resourceVanished code details | .unsupportedOperation code details
  | .hardwareFault code details | .unsatisfiedConstraints code details
  | .illegalOperation code details | .protocolError code details | .timeExpired code details
  | .interrupted _ code details | .noFileOrDirectory _ code details
  | .invalidArgument _ code details | .permissionDenied _ code details
  | .resourceExhausted _ code details | .inappropriateType _ code details
  | .noSuchThing _ code details => .other s!"{details} (os error {code})"
  | .unexpectedEof => .other "unexpected end of file"
  | .userError message => .other message

/-- The files of the system. -/
def systemFiles : Files IO where
  read path := do
    try
      let content ← IO.FS.withFile path .read fun h => h.readBinToEnd
      match String.fromUTF8? content with
      | some text => return .ok text
      | none => return .error .notText
    catch e => return .error (.ofError e)
  append path text := do
    match ← (IO.FS.Handle.mk path .append).toBaseIO with
    | .error e => return .error (.unopened (.ofError e))
    | .ok h =>
      match ← (do h.putStr text; h.flush : IO Unit).toBaseIO with
      | .error e => return .error (.unwritten (.ofError e))
      | .ok () => return .ok ()

end CycleAccounting

def main (args : List String) : IO UInt32 := do
  let outcome ← CycleAccounting.Program.invoke CycleAccounting.systemFiles args
  (← IO.getStderr).putStr outcome.messages
  (← IO.getStdout).putStr outcome.output
  return UInt32.ofNat outcome.exitCode
