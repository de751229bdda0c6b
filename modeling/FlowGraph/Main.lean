import FlowGraph.Command

/-! # The command line

Reads the file that a command names, carries the command out, and prints or saves what it yields.
-/

namespace FlowGraph
set_option autoImplicit false

/-- The reason with a number of the system, which some operations report with a minus sign as a
word of 32 bits. -/
def FileError.ofWord (code : UInt32) : FileError :=
  .system (if code.toNat < 2147483648 then code.toNat else 4294967296 - code.toNat)

def FileError.ofSystem : IO.Error → FileError
  | .noFileOrDirectory _ code _ | .permissionDenied _ code _ | .inappropriateType _ code _
  | .invalidArgument _ code _ | .resourceExhausted _ code _ | .alreadyExists _ code _
  | .noSuchThing _ code _ | .interrupted _ code _ | .otherError code _ | .resourceBusy code _
  | .resourceVanished code _ | .unsupportedOperation code _ | .hardwareFault code _
  | .unsatisfiedConstraints code _ | .illegalOperation code _ | .protocolError code _
  | .timeExpired code _ => .ofWord code
  | .unexpectedEof | .userError _ => .notText

def Ending.print (e : Ending) : IO UInt32 := do
  IO.print e.out
  IO.eprint e.err
  return e.code

def Action.carryOut : Action → IO UInt32
  | .finish ending => ending.print
  | .save path script done => do
    let started ← IO.monoMsNow
    let result : Except FileError Unit ← try
        IO.FS.writeFile path script
        pure (.ok ())
      catch e => pure (.error (.ofSystem e))
    let elapsed := (← IO.monoMsNow) - started
    (Ending.saved path (done ++ " in " ++ toString elapsed ++ "ms\n") result).print

def readText (path : String) : IO (Except FileError String) :=
  try
    return .ok (← IO.FS.readFile path)
  catch e => return .error (.ofSystem e)

end FlowGraph

def main (args : List String) : IO UInt32 := do
  match FlowGraph.Command.ofArguments? args with
  | some command => ((command.run (← FlowGraph.readText command.file))).carryOut
  | none =>
    IO.eprint FlowGraph.Command.usage
    return 2
