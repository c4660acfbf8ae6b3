import Formula.CommandLine

/-!
# The program

Reads the input that the arguments name, prints what comes of it, and exits with its code.
-/

namespace Formula

/-- The number of an error of the system, which some calls report negated. -/
def errorNumber (code : UInt32) : UInt32 :=
  min code (0 - code)

/-- The cause that an error of the system stands for. -/
def ReadError.ofSystem : IO.Error → ReadError
  | .noFileOrDirectory .. => .notFound
  | .permissionDenied .. => .permissionDenied
  | .inappropriateType _ code details =>
    if errorNumber code = 20 then .notDirectory else if errorNumber code = 21 then .isDirectory else .other details
  | .invalidArgument _ code details =>
    if errorNumber code = 22 then .nullInName else if errorNumber code = 36 then .nameTooLong else .other details
  | e => .other (toString e)

/-- Reads a stream to its end. -/
partial def readAll (stream : IO.FS.Stream) (received : ByteArray) : IO ByteArray := do
  let more ← stream.read 65536
  if more.isEmpty then return received
  readAll stream (received ++ more)

/-- The bytes of a file, or of standard input if there is none. -/
def readInput (input : Option String) : IO (Except ReadError ByteArray) := do
  try
    match input with
    | some path => return .ok (← IO.FS.readBinFile path)
    | none => return .ok (← readAll (← IO.getStdin) .empty)
  catch e => return .error (.ofSystem e)

/-- Carries out what the arguments ask for. -/
def execute (arguments : List String) : IO UInt32 := do
  match CommandLine.interpret arguments with
  | .help => return 0
  | .refuse => return UInt32.ofNat CommandLine.misuseCode
  | .run invocation =>
    let outcome := invocation.outcome (← readInput invocation.input)
    IO.print outcome.stdout
    IO.eprint outcome.stderr
    return UInt32.ofNat outcome.code

end Formula

def main (arguments : List String) : IO UInt32 :=
  Formula.execute arguments
