import Formula.Session.Basic

/-!
# Parsing a file

A file is parsed in a session of its own. Its name goes in front of whatever went wrong.
-/

namespace Formula

/-- Why a file was not parsed. -/
inductive FileFailure
  | unreadable (path : String) (cause : ReadError)
  | unparsed (path : String) (cause : Failure)
deriving DecidableEq, Repr

namespace FileFailure

/-- The messages from the outermost to its causes. -/
def chain : FileFailure → List String
  | unreadable path cause => ["failed to read " ++ path, cause.message]
  | unparsed path cause => ("failed to parse " ++ path) :: cause.chain

def message (f : FileFailure) : String :=
  ": ".intercalate f.chain

/-- What went wrong with the parse, if the file was read. -/
def parseFailure? : FileFailure → Option Failure
  | unreadable .. => none
  | unparsed _ cause => some cause

end FileFailure

namespace Session

/-- Parses the contents of a file, if it has any, in a new session. -/
def parseFile (options : Options) (path : String) (contents : Except ReadError ByteArray) :
    Except FileFailure NodeId × Session :=
  match contents >>= textOfBytes with
  | .error cause => (.error (.unreadable path cause), .new options)
  | .ok source =>
    let (result, s) := (new options).parse source
    (result.mapError (.unparsed path), s)

end Session

end Formula
