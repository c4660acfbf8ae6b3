/-!
# Errors of reading

Why the bytes of a source could not be had, or were no text, with the message for each cause. Errors of the file
system carry their number.
-/

namespace Formula

/-- Why a source could not be read. -/
inductive ReadError
  | notFound
  | permissionDenied
  | notDirectory
  | isDirectory
  | nameTooLong
  /-- A file name with a null byte. -/
  | nullInName
  /-- Bytes that are not UTF-8. -/
  | notText
  | other (message : String)
deriving DecidableEq, Repr

namespace ReadError

/-- The message of a numbered error of the file system. -/
def numbered (text : String) (code : Nat) : String :=
  text ++ " (os error " ++ toString code ++ ")"

def message : ReadError → String
  | notFound => numbered "No such file or directory" 2
  | permissionDenied => numbered "Permission denied" 13
  | notDirectory => numbered "Not a directory" 20
  | isDirectory => numbered "Is a directory" 21
  | nameTooLong => numbered "File name too long" 36
  | nullInName => "file name contained an unexpected NUL byte"
  | notText => "stream did not contain valid UTF-8"
  | other message => message

end ReadError

end Formula
