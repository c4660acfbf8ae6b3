import Formula.Source.ReadError
import Formula.Text.Quoted

/-!
# Failures

The causes for which no tree is built, and the message for each.
-/

namespace Formula

/-- Why a source was not read as a program. Offsets count bytes from the start of the source. -/
inductive Failure
  /-- A text that starts neither a lexeme nor anything that is skipped. -/
  | unrecognized (offset : Nat) (text : String)
  /-- A token that no program has there. -/
  | unexpected (offset : Nat) (expected : String)
  /-- A numeral that a strict reader does not convert. -/
  | malformedNumber (offset : Nat) (lexeme : String)
  /-- More parentheses and signs around one operand than the limit. -/
  | tooDeep (offset limit : Nat)
  /-- A parse that ended well without recording a root. -/
  | missingRoot
  /-- A source that could not be read. -/
  | unreadable (cause : ReadError)
deriving DecidableEq, Repr

namespace Failure

def message : Failure → String
  | unrecognized offset text => "unrecognized input " ++ Text.quote text ++ " at byte " ++ toString offset
  | unexpected offset expected => "syntax error at byte " ++ toString offset ++ ": expected " ++ expected
  | malformedNumber offset lexeme => "malformed numeric literal " ++ Text.quote lexeme ++ " at byte " ++ toString offset
  | tooDeep offset limit => "nesting deeper than " ++ toString limit ++ " levels at byte " ++ toString offset
  | missingRoot => "grammar engine finished without recording a root"
  | unreadable cause => "failed to read input: " ++ cause.message

/-- The message and the messages of what caused it, the outermost first. -/
def chain (f : Failure) : List String :=
  match f with
  | unreadable cause => [f.message, cause.message]
  | _ => [f.message]

end Failure

end Formula
