import Formula.Arena.Walk
import Formula.Failure
import Formula.Token

/-!
# Events

What a session notes while it works, and the line written for each event.
-/

namespace Formula

/-- How far a session is: before its first parse, in a parse, or behind one with its outcome. -/
inductive Phase
  | idle
  | parsing
  | completed
  | failed
deriving DecidableEq, Repr

namespace Phase

def name : Phase → String
  | idle => "Idle"
  | parsing => "Parsing"
  | completed => "Completed"
  | failed => "Failed"

end Phase

/-- Something worth noting. -/
inductive Event
  /-- A parse begins with this many nodes in the arena. -/
  | attached (nodes : Nat)
  /-- A numeral was taken for the number it begins with. -/
  | converted (lexeme : String) (leaf : Node)
  | token (token : Token) (lexeme : String)
  /-- A parse gave a root; its tree is that of the arena at this time. -/
  | recorded (root : NodeId) (arena : Arena)
  | failed (failure : Failure)
  /-- A parse ends with this many nodes in the arena. -/
  | detached (nodes : Nat) (phase : Phase)

namespace Event

/-- The severity of an event and the part of the program that notes it. -/
def source : Event → String
  | converted .. => "WARN lang::bridge: "
  | token .. => "TRACE lang::bridge: "
  | attached _ | recorded .. | failed _ | detached .. => "DEBUG lang::driver: "

def description : Event → String
  | attached nodes => "lexer attached nodes=" ++ toString nodes
  | converted lexeme leaf =>
    "numeric literal converted from its prefix lexeme=" ++ Text.quote lexeme ++ " value=" ++ leaf.label
  | token t lexeme =>
    "token kind=" ++ t.kind.name ++ " lexeme=" ++ Text.quote lexeme ++
      " payload=" ++ Text.optional (t.payload.map NodeId.text)
  | recorded root arena => "root recorded root=" ++ arena.render root
  | failed failure => "parse failed error=" ++ failure.message
  | detached nodes phase => "lexer detached nodes=" ++ toString nodes ++ " state=" ++ phase.name

/-- The line for an event. -/
def line (event : Event) : String :=
  event.source ++ event.description

end Event

end Formula
