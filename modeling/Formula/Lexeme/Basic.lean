/-!
# Lexemes

A lexeme is a piece of source with its kind and its place. Names and numerals are the kinds that carry a value; the
others are punctuation.
-/

namespace Formula

/-- What a lexeme is. -/
inductive Kind
  | identifier
  | integer
  | fixed
  | plus
  | minus
  | star
  | slash
  | leftParen
  | rightParen
  | assign
  | semicolon
deriving DecidableEq, Repr

namespace Kind

def name : Kind → String
  | identifier => "Identifier"
  | integer => "IntVal"
  | fixed => "FixedVal"
  | plus => "Plus"
  | minus => "Minus"
  | star => "Star"
  | slash => "Slash"
  | leftParen => "LParen"
  | rightParen => "RParen"
  | assign => "Assign"
  | semicolon => "Semicolon"

/-- Whether a lexeme of this kind stands for a value. -/
def isValued : Kind → Bool
  | identifier | integer | fixed => true
  | _ => false

/-- Whether an operand can end in a lexeme of this kind. -/
def endsOperand : Kind → Bool
  | rightParen => true
  | kind => kind.isValued

/-- The kind of a character that is a lexeme by itself. -/
def ofPunctuation? : Char → Option Kind
  | '+' => some plus
  | '-' => some minus
  | '*' => some star
  | '/' => some slash
  | '(' => some leftParen
  | ')' => some rightParen
  | '=' => some assign
  | ';' => some semicolon
  | _ => none

end Kind

/-- A stretch of source: the offset of its first byte and that of the byte after its last. -/
structure Span where
  start : Nat
  stop : Nat
deriving DecidableEq, Repr

namespace Span

/-- The empty stretch at the start of a source. -/
def origin : Span := ⟨0, 0⟩

end Span

/-- A piece of source. -/
structure Lexeme where
  kind : Kind
  text : String
  span : Span
deriving DecidableEq, Repr

end Formula
