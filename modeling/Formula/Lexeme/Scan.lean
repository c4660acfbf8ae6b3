import Formula.Failure
import Formula.Lexeme.Basic

/-!
# Scanning a source

A source falls into pieces: skipped matter (runs of spaces, tabs and line ends, and comments up to the end of their
line), lexemes, and stray characters that start neither. Every piece is the longest that starts where it does
(`firstPiece`), and together they are the source (`flatten_pieces`). The scan of a source is its lexemes and its stray
characters, each at its byte offset.
-/

namespace Formula

/-- What a piece of a source is. -/
inductive Role
  | skipped
  | lexeme (kind : Kind)
  | stray
deriving DecidableEq, Repr

/-- A piece of a source. -/
structure Piece where
  role : Role
  text : List Char
deriving DecidableEq, Repr

namespace Piece

def string (piece : Piece) : String :=
  String.ofList piece.text

end Piece

namespace Scan

def isSpace (c : Char) : Bool :=
  c = ' ' || c = '\t' || c = '\r' || c = '\n'

/-- Whether a name can start with the character: a letter of ASCII or the underscore. -/
def isNameStart (c : Char) : Bool :=
  c.isAlpha || c = '_'

def isNamePart (c : Char) : Bool :=
  isNameStart c || c.isDigit

/-- The numeral that starts with a digit; a point belongs to it only if a digit follows. -/
def numeral (c : Char) (s : List Char) : Piece :=
  let whole := c :: s.takeWhile Char.isDigit
  match s.dropWhile Char.isDigit with
  | '.' :: d :: s => if d.isDigit then ⟨.lexeme .fixed, whole ++ '.' :: d :: s.takeWhile Char.isDigit⟩
    else ⟨.lexeme .integer, whole⟩
  | _ => ⟨.lexeme .integer, whole⟩

/-- The piece that a character starts by itself. -/
def single (c : Char) : Piece :=
  match Kind.ofPunctuation? c with
  | some kind => ⟨.lexeme kind, [c]⟩
  | none => ⟨.stray, [c]⟩

/-- The longest piece at the start of the source `c :: s`. -/
def firstPiece (c : Char) (s : List Char) : Piece :=
  if isSpace c then ⟨.skipped, c :: s.takeWhile isSpace⟩
  else if isNameStart c then ⟨.lexeme .identifier, c :: s.takeWhile isNamePart⟩
  else if c.isDigit then numeral c s
  else if c = '/' && s.head? = some '/' then ⟨.skipped, c :: s.takeWhile (· ≠ '\n')⟩
  else single c

/-- The pieces of a source behind those already found. -/
def piecesInto (found : Array Piece) : List Char → Array Piece
  | [] => found
  | c :: s => piecesInto (found.push (firstPiece c s)) (s.drop ((firstPiece c s).text.length - 1))
termination_by s => s.length
decreasing_by all_goals simp only [List.length_drop, List.length_cons]; omega

/-- The pieces of a source in order. -/
def pieces (s : List Char) : List Piece :=
  (piecesInto #[] s).toList

/-- What a piece at an offset contributes to the scan. -/
def entry (offset : Nat) (piece : Piece) : Option (Except Failure Lexeme) :=
  match piece.role with
  | .skipped => none
  | .lexeme kind => some (.ok ⟨kind, piece.string, ⟨offset, offset + piece.string.utf8ByteSize⟩⟩)
  | .stray => some (.error (.unrecognized offset piece.string))

/-- The entries of pieces that start at an offset, behind those already found. -/
def entriesInto (found : Array (Except Failure Lexeme)) (offset : Nat) :
    List Piece → Array (Except Failure Lexeme)
  | [] => found
  | piece :: rest =>
    entriesInto ((entry offset piece).elim found found.push) (offset + piece.string.utf8ByteSize) rest

/-! ## The pieces are the source -/

theorem numeral_isPrefix (c : Char) (s : List Char) : (numeral c s).text <+: c :: s := by
  have hs : s.takeWhile Char.isDigit ++ s.dropWhile Char.isDigit = s := List.takeWhile_append_dropWhile
  have hw : c :: s.takeWhile Char.isDigit <+: c :: s := List.cons_prefix_cons.2 ⟨rfl, List.takeWhile_prefix _⟩
  unfold numeral
  split
  · rename_i d t h
    split
    · rw [h] at hs
      refine List.cons_prefix_cons.2 ⟨rfl, ?_⟩
      conv => rhs; rw [← hs]
      exact (List.prefix_append_right_inj _).2
        (List.cons_prefix_cons.2 ⟨rfl, List.cons_prefix_cons.2 ⟨rfl, List.takeWhile_prefix _⟩⟩)
    · exact hw
  · exact hw

theorem firstPiece_isPrefix (c : Char) (s : List Char) : (firstPiece c s).text <+: c :: s := by
  have hw : ∀ p : Char → Bool, c :: s.takeWhile p <+: c :: s := fun p =>
    List.cons_prefix_cons.2 ⟨rfl, List.takeWhile_prefix p⟩
  have h1 : (single c).text = [c] := by unfold single; split <;> rfl
  unfold firstPiece
  split
  · exact hw _
  split
  · exact hw _
  split
  · exact numeral_isPrefix c s
  split
  · exact hw _
  · rw [h1]; exact List.cons_prefix_cons.2 ⟨rfl, List.nil_prefix⟩

theorem firstPiece_ne_nil (c : Char) (s : List Char) : (firstPiece c s).text ≠ [] := by
  have h1 : (single c).text = [c] := by unfold single; split <;> rfl
  have h2 : (numeral c s).text ≠ [] := by unfold numeral; split <;> (try split) <;> simp
  unfold firstPiece
  split
  · simp
  split
  · simp
  split
  · exact h2
  split
  · simp
  · simp [h1]

/-- The first piece and what it leaves of the source. -/
theorem firstPiece_append (c : Char) (s : List Char) :
    (firstPiece c s).text ++ s.drop ((firstPiece c s).text.length - 1) = c :: s := by
  obtain ⟨d, t, h⟩ := List.exists_cons_of_ne_nil (firstPiece_ne_nil c s)
  have := List.prefix_iff_eq_append.1 (firstPiece_isPrefix c s)
  rw [h] at this ⊢
  simpa using this

theorem piecesInto_eq (found : Array Piece) (s : List Char) :
    (piecesInto found s).toList = found.toList ++ pieces s := by
  match s with
  | [] => simp [pieces, piecesInto]
  | c :: s =>
    rw [pieces, piecesInto, piecesInto, piecesInto_eq (found.push _), piecesInto_eq (Array.push #[] _)]
    simp
termination_by s.length
decreasing_by all_goals simp only [List.length_drop, List.length_cons]; omega

@[simp] theorem pieces_nil : pieces [] = [] := by
  simp [pieces, piecesInto]

theorem pieces_cons (c : Char) (s : List Char) :
    pieces (c :: s) = firstPiece c s :: pieces (s.drop ((firstPiece c s).text.length - 1)) := by
  rw [pieces, piecesInto, piecesInto_eq]
  simp

/-- The pieces of a source, one after the other, are the source. -/
theorem flatten_pieces (s : List Char) : ((pieces s).map Piece.text).flatten = s := by
  match s with
  | [] => simp
  | c :: s =>
    rw [pieces_cons, List.map_cons, List.flatten_cons, flatten_pieces (s.drop _), firstPiece_append]
termination_by s.length
decreasing_by all_goals simp only [List.length_drop, List.length_cons]; omega

theorem entriesInto_eq (found : Array (Except Failure Lexeme)) (offset : Nat) (l : List Piece) :
    (entriesInto found offset l).toList = found.toList ++ (entriesInto #[] offset l).toList := by
  induction l generalizing found offset with
  | nil => simp [entriesInto]
  | cons piece rest ih =>
    rw [entriesInto, entriesInto, ih, ih ((entry offset piece).elim #[] (Array.push #[]))]
    cases entry offset piece <;> simp

/-- The entries of a list of pieces: that of the first, then those of the others behind it. -/
theorem entriesInto_cons (offset : Nat) (piece : Piece) (rest : List Piece) :
    (entriesInto #[] offset (piece :: rest)).toList =
      (entry offset piece).toList ++ (entriesInto #[] (offset + piece.string.utf8ByteSize) rest).toList := by
  rw [entriesInto, entriesInto_eq]
  cases entry offset piece <;> simp

end Scan

/-- The lexemes of a source and the failures of its stray characters, in order. -/
def scan (source : String) : List (Except Failure Lexeme) :=
  (Scan.entriesInto #[] 0 (Scan.pieces source.toList)).toList

end Formula
