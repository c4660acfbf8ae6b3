import Formula.Source.ReadError

/-!
# Deliveries

The bytes of a source arrive in pieces, up to one that is empty. An interruption is passed over, any other error ends
the delivery and is reported whatever bytes came before it, and a reader that panics delivers nothing. Only a complete
delivery is looked at as text.
-/

namespace Formula

/-- What one attempt to read more of a source brings. -/
inductive Delivery
  | bytes (bytes : ByteArray)
  | interrupted
  | error (cause : ReadError)
  /-- The reader panics. -/
  | panic (reason : String)

/-- The bytes of the deliveries behind those already received, or the error that ended them, unless the reader panics.
-/
def Delivery.gather (received : ByteArray) : List Delivery → Except String (Except ReadError ByteArray)
  | [] => .ok (.ok received)
  | bytes more :: rest => if more.isEmpty then .ok (.ok received) else gather (received ++ more) rest
  | interrupted :: rest => gather received rest
  | error cause :: _ => .ok (.error cause)
  | panic reason :: _ => .error reason

/-- The text that the bytes are in UTF-8. -/
def textOfBytes (bytes : ByteArray) : Except ReadError String :=
  match String.fromUTF8? bytes with
  | some text => .ok text
  | none => .error .notText

end Formula
