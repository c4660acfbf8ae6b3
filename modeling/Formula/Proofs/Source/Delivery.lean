import Formula.Source.Delivery

/-!
# What deliveries bring

However the bytes of a source are cut into pieces, and however often the delivery is interrupted, all of them are
gathered (`Brings.gather`). If the delivery breaks off, with an error or a panic, the bytes before that are not looked
at (`Breaks.gather`, `Delivery.gather_eq_error_iff`).
-/

namespace Formula

/-- The deliveries are the bytes in pieces, none of them empty, with any interruptions between them. -/
inductive Brings : ByteArray → List Delivery → Prop
  | nil : Brings .empty []
  | interrupted {b : ByteArray} {ds : List Delivery} : Brings b ds → Brings b (.interrupted :: ds)
  | bytes {more b : ByteArray} {ds : List Delivery} :
      0 < more.size → Brings b ds → Brings (more ++ b) (.bytes more :: ds)

/-- The deliveries end with the error, behind any pieces and interruptions. -/
inductive Breaks (cause : ReadError) : List Delivery → Prop
  | error {ds : List Delivery} : Breaks cause (.error cause :: ds)
  | interrupted {ds : List Delivery} : Breaks cause ds → Breaks cause (.interrupted :: ds)
  | bytes {more : ByteArray} {ds : List Delivery} : 0 < more.size → Breaks cause ds → Breaks cause (.bytes more :: ds)

/-- The reader panics, behind any pieces and interruptions. -/
inductive Panics (reason : String) : List Delivery → Prop
  | panic {ds : List Delivery} : Panics reason (.panic reason :: ds)
  | interrupted {ds : List Delivery} : Panics reason ds → Panics reason (.interrupted :: ds)
  | bytes {more : ByteArray} {ds : List Delivery} : 0 < more.size → Panics reason ds → Panics reason (.bytes more :: ds)

variable {b more : ByteArray} {ds : List Delivery} {cause : ReadError} {reason : String}

theorem Delivery.gather_bytes (h : 0 < more.size) (received : ByteArray) (ds : List Delivery) :
    gather received (.bytes more :: ds) = gather (received ++ more) ds := by
  have hne : ¬ more.isEmpty = true := fun he => Nat.ne_of_gt h (by simpa [ByteArray.isEmpty] using he)
  rw [gather, if_neg hne]

theorem Brings.gather (h : Brings b ds) (received : ByteArray) :
    Delivery.gather received ds = .ok (.ok (received ++ b)) := by
  induction h generalizing received with
  | nil => rw [Delivery.gather, ByteArray.append_empty]
  | interrupted _ ih => exact ih received
  | @bytes more b ds hmore _ ih => rw [Delivery.gather_bytes hmore, ih, ByteArray.append_assoc]

theorem Breaks.gather (h : Breaks cause ds) (received : ByteArray) :
    Delivery.gather received ds = .ok (.error cause) := by
  induction h generalizing received with
  | error => rfl
  | interrupted _ ih => exact ih received
  | bytes hmore _ ih => exact (Delivery.gather_bytes hmore received _).trans (ih _)

/-- Nothing is gathered exactly from a reader that panics. -/
theorem Delivery.gather_eq_error_iff (received : ByteArray) :
    gather received ds = .error reason ↔ Panics reason ds := by
  constructor
  · intro h
    fun_induction gather received ds with
    | case1 | case2 | case5 => cases h
    | case3 received more rest hmore ih =>
      have hpos : 0 < more.size := Nat.pos_of_ne_zero fun hz => hmore (by simp [ByteArray.isEmpty, hz])
      exact .bytes hpos (ih h)
    | case4 received rest ih => exact .interrupted (ih h)
    | case6 received reason' rest =>
      cases h
      exact .panic
  · intro h
    induction h generalizing received with
    | panic => rfl
    | interrupted _ ih => exact ih received
    | bytes hmore _ ih => exact (gather_bytes hmore received _).trans (ih _)

/-! ## Text -/

theorem textOfBytes_toUTF8 (text : String) : textOfBytes text.toUTF8 = .ok text := by
  have h : text.toUTF8.IsValidUTF8 := text.isValidUTF8
  rw [textOfBytes, String.fromUTF8?, dif_pos h]
  rfl

/-- Bytes that are those of no text are refused. -/
theorem textOfBytes_of_ne (h : ∀ text : String, text.toUTF8 ≠ b) : textOfBytes b = .error .notText := by
  have hb : ¬ b.IsValidUTF8 := fun hb => h (.fromUTF8 b hb) rfl
  rw [textOfBytes, String.fromUTF8?, dif_neg hb]

end Formula
