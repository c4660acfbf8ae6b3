import Formula.CommandLine
import Formula.Proofs.Source.Delivery

/-!
# The ways to a parse

A source may be given as a text, delivered in pieces, read from a file, or named on the command line. All of these parse
the same text, and what cannot be read as text is not parsed at all (`entry_points_agree`).
-/

namespace Formula

open CommandLine

variable {b : ByteArray} {source path : String} {contents : Except ReadError ByteArray} {cause : ReadError}

namespace Session

theorem parseContents_of_ok (s : Session) (h : contents >>= textOfBytes = .ok source) :
    s.parseContents contents = s.parse source := by
  rw [parseContents, h]

theorem parseContents_of_error (s : Session) (h : contents >>= textOfBytes = .error cause) :
    s.parseContents contents = (.error (.unreadable cause), s.refuse) := by
  rw [parseContents, h]

/-- Bytes in pieces are parsed as they are together. -/
theorem parseDeliveries_of_brings (s : Session) {ds : List Delivery} (h : Brings b ds) :
    s.parseDeliveries ds = (.returned (s.parseContents (.ok b)).1, (s.parseContents (.ok b)).2) := by
  rw [parseDeliveries, h.gather, ByteArray.empty_append]

theorem parseDeliveries_of_breaks (s : Session) {ds : List Delivery} (h : Breaks cause ds) :
    s.parseDeliveries ds = (.returned (.error (.unreadable cause)), s.refuse) := by
  have hcontents : (.error cause : Except ReadError ByteArray) >>= textOfBytes = .error cause := rfl
  rw [parseDeliveries, h.gather]
  simp only [s.parseContents_of_error hcontents]

theorem parseFile_of_ok (options : Options) (path : String) (h : contents >>= textOfBytes = .ok source) :
    parseFile options path contents =
      (((new options).parse source).1.mapError (.unparsed path), ((new options).parse source).2) := by
  rw [parseFile, h]

theorem parseFile_of_error (options : Options) (path : String) (h : contents >>= textOfBytes = .error cause) :
    parseFile options path contents = (.error (.unreadable path cause), new options) := by
  rw [parseFile, h]

end Session

namespace CommandLine.Invocation

/-- The code and the standard output of a run whose parse came to this. -/
def printed (i : Invocation) : Except Failure NodeId × Session → Nat × String
  | (.ok root, s) => (0, i.report s root)
  | (.error _, _) => (1, "")

/-- What is printed for a text is decided by its parse, whether it comes from a file or from standard input. -/
theorem printed_outcome_of_ok (i : Invocation) (h : contents >>= textOfBytes = .ok source) :
    ((i.outcome contents).code, (i.outcome contents).stdout) = i.printed ((Session.new i.options).parse source) := by
  obtain ⟨input, permissive, maxNesting, dumpArena⟩ := i
  cases input with
  | some path =>
    rw [outcome]
    simp only [Session.parseFile_of_ok _ path h]
    rcases Session.parse _ source with ⟨f | root, s⟩ <;> rfl
  | none =>
    rw [outcome]
    simp only [Session.parseContents_of_ok _ h]
    rcases Session.parse _ source with ⟨f | root, s⟩ <;> rfl

theorem printed_outcome_of_error (i : Invocation) (h : contents >>= textOfBytes = .error cause) :
    ((i.outcome contents).code, (i.outcome contents).stdout) = (1, "") := by
  obtain ⟨input, permissive, maxNesting, dumpArena⟩ := i
  cases input with
  | some path =>
    rw [outcome]
    simp only [Session.parseFile_of_error _ path h]
    rfl
  | none =>
    rw [outcome]
    simp only [Session.parseContents_of_error _ h]
    rfl

end CommandLine.Invocation

/-- Bytes that are a text parse as that text, in whatever pieces they are delivered and from whichever place they are
taken, and the program prints the same with the same code, which is zero exactly if the parse gives a root. Bytes that
are no text are not parsed, nor is anything if the delivery breaks off: then its own error is reported, whatever bytes
came before it, and a session keeps its nodes but has failed and has no root. -/
theorem entry_points_agree (s : Session) (options : Options) (i : Invocation) (path : String) (b : ByteArray) :
    (∀ source, source.toUTF8 = b →
      let parsed := (Session.new options).parse source
      let ran := (Session.new i.options).parse source
      (∀ ds, Brings b ds → s.parseDeliveries ds = (.returned (s.parse source).1, (s.parse source).2)) ∧
      Session.parseFile options path (.ok b) = (parsed.1.mapError (.unparsed path), parsed.2) ∧
      ∀ input,
        let outcome := { i with input }.outcome (.ok b)
        (∀ root, ran.1 = .ok root → outcome.code = 0 ∧ outcome.stdout = i.report ran.2 root) ∧
        ((∀ root, ran.1 ≠ .ok root) → outcome.code = 1 ∧ outcome.stdout = "")) ∧
    ((∀ source : String, source.toUTF8 ≠ b) →
      (∀ ds, Brings b ds → s.parseDeliveries ds =
        (.returned (.error (.unreadable .notText)), { s with root := none, phase := .failed })) ∧
      Session.parseFile options path (.ok b) = (.error (.unreadable path .notText), .new options) ∧
      ∀ input, ({ i with input }.outcome (.ok b)).code = 1 ∧ ({ i with input }.outcome (.ok b)).stdout = "") ∧
    ∀ cause ds, Breaks cause ds →
      s.parseDeliveries ds =
        (.returned (.error (.unreadable cause)), { s with root := none, phase := .failed }) := by
  refine ⟨?text, ?noText, fun cause ds hds => ?breaks⟩
  case text =>
    rintro source rfl
    have htext : textOfBytes source.toUTF8 = .ok source := textOfBytes_toUTF8 source
    refine ⟨fun ds hds => ?_, Session.parseFile_of_ok options path htext, fun input => ?_⟩
    · rw [s.parseDeliveries_of_brings hds, s.parseContents_of_ok htext]
    · have hread : .ok source.toUTF8 >>= textOfBytes = .ok source := htext
      have hprinted := { i with input }.printed_outcome_of_ok hread
      change _ = i.printed ((Session.new i.options).parse source) at hprinted
      rcases hran : (Session.new i.options).parse source with ⟨f | root, t⟩
      · rw [hran] at hprinted
        exact ⟨nofun, fun _ => Prod.ext_iff.mp hprinted⟩
      · rw [hran] at hprinted
        refine ⟨fun root' hroot => ?_, fun hne => absurd rfl (hne root)⟩
        cases hroot
        exact Prod.ext_iff.mp hprinted
  case noText =>
    intro h
    have htext : textOfBytes b = .error .notText := textOfBytes_of_ne h
    refine ⟨fun ds hds => ?_, Session.parseFile_of_error options path htext, fun input => ?_⟩
    · rw [s.parseDeliveries_of_brings hds, s.parseContents_of_error htext]
      rfl
    · have hread : .ok b >>= textOfBytes = .error .notText := htext
      exact Prod.ext_iff.mp ({ i with input }.printed_outcome_of_error hread)
  case breaks =>
    exact s.parseDeliveries_of_breaks hds

end Formula
