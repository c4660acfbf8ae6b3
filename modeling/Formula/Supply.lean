import Formula.Event
import Formula.Numeral.Policy

/-!
# Supplies of tokens

A supply hands out one token at a time. Its entries are lexemes, for which a leaf is made when they carry a value,
tokens that are already finished, and failures; each is used up by one request (`entries_next`). The span of a supply
is that of the token it handed out last, and neither a failure nor the end of the supply moves it.
-/

namespace Formula

namespace Conversion

/-- What is to be noted about the conversion of a numeral. -/
def events (lexeme : String) : Conversion Node → List Event
  | leading leaf => [.converted lexeme leaf]
  | _ => []

end Conversion

namespace Lexeme

/-- The leaf for a lexeme that carries a value, as far as the policy converts it. -/
def leaf (policy : Policy) (lexeme : Lexeme) : Option (Conversion Node) :=
  match lexeme.kind with
  | .identifier => some (.whole (.identifier lexeme.text))
  | .integer => some ((policy.integer lexeme.text).map .integer)
  | .fixed => some ((policy.fixed lexeme.text).map .fixed)
  | _ => none

theorem isSome_leaf (policy : Policy) (lexeme : Lexeme) : (lexeme.leaf policy).isSome = lexeme.kind.isValued := by
  obtain ⟨kind, text, span⟩ := lexeme
  cases kind <;> rfl

end Lexeme

/-- How a call ends. -/
inductive Ending (α : Type)
  | returned (outcome : Except Failure α)
  /-- It broke off without an outcome. -/
  | aborted (reason : String)

/-- How a lexer that is at an end goes on. -/
inductive Break
  /-- It has nothing for one request, as at its end. -/
  | pause
  | panic (reason : String)

/-- A lexer by what it does about the requests made to it: it answers with what it scans, and behind each break with
what it scans from there on. A parse that ends makes only so many requests, so its answers make a list. -/
structure Lexer where
  scan : List (Except Failure Lexeme)
  later : List (Break × List (Except Failure Lexeme))

/-- What a supply has in store. -/
inductive Supply.Entry
  | lexeme (lexeme : Lexeme)
  | token (token : Token) (span : Span)
  | failure (failure : Failure)

/-- Tokens still to be handed out. -/
structure Supply where
  policy : Policy
  entries : List Supply.Entry
  span : Span

namespace Supply

/-- The supply of a scan. -/
def ofScan (policy : Policy) (scan : List (Except Failure Lexeme)) : Supply :=
  ⟨policy, scan.map fun | .ok lexeme => .lexeme lexeme | .error failure => .failure failure, .origin⟩

/-- What a request to a supply brings about. -/
structure Response where
  result : Except Failure (Option Token)
  supply : Supply
  arena : Arena
  events : List Event

/-- Hands out the next token; no token is the end of the supply. -/
def next (s : Supply) (a : Arena) : Response :=
  match s.entries with
  | [] => ⟨.ok none, s, a, []⟩
  | .failure f :: rest => ⟨.error f, { s with entries := rest }, a, []⟩
  | .token t span :: rest => ⟨.ok (some t), { s with entries := rest, span }, a, []⟩
  | .lexeme l :: rest =>
    match l.leaf s.policy with
    | none =>
      let t : Token := ⟨l.kind, none⟩
      ⟨.ok (some t), { s with entries := rest, span := l.span }, a, [.token t l.text]⟩
    | some conversion =>
      match conversion.value? with
      | none => ⟨.error (.malformedNumber l.span.start l.text), { s with entries := rest }, a, []⟩
      | some node =>
        let t : Token := ⟨l.kind, some a.nextId⟩
        ⟨.ok (some t), { s with entries := rest, span := l.span }, a.push node,
          conversion.events l.text ++ [.token t l.text]⟩

/-- A request uses up one entry. -/
theorem entries_next (s : Supply) (a : Arena) : (s.next a).supply.entries = s.entries.tail := by
  unfold next
  split
  · simp_all
  · simp_all
  · simp_all
  · split
    · simp_all
    · split <;> simp_all

/-- A supply ends when it has no entries left. -/
theorem result_next_eq_ok_none_iff (s : Supply) (a : Arena) : (s.next a).result = .ok none ↔ s.entries = [] := by
  unfold next
  split
  · simp_all
  · simp_all
  · simp_all
  · split
    · simp_all
    · split <;> simp_all

end Supply

end Formula
