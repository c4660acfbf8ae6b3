import Formula.Session.File

/-!
# The command line

`interpret` reads the arguments: flags and options may stand anywhere up to `--`, and every other argument is the one
input, which is standard input if there is none. `Invocation.outcome` is what the program prints and the code it exits
with, given the bytes of the input.
-/

namespace Formula.CommandLine

/-- What the arguments ask for. -/
structure Invocation where
  input : Option String := none
  permissive : Bool := false
  maxNesting : Option Nat := none
  dumpArena : Bool := false
deriving DecidableEq, Repr

/-- What to do about the arguments. -/
inductive Request
  | help
  | refuse
  | run (invocation : Invocation)
deriving DecidableEq, Repr

/-- One past the greatest limit on nesting, `2 ^ 64`. -/
def limitEnd : Nat := 0x10000000000000000

/-- A limit on nesting: digits, perhaps after a plus, that write a number of 64 bits. -/
def limit? (value : String) : Option Nat :=
  let digits := match value.toList with
    | '+' :: digits => digits
    | digits => digits
  if Numeral.isDigits digits && Numeral.valueOf digits < limitEnd then some (Numeral.valueOf digits) else none

/-- Whether an argument stands for itself and names no option. -/
def isPlain (argument : String) : Bool :=
  argument = "-" || !argument.startsWith "-"

namespace Invocation

/-- The invocation with the input, unless it has one already. -/
def setInput (i : Invocation) (argument : String) : Option Invocation :=
  if i.input.isSome ∨ argument = "" then none else some { i with input := some argument }

def setPermissive (i : Invocation) : Option Invocation :=
  if i.permissive then none else some { i with permissive := true }

def setDumpArena (i : Invocation) : Option Invocation :=
  if i.dumpArena then none else some { i with dumpArena := true }

def setMaxNesting (i : Invocation) (value : String) : Option Invocation :=
  if i.maxNesting.isSome then none else (limit? value).map fun limit => { i with maxNesting := some limit }

end Invocation

/-- Reads the arguments behind `--`, none of which is an option. -/
def interpretPlain (i : Invocation) : List String → Request
  | [] => .run i
  | argument :: rest =>
    match i.setInput argument with
    | some i => interpretPlain i rest
    | none => .refuse

/-- Reads the arguments behind those that were already taken in. -/
def interpretFrom (i : Invocation) : List String → Request
  | [] => .run i
  | "--" :: rest => interpretPlain i rest
  | "--help" :: _ => .help
  | "--permissive-numbers" :: rest =>
    match i.setPermissive with
    | some i => interpretFrom i rest
    | none => .refuse
  | "--dump-arena" :: rest =>
    match i.setDumpArena with
    | some i => interpretFrom i rest
    | none => .refuse
  | ["--max-nesting"] => .refuse
  | "--max-nesting" :: value :: rest =>
    match if isPlain value then i.setMaxNesting value else none with
    | some i => interpretFrom i rest
    | none => .refuse
  | argument :: rest =>
    match argument.splitOn "=" with
    | "--max-nesting" :: value :: more =>
      match i.setMaxNesting ("=".intercalate (value :: more)) with
      | some i => interpretFrom i rest
      | none => .refuse
    | _ =>
      if isPlain argument then
        match i.setInput argument with
        | some i => interpretFrom i rest
        | none => .refuse
      else if argument.startsWith "-h" then .help
      else .refuse

/-- What the arguments ask for. -/
def interpret (arguments : List String) : Request :=
  interpretFrom {} arguments

/-- What a run of the program leaves behind. -/
structure Outcome where
  code : Nat
  stdout : String
  stderr : String
deriving DecidableEq, Repr

/-- The code of a run that was asked for in a wrong way. -/
def misuseCode : Nat := 2

namespace Invocation

def options (i : Invocation) : Options where
  policy := if i.permissive then .permissive else .strict
  maxNesting := i.maxNesting.getD ({} : Options).maxNesting

/-- A line of the arena's listing, with the index right-aligned in four places. -/
def listingLine (id : NodeId) (node : Node) : String :=
  let index := toString id.index
  String.ofList (List.replicate (4 - index.length) ' ') ++ index ++ ": " ++ node.text ++ "\n"

/-- What is printed about the root of a session. -/
def report (i : Invocation) (s : Session) (root : NodeId) : String :=
  let listing := if i.dumpArena then s.arena.toList.map fun (id, node) => listingLine id node else []
  s.arena.render root ++ "\n" ++ String.join listing

/-- The outcome for an input with the given bytes, if it could be read. -/
def outcome (i : Invocation) (contents : Except ReadError ByteArray) : Outcome :=
  let (result, s) : Except (List String) NodeId × Session :=
    match i.input with
    | some path =>
      let (result, s) := Session.parseFile i.options path contents
      (result.mapError FileFailure.chain, s)
    | none =>
      let (result, s) := (Session.new i.options).parseContents contents
      (result.mapError Failure.chain, s)
  match result with
  | .ok root => ⟨0, i.report s root, ""⟩
  | .error chain => ⟨1, "", "failed to parse:\n" ++ ": ".intercalate chain ++ "\n"⟩

end Invocation

end Formula.CommandLine
