import Formula.Numeral.Policy
import Formula.Text.Record

/-!
# Options of a session
-/

namespace Formula

/-- How strict a session is with numerals, and how deep it lets programs nest. -/
structure Options where
  policy : Policy := .strict
  maxNesting : Nat := 256
deriving DecidableEq, Repr

namespace Policy

def name : Policy → String
  | strict => "Strict"
  | permissive => "Permissive"

end Policy

namespace Options

def text (o : Options) : String :=
  Text.record "DriverOptions" [("numeric_policy", o.policy.name), ("max_nesting", toString o.maxNesting)]

end Options

end Formula
