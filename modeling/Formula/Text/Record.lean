/-!
# Records written out

A record is written as its name and its fields in braces, a list in brackets, both with their parts in order.
-/

namespace Formula.Text

/-- A named record with its fields. -/
def record (name : String) (fields : List (String × String)) : String :=
  name ++ " \x7b " ++ ", ".intercalate (fields.map fun field => field.1 ++ ": " ++ field.2) ++ " \x7d"

/-- A value in the parentheses of its name. -/
def tagged (name value : String) : String :=
  name ++ "(" ++ value ++ ")"

/-- A list of parts. -/
def bracketed (parts : List String) : String :=
  "[" ++ ", ".intercalate parts ++ "]"

/-- A value that may be missing. -/
def optional (value : Option String) : String :=
  match value with
  | some v => tagged "Some" v
  | none => "None"

end Formula.Text
