import SeqScript.Json.Value
import SeqScript.Text.Escaped

/-!
# Naming values in messages

A message that refuses a value names its kind, and shows the value too if it is a scalar.
-/

namespace SeqScript

/-- A number as a message names it. -/
def Number.describe : Number → String
  | .integer i _ _ => "integer `" ++ decimalText i ++ "`"
  | .real x => "floating point `" ++ x.text ++ "`"

/-- A value as a message names it: scalars with their value, containers by their kind. -/
def Json.describe : Json → String
  | null => "null"
  | bool b => "boolean `" ++ (if b then "true" else "false") ++ "`"
  | number n => n.describe
  | string s => "string " ++ Text.escaped s
  | array _ => "sequence"
  | object _ => "map"

end SeqScript
