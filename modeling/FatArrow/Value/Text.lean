import FatArrow.Decimal.Shortest
import FatArrow.Value.Basic

/-!
Values as part of a message.
-/

namespace FatArrow.Value

mutual
/-- A value as part of a message. An array shows its items in braces, an object its type. -/
def text : Value → String
  | .null => "null"
  | .bool b => if b then "true" else "false"
  | .char c => c.toString
  | .integer k w => toString (k.denote w)
  | .single x => Decimal.Layout.plain.float32Text x
  | .double x => Decimal.Layout.plain.floatText x
  | .string s => s
  | .dateTime t => t.text
  | .dateTimeOffset t => t.text
  | .timeSpan t => t.text
  | .guid g => g.text
  | .array items => "\x7b" ++ ", ".intercalate (texts items) ++ "\x7d"
  | .object type _ => type.text

/-- The texts of a list of values. -/
def texts : List Value → List String
  | [] => []
  | v :: vs => v.text :: texts vs
end

end FatArrow.Value
