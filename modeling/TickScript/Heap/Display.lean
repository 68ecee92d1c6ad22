import TickScript.Heap
import TickScript.Decimal.Notation
import TickScript.Text.Quoted

/-!
# Showing values

A value is shown in one line, down to a depth of nesting; what lies deeper is shown as three dots. A
text by itself is shown as it is, a text inside another value in quotes.
-/

namespace TickScript.Heap

/-- A value in words: `depth` levels of it, with a text in quotes unless it stands alone. -/
def display (h : Heap) (alone : Bool) : Nat → Value → String
  | 0, _ => "..."
  | depth + 1, v =>
    match v with
    | .null => "null"
    | .int n => Decimal.intText n.toInt
    | .float x => Decimal.floatText x
    | .text _ s => if alone then s else Text.quoted s
    | .tuple _ _ items => "(" ++ ", ".intercalate (items.map (display h false depth)) ++ ")"
    | .object r =>
      "\x7b" ++ ", ".intercalate ((h.members r).map fun (name, v) =>
        name ++ " = " ++ display h false depth v) ++ "\x7d"
    | .array r => "[" ++ ", ".intercalate ((h.items r).map (display h false depth)) ++ "]"

/-- A value in words, down to a depth of nesting. -/
def shown (h : Heap) (depth : Nat) (v : Value) : String := h.display true depth v

end TickScript.Heap
