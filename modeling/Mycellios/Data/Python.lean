import Mathlib

namespace Mycellios.Data

/-- The characters `str.strip` removes. -/
def isSpace (c : Char) : Bool :=
  let n := c.toNat
  (0x09 ≤ n && n ≤ 0x0d) || (0x1c ≤ n && n ≤ 0x20) || n == 0x85 || n == 0xa0 || n == 0x1680 ||
    (0x2000 ≤ n && n ≤ 0x200a) || n == 0x2028 || n == 0x2029 || n == 0x202f || n == 0x205f ||
    n == 0x3000

def strip (s : String) : String :=
  String.ofList ((s.toList.dropWhile isSpace).reverse.dropWhile isSpace).reverse

def tupleRepr : List Nat → String
  | [] => "()"
  | [x] => "(" ++ toString x ++ ",)"
  | xs => "(" ++ ", ".intercalate (xs.map toString) ++ ")"

def tupleReprs (xs : List (List Nat)) : String := "[" ++ ", ".intercalate (xs.map tupleRepr) ++ "]"

/-- A time: a finite double as a rational, or an integer that no double can hold. -/
inductive Number
  | finite (value : ℚ)
  | notFinite | tooLarge

end Mycellios.Data
