import Mathlib

/-! What the services written in TypeScript check of the numbers and texts they are given. -/

namespace Mycellios.Data

/-- `Number.MAX_SAFE_INTEGER`. -/
def maxSafeInteger : ℕ := 2 ^ 53 - 1

def isHexDigit (c : Char) : Bool := c.isDigit || ('a' ≤ c && c ≤ 'f')

def isHex64 (cs : List Char) : Bool := cs.length == 64 && cs.all isHexDigit

/-- `/^[0-9a-f]{64}$/`. -/
def isDigest (s : String) : Bool := isHex64 s.toList

/-- `/^sha256:[0-9a-f]{64}$/`. -/
def isSha256 (s : String) : Bool :=
  s.toList.take 7 == "sha256:".toList && isHex64 (s.toList.drop 7)

/-- A letter or digit, and at most so many letters, digits and marks after it. -/
def isMarkedId (marks : List Char) (most : ℕ) (s : String) : Bool :=
  match s.toList with
  | [] => false
  | c :: cs =>
    c.isAlphanum && cs.all (fun c => c.isAlphanum || marks.contains c) && cs.length ≤ most

/-- `/^[A-Za-z0-9][A-Za-z0-9._:-]{0,191}$/`. -/
def isId : String → Bool := isMarkedId ['.', '_', ':', '-'] 191

end Mycellios.Data
