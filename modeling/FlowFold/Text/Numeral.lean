/-! # Reading integers

Two notations of 64-bit integers. The plain one is an optional sign and decimal digits.
The other also knows bases: `0x`, `0o` or a leading `0`, and `0b` stand for 16, 8 and 2,
and a single underscore may stand between two digits or between a base and a digit.
-/

namespace FlowFold.Text

inductive NumeralError where
  | malformed
  | outOfRange
  deriving Repr, DecidableEq

/-- The value of a digit, letters being digits beyond 9. -/
def digitValue? (c : Char) : Option Nat :=
  if '0' ≤ c ∧ c ≤ '9' then some (c.toNat - '0'.toNat)
  else if 'a' ≤ c ∧ c ≤ 'z' then some (c.toNat - 'a'.toNat + 10)
  else if 'A' ≤ c ∧ c ≤ 'Z' then some (c.toNat - 'A'.toNat + 10)
  else none

/-- Read digits on from a value below 2^64, skipping underscores. The first digit that is
    wrong or that leads out of range decides. -/
def readDigits (base : Nat) : Nat → List Char → Except NumeralError Nat
  | n, [] => .ok n
  | n, '_' :: rest => readDigits base n rest
  | n, c :: rest =>
      match digitValue? c with
      | none => .error .malformed
      | some d =>
          if d ≥ base then .error .malformed
          else if n * base + d ≥ 0x10000000000000000 then .error .outOfRange
          else readDigits base (n * base + d) rest

/-- The base of an unsigned numeral, and its digits. -/
def splitBase : List Char → Nat × List Char
  | '0' :: c :: d :: rest =>
      if c = 'x' ∨ c = 'X' then (16, d :: rest)
      else if c = 'o' ∨ c = 'O' then (8, d :: rest)
      else if c = 'b' ∨ c = 'B' then (2, d :: rest)
      else (8, c :: d :: rest)
  | '0' :: rest => (8, rest)
  | digits => (10, digits)

/-- Whether every underscore has a digit or a base before it and a digit after it. -/
def underscoresFit (afterDigit : Bool) : List Char → Bool
  | [] => true
  | '_' :: '_' :: _ => false
  | ['_'] => false
  | '_' :: rest => afterDigit && underscoresFit false rest
  | _ :: rest => underscoresFit true rest

/-- Read the magnitude of a numeral that may have a base. -/
def readMagnitude (digits : List Char) : Except NumeralError Nat := do
  if digits.isEmpty then throw .malformed
  let (base, rest) := splitBase digits
  let n ← readDigits base 0 rest
  let hasBase := base ≠ 10
  unless underscoresFit hasBase rest do throw .malformed
  return n

/-- The integer with a sign and a magnitude, if it has 64 bits. -/
def signed (negative : Bool) (n : Nat) : Except NumeralError Int :=
  if negative then
    if n > 0x8000000000000000 then .error .outOfRange else .ok (Int.negOfNat n)
  else if n ≥ 0x8000000000000000 then .error .outOfRange else .ok (Int.ofNat n)

def readSigned (magnitude : List Char → Except NumeralError Nat) (s : String) :
    Except NumeralError Int :=
  match s.toList with
  | '-' :: rest => do signed true (← magnitude rest)
  | '+' :: rest => do signed false (← magnitude rest)
  | digits => do signed false (← magnitude digits)

/-- Read an integer that may have a base. -/
def readInt (s : String) : Except NumeralError Int := readSigned readMagnitude s

/-- Read an integer in plain decimal notation. -/
def readDecimal (s : String) : Except NumeralError Int :=
  readSigned (fun digits =>
    if digits.isEmpty || digits.contains '_' then .error .malformed
    else readDigits 10 0 digits) s

end FlowFold.Text
