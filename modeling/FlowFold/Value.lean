import FlowFold.Fault

/-! # Values

Programs compute with 32-bit integers, which wrap around, and with booleans. A
value holds both payloads and a kind that says which of them counts. The payload
that does not count is zero in every value the operations below produce, but a
caller may supply one where it is not, and two values are equal only if all three
fields are. An operation on operands of the wrong kinds has no result.
-/

namespace FlowFold

/-- Which payload of a value counts. -/
inductive Kind where
  | int
  | bool
  /-- A tag that no value of the language has. -/
  | invalid (code : Int)
  deriving Repr, DecidableEq

namespace Kind

def ofCode : Int → Kind
  | 0 => int
  | 1 => bool
  | code => invalid code

def code : Kind → Int
  | int => 0
  | bool => 1
  | invalid c => c

/-- The name of a kind; only the two kinds of the language have one. -/
def name (k : Kind) : Except Fault String :=
  nameAt ["int", "bool"] k.code

end Kind

structure Value where
  kind : Kind
  /-- The integer payload. -/
  number : Int32
  /-- The boolean payload. -/
  flag : Bool
  deriving Repr, DecidableEq

namespace Value

def ofInt (n : Int32) : Value := ⟨.int, n, false⟩

def ofBool (b : Bool) : Value := ⟨.bool, 0, b⟩

/-- The text of a value: decimal digits, or `true` and `false`. -/
def text (v : Value) : Except Fault String :=
  match v.kind with
  | .int => .ok (toString v.number.toInt)
  | .bool => .ok (if v.flag then "true" else "false")
  | .invalid code => .error (.badValueKind code)

/-- Apply an operation on integers to two operands that both are integers. -/
def onInts (op : Int32 → Int32 → Value) (a b : Value) : Option Value :=
  if a.kind = .int ∧ b.kind = .int then some (op a.number b.number) else none

/-- The sum of two integers, modulo 2^32. -/
def add? : Value → Value → Option Value := onInts fun m n => ofInt (m + n)

/-- The difference of two integers, modulo 2^32. -/
def sub? : Value → Value → Option Value := onInts fun m n => ofInt (m - n)

/-- The product of two integers, modulo 2^32. -/
def mul? : Value → Value → Option Value := onInts fun m n => ofInt (m * n)

def lt? : Value → Value → Option Value := onInts fun m n => ofBool (decide (m < n))

/-- Whether two values of one kind are the same, both payloads included. -/
def eq? (a b : Value) : Option Value :=
  if a.kind = b.kind then some (ofBool (decide (a = b))) else none

def ne? (a b : Value) : Option Value :=
  (eq? a b).map fun same => ofBool (!same.flag)

end Value

end FlowFold
