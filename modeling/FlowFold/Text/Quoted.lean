import FlowFold.Text.Printable

/-! # Quoted text

A text in double quotes in which everything that is not printable is escaped: the
quote and the backslash by a backslash, seven control characters by a letter, the
others by their code in hexadecimal digits, two for a control character of ASCII,
four within the first plane, and eight beyond it.
-/

namespace FlowFold.Text

/-- The digits of `n` in base 16, of which the last `width` are kept. -/
def hexDigits (width n : Nat) : List Char :=
  match width with
  | 0 => []
  | width + 1 => hexDigits width (n / 16) ++ [Nat.digitChar (n % 16)]

/-- How a character stands in a quoted text. -/
def quotedChar (c : Char) : List Char :=
  if c = '"' ∨ c = '\\' then ['\\', c]
  else if isPrintable c then [c]
  else
    match c.toNat with
    | 0x07 => ['\\', 'a']
    | 0x08 => ['\\', 'b']
    | 0x0c => ['\\', 'f']
    | 0x0a => ['\\', 'n']
    | 0x0d => ['\\', 'r']
    | 0x09 => ['\\', 't']
    | 0x0b => ['\\', 'v']
    | code =>
        if code < 0x80 then ['\\', 'x'] ++ hexDigits 2 code
        else if code < 0x10000 then ['\\', 'u'] ++ hexDigits 4 code
        else ['\\', 'U'] ++ hexDigits 8 code

/-- A text in double quotes, escaped where needed. -/
def quoted (s : String) : String :=
  String.ofList ('"' :: s.toList.flatMap quotedChar ++ ['"'])

end FlowFold.Text
