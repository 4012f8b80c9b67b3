import MemoryManager.Text.Characters

namespace MemoryManager.Text

def digits (n : UInt64) : String :=
  String.ofList (Nat.toDigits 16 n.toNat)

/-- A number as `0x` and its lower-case digits. -/
def hex (n : UInt64) : String :=
  "0x" ++ digits n

/-- A machine word as `0x` and sixteen upper-case digits. -/
def word (n : UInt64) : String :=
  let ds := (Nat.toDigits 16 n.toNat).map Char.toUpper
  "0x" ++ String.ofList (List.replicate (16 - ds.length) '0' ++ ds)

/-- The written form of one character of a quoted string. Quotes and backslashes are escaped, and so
is what would not be seen for itself: characters that are not printable, and those that join the one
before them. -/
def escape (c : Char) : List Char :=
  match c with
  | '"' => ['\\', '"']
  | '\\' => ['\\', '\\']
  | '\t' => ['\\', 't']
  | '\n' => ['\\', 'n']
  | '\r' => ['\\', 'r']
  | '\x00' => ['\\', '0']
  | c =>
    if isUnprintable c || isCombining c then
      ['\\', 'u', '\x7b'] ++ Nat.toDigits 16 c.toNat ++ ['\x7d']
    else [c]

def quoted (s : String) : String :=
  String.ofList ('"' :: s.toList.flatMap escape ++ ['"'])

private def fieldList (fields : List (String × String)) : String :=
  ", ".intercalate (fields.map fun f => f.1 ++ ": " ++ f.2)

/-- A named value with all its fields. -/
def fields (name : String) (fs : List (String × String)) : String :=
  name ++ " \x7b " ++ fieldList fs ++ " \x7d"

/-- A named value that shows some of its fields. -/
def someFields (name : String) (fs : List (String × String)) : String :=
  name ++ " \x7b " ++ fieldList fs ++ ", .. \x7d"

def listed (xs : List String) : String :=
  "[" ++ ", ".intercalate xs ++ "]"

def bool (b : Bool) : String :=
  if b then "true" else "false"

def nat (n : Nat) : String :=
  String.ofList (Nat.toDigits 10 n)

end MemoryManager.Text
