/-!
Quoted texts, and lists, sets and maps of them, as the descriptions of a registry show them.

* `escaped`: how a character is written between quotes;
* `quoted`: a text between quotes;
* `listText`, `setText`, `mapText`: quoted texts in brackets or braces, in the order given.
-/

namespace InstanceRegistry

/-- The code point of `c` in lower-case hexadecimal digits between braces. -/
def codePointText (c : Char) : String :=
  "\\u\x7b" ++ String.ofList (Nat.toDigits 16 c.toNat) ++ "\x7d"

/-- A quote and a backslash are written after a backslash, the control characters by a letter or
by their code point, and every other character as itself. -/
def escaped (c : Char) : String :=
  if c = '"' then "\\\""
  else if c = '\\' then "\\\\"
  else if c = '\n' then "\\n"
  else if c = '\r' then "\\r"
  else if c = '\t' then "\\t"
  else if c.toNat = 0 then "\\0"
  else if c.toNat < 0x20 ∨ c.toNat = 0x7F then codePointText c
  else String.singleton c

/-- A text between quotes. -/
def quoted (text : String) : String :=
  "\"" ++ String.join (text.toList.map escaped) ++ "\""

/-- The text `body` between braces. -/
def braced (body : String) : String :=
  "\x7b" ++ body ++ "\x7d"

/-- Items parted by a comma and a space. -/
def separated (items : List String) : String :=
  ", ".intercalate items

/-- Quoted texts in brackets. -/
def listText (items : List String) : String :=
  "[" ++ separated (items.map quoted) ++ "]"

/-- Quoted texts in braces. -/
def setText (items : List String) : String :=
  braced (separated (items.map quoted))

/-- Pairs of quoted texts in braces, a colon after each key. -/
def mapText (items : List (String × String)) : String :=
  braced (separated (items.map fun item => quoted item.1 ++ ": " ++ quoted item.2))

/-- A structure's text: its name, then its fields in braces. -/
def recordText (name : String) (fields : List (String × String)) : String :=
  let items := fields.map fun field => field.1 ++ ": " ++ field.2
  name ++ " " ++ braced (" " ++ separated items ++ " ")

end InstanceRegistry
