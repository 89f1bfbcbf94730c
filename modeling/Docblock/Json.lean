/-!
# Compact JSON text

Lists and objects are written without blanks. In a quoted text only the quote, the backslash and
the control characters below the blank are escaped.
-/

namespace Docblock.Json

def hexDigit (n : Nat) : Char := Nat.digitChar n

def escaped (c : Char) : List Char :=
  if c = '"' then ['\\', '"']
  else if c = '\\' then ['\\', '\\']
  else if c = '\x08' then ['\\', 'b']
  else if c = '\x0c' then ['\\', 'f']
  else if c = '\n' then ['\\', 'n']
  else if c = '\r' then ['\\', 'r']
  else if c = '\t' then ['\\', 't']
  else if c.toNat < 0x20 then
    ['\\', 'u', '0', '0', hexDigit (c.toNat / 16), hexDigit (c.toNat % 16)]
  else [c]

def quoted (cs : List Char) : List Char := '"' :: (cs.flatMap escaped ++ ['"'])

def text (s : String) : List Char := quoted s.toList

def commaSeparated (items : List (List Char)) : List Char := List.intercalate [','] items

def list (items : List (List Char)) : List Char := '[' :: (commaSeparated items ++ [']'])

def field (name : String) (value : List Char) : List Char := text name ++ ':' :: value

def object (fields : List (List Char)) : List Char := '{' :: (commaSeparated fields ++ ['}'])

def bool (b : Bool) : List Char := if b then "true".toList else "false".toList

@[simp] theorem list_nil : list [] = ['[', ']'] := rfl

@[simp] theorem object_nil : object [] = ['{', '}'] := rfl

end Docblock.Json
