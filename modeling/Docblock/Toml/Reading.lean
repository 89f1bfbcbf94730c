import Docblock.Text.Trim
import Docblock.Toml.Table

/-!
# Reading TOML

Readers take a value from the start of a text and return it with the text behind it, or nothing if
the text does not start with one. Nested readers carry a bound on their steps, which is the length
of the text.
-/

namespace Docblock.Toml

def isBlank (c : Char) : Bool := c == ' ' || c == '\t'

/-- Characters that comments and strings may hold. -/
def isPlain (c : Char) : Bool := c == '\t' || (0x20 ≤ c.toNat && c != '\x7f')

def skipBlanks (cs : List Char) : List Char := cs.dropWhile isBlank

/-- The text behind a line end. -/
def lineEnd? : List Char → Option (List Char)
  | '\n' :: cs => some cs
  | '\r' :: '\n' :: cs => some cs
  | _ => none

/-- The text behind a comment, or the whole text if there is none. -/
def skipComment : List Char → List Char
  | '#' :: cs => cs.dropWhile isPlain
  | cs => cs

/-- Skip blanks, comments and line ends; at most `steps` lines. -/
def skipLines : Nat → List Char → List Char
  | 0, cs => cs
  | steps + 1, cs =>
    let rest := skipComment (skipBlanks cs)
    match lineEnd? rest with
    | some rest => skipLines steps rest
    | none => rest

def hexValue? (c : Char) : Option Nat :=
  if c.isDigit then some (c.toNat - '0'.toNat)
  else if 'a' ≤ c && c ≤ 'f' then some (c.toNat - 'a'.toNat + 10)
  else if 'A' ≤ c && c ≤ 'F' then some (c.toNat - 'A'.toNat + 10)
  else none

/-- The character whose code point the hexadecimal digits write. -/
def codePoint? (ds : List Char) : Option Char :=
  (ds.foldlM (fun n d => (hexValue? d).map (16 * n + ·)) 0).bind fun n =>
    if h : n.isValidChar then some (Char.ofNatAux n h) else none

/-- The character an escape denotes and the text behind it. -/
def escape? : List Char → Option (Char × List Char)
  | 'b' :: cs => some ('\x08', cs)
  | 't' :: cs => some ('\t', cs)
  | 'n' :: cs => some ('\n', cs)
  | 'f' :: cs => some ('\x0c', cs)
  | 'r' :: cs => some ('\r', cs)
  | '"' :: cs => some ('"', cs)
  | '\\' :: cs => some ('\\', cs)
  | 'u' :: cs =>
    if cs.length < 4 then none else (codePoint? (cs.take 4)).map fun c => (c, cs.drop 4)
  | 'U' :: cs =>
    if cs.length < 8 then none else (codePoint? (cs.take 8)).map fun c => (c, cs.drop 8)
  | _ => none

/-- A string on one line behind its opening quote. -/
def basicTail? : Nat → List Char → Option (List Char × List Char)
  | 0, _ => none
  | _, [] => none
  | _ + 1, '"' :: cs => some ([], cs)
  | steps + 1, '\\' :: cs =>
    (escape? cs).bind fun (c, rest) =>
      (basicTail? steps rest).map fun (text, rest) => (c :: text, rest)
  | steps + 1, c :: cs =>
    if isPlain c then (basicTail? steps cs).map fun (text, rest) => (c :: text, rest) else none

def literalTail? : List Char → Option (List Char × List Char)
  | [] => none
  | c :: cs =>
    if c = '\x27' then some ([], cs)
    else if isPlain c then (literalTail? cs).map fun (text, rest) => (c :: text, rest)
    else none

/-- Behind three quotes that may close a text, up to two more belong to the text. -/
def closing (quote : Char) : List Char → List Char × List Char
  | a :: b :: cs =>
    if a = quote then if b = quote then ([quote, quote], cs) else ([quote], b :: cs)
    else ([], a :: b :: cs)
  | [a] => if a = quote then ([quote], []) else ([], [a])
  | [] => ([], [])

def startsWithThree (quote : Char) (cs : List Char) : Bool :=
  cs.take 3 == [quote, quote, quote]

def skipSpace : List Char → List Char
  | [] => []
  | '\r' :: '\n' :: cs => skipSpace cs
  | c :: cs => if isBlank c || c == '\n' then skipSpace cs else c :: cs

/-- The text behind a backslash at the end of a line: all blanks and line ends are skipped. -/
def continuation? (cs : List Char) : Option (List Char) :=
  (lineEnd? (skipBlanks cs)).map skipSpace

/-- A string over several lines behind its opening quotes. -/
def longBasicTail? : Nat → List Char → Option (List Char × List Char)
  | 0, _ => none
  | steps + 1, cs =>
    if startsWithThree '"' cs then some (closing '"' (cs.drop 3))
    else
      match cs with
      | [] => none
      | '\\' :: rest =>
        match continuation? rest with
        | some rest => longBasicTail? steps rest
        | none =>
          (escape? rest).bind fun (c, rest) =>
            (longBasicTail? steps rest).map fun (text, rest) => (c :: text, rest)
      | c :: rest =>
        match lineEnd? (c :: rest) with
        | some rest => (longBasicTail? steps rest).map fun (text, rest) => ('\n' :: text, rest)
        | none =>
          if isPlain c then (longBasicTail? steps rest).map fun (text, rest) => (c :: text, rest)
          else none

def longLiteralTail? : Nat → List Char → Option (List Char × List Char)
  | 0, _ => none
  | steps + 1, cs =>
    if startsWithThree '\x27' cs then some (closing '\x27' (cs.drop 3))
    else
      match lineEnd? cs with
      | some rest => (longLiteralTail? steps rest).map fun (text, rest) => ('\n' :: text, rest)
      | none =>
        match cs with
        | [] => none
        | c :: rest =>
          if isPlain c then (longLiteralTail? steps rest).map fun (text, rest) => (c :: text, rest)
          else none

/-- A line end directly behind the opening quotes is not part of the text. -/
def skipLineEnd (cs : List Char) : List Char := (lineEnd? cs).getD cs

def string? (cs : List Char) : Option (List Char × List Char) :=
  match cs with
  | '"' :: rest =>
    if startsWithThree '"' cs then longBasicTail? cs.length (skipLineEnd (cs.drop 3))
    else basicTail? cs.length rest
  | '\x27' :: rest =>
    if startsWithThree '\x27' cs then longLiteralTail? cs.length (skipLineEnd (cs.drop 3))
    else literalTail? rest
  | _ => none

def isBareKeyChar (c : Char) : Bool := c.isAlphanum || c == '_' || c == '-'

/-- One part of a key: bare, or a string on one line. -/
def simpleKey? (cs : List Char) : Option (String × List Char) :=
  match cs with
  | '"' :: rest => (basicTail? cs.length rest).map fun (text, rest) => (String.ofList text, rest)
  | '\x27' :: rest => (literalTail? rest).map fun (text, rest) => (String.ofList text, rest)
  | _ =>
    let bare := cs.takeWhile isBareKeyChar
    if bare.isEmpty then none else some (String.ofList bare, cs.dropWhile isBareKeyChar)

/-- A dotted key and the text behind it and the blanks around it. -/
def key? : Nat → List Char → Option (List String × List Char)
  | 0, _ => none
  | steps + 1, cs =>
    (simpleKey? (skipBlanks cs)).bind fun (part, rest) =>
      match skipBlanks rest with
      | '.' :: rest => (key? steps rest).map fun (path, rest) => (part :: path, rest)
      | rest => some ([part], rest)

/-- Digits with single underscores between them. -/
def digits? (isDigit : Char → Bool) : List Char → Option (List Char × List Char)
  | [] => none
  | c :: cs =>
    if isDigit c then
      match cs with
      | '_' :: rest => (digits? isDigit rest).map fun (ds, rest) => (c :: ds, rest)
      | d :: rest =>
        if isDigit d then (digits? isDigit (d :: rest)).map fun (ds, rest) => (c :: ds, rest)
        else some ([c], d :: rest)
      | [] => some ([c], [])
    else none

def digitsValue (base : Nat) (ds : List Char) : Nat :=
  ds.foldl (fun n d => base * n + (hexValue? d).getD 0) 0

def based? (base : Nat) (isDigit : Char → Bool) (cs : List Char) : Option (Int × List Char) :=
  (digits? isDigit cs).map fun (ds, rest) => (digitsValue base ds, rest)

/-- Decimal digits without a leading zero. -/
def decimal? (cs : List Char) : Option (Nat × List Char) :=
  (digits? Char.isDigit cs).bind fun (ds, rest) =>
    if 1 < ds.length && ds.head? == some '0' then none else some (digitsValue 10 ds, rest)

def integer? (cs : List Char) : Option (Int × List Char) :=
  match cs with
  | '0' :: 'x' :: rest => based? 16 (fun c => (hexValue? c).isSome) rest
  | '0' :: 'o' :: rest => based? 8 (fun c => '0' ≤ c && c ≤ '7') rest
  | '0' :: 'b' :: rest => based? 2 (fun c => c == '0' || c == '1') rest
  | '+' :: rest => (decimal? rest).map fun (n, rest) => (n, rest)
  | '-' :: rest => (decimal? rest).map fun (n, rest) => (-(n : Int), rest)
  | _ => (decimal? cs).map fun (n, rest) => (n, rest)

def scalar? (cs : List Char) : Option (Node × List Char) :=
  match string? cs with
  | some (text, rest) => some (.string (String.ofList text), rest)
  | none =>
    match Text.dropLeading? "true".toList cs, Text.dropLeading? "false".toList cs with
    | some rest, _ => some (.boolean true, rest)
    | _, some rest => some (.boolean false, rest)
    | none, none => (integer? cs).map fun (n, rest) => (.integer n, rest)

mutual

def node? : Nat → List Char → Option (Node × List Char)
  | 0, _ => none
  | steps + 1, cs =>
    match cs with
    | '[' :: rest => (items? steps rest).map fun (items, rest) => (.array items, rest)
    | '{' :: rest =>
      match skipBlanks rest with
      | '}' :: rest => some (.table .inline [], rest)
      | rest => (fields? steps rest []).map fun (entries, rest) => (.table .inline entries, rest)
    | _ => scalar? cs

/-- The items of an array up to its closing bracket. -/
def items? : Nat → List Char → Option (List Node × List Char)
  | 0, _ => none
  | steps + 1, cs =>
    match skipLines cs.length cs with
    | ']' :: rest => some ([], rest)
    | cs =>
      (node? steps cs).bind fun (node, rest) =>
        match skipLines rest.length rest with
        | ',' :: rest => (items? steps rest).map fun (items, rest) => (node :: items, rest)
        | ']' :: rest => some ([node], rest)
        | _ => none

/-- The fields of an inline table up to its closing brace. -/
def fields? : Nat → List Char → Entries → Option (Entries × List Char)
  | 0, _, _ => none
  | steps + 1, cs, entries =>
    (definition? steps cs).bind fun (path, node, rest) =>
      (define path node entries).bind fun entries =>
        match skipBlanks rest with
        | ',' :: rest => fields? steps rest entries
        | '}' :: rest => some (entries, rest)
        | _ => none

/-- A key, an equals sign and a value. -/
def definition? : Nat → List Char → Option (List String × Node × List Char)
  | 0, _ => none
  | steps + 1, cs =>
    (key? cs.length cs).bind fun (path, rest) =>
      match rest with
      | '=' :: rest => (node? steps (skipBlanks rest)).map fun (node, rest) => (path, node, rest)
      | _ => none

end

/-- A statement and the text behind it on its line. -/
def statement? (cs : List Char) : Option (Statement × List Char) :=
  match cs with
  | '[' :: rest =>
    (key? rest.length rest).bind fun (path, rest) =>
      match rest with
      | ']' :: rest => some (.header path, rest)
      | _ => none
  | _ =>
    (definition? (4 * cs.length + 4) cs).map fun (path, node, rest) => (.define path node, rest)

/-- The statements of a document, at most `steps` of them. -/
def statements? : Nat → List Char → Option (List Statement)
  | 0, _ => none
  | steps + 1, cs =>
    match skipLines cs.length cs with
    | [] => some []
    | cs =>
      (statement? cs).bind fun (statement, rest) =>
        match skipComment (skipBlanks rest) with
        | [] => some [statement]
        | rest => (lineEnd? rest).bind fun rest =>
          (statements? steps rest).map fun more => statement :: more

/-- The table a document writes. -/
def read? (document : String) : Option Entries :=
  let cs := match document.toList with
    | '\ufeff' :: cs => cs
    | cs => cs
  (statements? (cs.length + 1) cs).bind fun statements => build [] statements []

end Docblock.Toml
