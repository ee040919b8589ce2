import GridRelief.Toml.Document
import GridRelief.Toml.Scalar

/-!
# Reading TOML documents

A reader of the TOML 1.0 grammar. The document is read as a JSON value, dates being objects with
one field; integers and floats stay apart.

## Main definitions

* `Toml.ofString?`: the document of a text, `none` if the text is not well formed.
-/

namespace GridRelief.Toml

/-! ### Blanks and comments -/

/-- A text without the blanks in front. -/
def skipSpaces (text : List Char) : List Char := text.dropWhile fun c => c == ' ' || c == '\t'

/-- Whether a character may stand in comments and strings as it is. -/
def isPrintable (c : Char) : Bool := c == '\t' || (32 ≤ c.toNat && c.toNat != 127)

/-- The text behind an end of line. -/
def afterNewline? : List Char → Option (List Char)
  | '\n' :: rest => some rest
  | '\r' :: '\n' :: rest => some rest
  | _ => none

/-- The text behind a comment, if one starts here. -/
def skipComment : List Char → List Char
  | '#' :: rest => rest.dropWhile isPrintable
  | text => text

/-- The text behind the rest of a line that holds blanks and a comment at most. -/
def endLine? (text : List Char) : Option (List Char) :=
  match skipComment (skipSpaces text) with
  | [] => some []
  | rest => afterNewline? rest

/-- A text without the blanks, comments and ends of lines in front. -/
def skipLines : Nat → List Char → List Char
  | 0, text => text
  | steps + 1, text =>
    let rest := skipComment (skipSpaces text)
    match afterNewline? rest with
    | some rest => skipLines steps rest
    | none => rest

/-! ### Strings -/

/-- The number of so many hexadecimal digits in front of a text. -/
def hexadecimal? (width : Nat) (text : List Char) : Option (Nat × List Char) :=
  let digits := text.take width
  if digits.length = width ∧ digits.all fun c => (Json.hexDigit? c).isSome then
    some (ofBase 16 digits, text.drop width)
  else none

/-- The character of a code point, which is no surrogate. -/
def ofCodePoint? (code : Nat) : Option Char :=
  if code < 0xD800 ∨ (0xE000 ≤ code ∧ code < 0x110000) then some (Char.ofNat code) else none

/-- The character of an escape behind its backslash, and the text behind it. -/
def escape? : List Char → Option (Char × List Char)
  | 'b' :: rest => some (Char.ofNat 8, rest)
  | 't' :: rest => some ('\t', rest)
  | 'n' :: rest => some ('\n', rest)
  | 'f' :: rest => some (Char.ofNat 12, rest)
  | 'r' :: rest => some ('\r', rest)
  | '"' :: rest => some ('"', rest)
  | '\\' :: rest => some ('\\', rest)
  | 'u' :: rest => do
    let (code, rest) ← hexadecimal? 4 rest
    return (← ofCodePoint? code, rest)
  | 'U' :: rest => do
    let (code, rest) ← hexadecimal? 8 rest
    return (← ofCodePoint? code, rest)
  | _ => none

/-- The rest of a string on one line, up to its closing quote. -/
def readLine? (quote : Char) : Nat → List Char → List Char → Option (String × List Char)
  | 0, _, _ => none
  | steps + 1, read, text =>
    match text with
    | [] => none
    | c :: rest =>
      if c = quote then some (String.ofList read.reverse, rest)
      else if c = '\\' ∧ quote = '"' then do
        let (c, rest) ← escape? rest
        readLine? quote steps (c :: read) rest
      else if isPrintable c then readLine? quote steps (c :: read) rest
      else none

/-- Up to two further quotes in front of a text, and the text behind them. -/
def furtherQuotes (quote : Char) (text : List Char) : List Char × List Char :=
  let quotes := (text.takeWhile (· == quote)).take 2
  (quotes, text.drop quotes.length)

/-- The rest of a string over several lines, up to its three closing quotes, of which up to two
further ones before them belong to the string. -/
def readLines? (quote : Char) : Nat → List Char → List Char → Option (String × List Char)
  | 0, _, _ => none
  | steps + 1, read, text =>
    if text.take 3 = [quote, quote, quote] then
      let (quotes, rest) := furtherQuotes quote (text.drop 3)
      some (String.ofList (read.reverse ++ quotes), rest)
    else
      match afterNewline? text with
      | some rest => readLines? quote steps ('\n' :: read) rest
      | none =>
        match text with
        | [] => none
        | c :: rest =>
          if c = '\\' ∧ quote = '"' then
            match afterNewline? (skipSpaces rest) with
            | some rest =>
              readLines? quote steps read
                (rest.dropWhile fun c => c == ' ' || c == '\t' || c == '\n' || c == '\r')
            | none => do
              let (c, rest) ← escape? rest
              readLines? quote steps (c :: read) rest
          else if isPrintable c then readLines? quote steps (c :: read) rest
          else none

/-- The rest of a string behind its first quote. -/
def readString? (quote : Char) (text : List Char) : Option (String × List Char) :=
  if text.take 2 = [quote, quote] then
    let body := text.drop 2
    readLines? quote (body.length + 1) [] ((afterNewline? body).getD body)
  else readLine? quote (text.length + 1) [] text

/-! ### Keys -/

/-- Whether a character may stand in a key without quotes. -/
def isBare (c : Char) : Bool := c.isAlphanum || c == '_' || c == '-'

/-- A part of a key in front of a text. -/
def keyPart? (text : List Char) : Option (String × List Char) :=
  match text with
  | '"' :: rest => readLine? '"' (rest.length + 1) [] rest
  | '\'' :: rest => readLine? '\'' (rest.length + 1) [] rest
  | text =>
    match text.span isBare with
    | ([], _) => none
    | (bare, rest) => some (String.ofList bare, rest)

/-- A key in front of a text: parts with points between them. -/
def key? : Nat → List Char → Option (List String × List Char)
  | 0, _ => none
  | steps + 1, text => do
    let (part, rest) ← keyPart? (skipSpaces text)
    match skipSpaces rest with
    | '.' :: rest =>
      let (parts, rest) ← key? steps rest
      return (part :: parts, rest)
    | rest => return ([part], rest)

/-! ### Values -/

/-- Whether a character ends a token. -/
def endsToken (c : Char) : Bool :=
  c == ' ' || c == '\t' || c == '\n' || c == '\r' || c == ',' || c == ']' || c == '\x7d' || c == '#'

/-- A plain value in front of a text; a date and a time of day may have one blank between. -/
def token? (text : List Char) : Option (Json Float × List Char) := do
  let (token, rest) := cutAt endsToken text
  match afterDate? token, rest with
  | some [], ' ' :: next =>
    let (time, after) := cutAt endsToken next
    if (afterTime? time).isSome then return (← ofToken? (token ++ ' ' :: time), after)
    else return (← ofToken? token, rest)
  | _, _ => return (← ofToken? token, rest)

/-- Values may be nested to less than this depth. -/
def depthLimit : Nat := 80

mutual

/-- A value in front of a text. -/
def value? : Nat → Nat → List Char → Option (Json Float × List Char)
  | 0, _, _ => none
  | steps + 1, depth, text =>
    match text with
    | '"' :: rest => do
      let (s, rest) ← readString? '"' rest
      return (.str s, rest)
    | '\'' :: rest => do
      let (s, rest) ← readString? '\'' rest
      return (.str s, rest)
    | '[' :: rest =>
      if depth ≤ 1 then none
      else do
        let (items, rest) ← items? steps (depth - 1) rest
        return (.arr items, rest)
    | '\x7b' :: rest =>
      if depth ≤ 1 then none
      else
        match skipSpaces rest with
        | '\x7d' :: rest => some (.obj [], rest)
        | rest => do
          let (entries, rest) ← entries? steps (depth - 1) [] rest
          return (toJson entries, rest)
    | text => token? text

/-- The items of an array up to its end; a comma may follow the last one. -/
def items? : Nat → Nat → List Char → Option (List (Json Float) × List Char)
  | 0, _, _ => none
  | steps + 1, depth, text =>
    match skipLines (text.length + 1) text with
    | ']' :: rest => some ([], rest)
    | text => do
      let (item, rest) ← value? steps depth text
      match skipLines (rest.length + 1) rest with
      | ',' :: rest =>
        let (items, rest) ← items? steps depth rest
        return (item :: items, rest)
      | ']' :: rest => return ([item], rest)
      | _ => none

/-- The entries of an inline table up to its end; it stays on one line. -/
def entries? : Nat → Nat → Entries → List Char → Option (Entries × List Char)
  | 0, _, _, _ => none
  | steps + 1, depth, entries, text => do
    let (key, rest) ← key? (text.length + 1) text
    match rest with
    | '=' :: rest =>
      let (value, rest) ← value? steps depth (skipSpaces rest)
      let entries ← insert? value key entries
      match skipSpaces rest with
      | ',' :: rest => entries? steps depth entries rest
      | '\x7d' :: rest => return (entries, rest)
      | _ => none
    | _ => none

end

/-! ### Documents -/

/-- A document under construction: its tables and the path of the open one. -/
structure Document where
  entries : Entries
  path : List String

/-- Read a header of one table or of an element of an array, behind its opening brackets. -/
def header? (document : Document) (text : List Char) : Option (Document × List Char) := do
  match text with
  | '[' :: rest =>
    let (path, rest) ← key? (rest.length + 1) rest
    match rest with
    | ']' :: ']' :: rest =>
      return (⟨← appendTable? path document.entries, path⟩, ← endLine? rest)
    | _ => none
  | rest =>
    let (path, rest) ← key? (rest.length + 1) rest
    match rest with
    | ']' :: rest => return (⟨← openTable? path document.entries, path⟩, ← endLine? rest)
    | _ => none

/-- Read a key and its value. -/
def entry? (document : Document) (text : List Char) : Option (Document × List Char) := do
  let (key, rest) ← key? (text.length + 1) text
  match rest with
  | '=' :: rest =>
    let rest := skipSpaces rest
    let (value, rest) ← value? (rest.length + 1) depthLimit rest
    let entries ← insertAt? value key document.path document.entries
    return ({ document with entries }, ← endLine? rest)
  | _ => none

/-- Read the lines of a document. Each step takes a line, so as many steps as there are
characters suffice. -/
def lines? : Nat → Document → List Char → Option Document
  | 0, _, _ => none
  | steps + 1, document, text =>
    match skipLines (text.length + 1) text with
    | [] => some document
    | '[' :: rest => do
      let (document, rest) ← header? document rest
      lines? steps document rest
    | rest => do
      let (document, rest) ← entry? document rest
      lines? steps document rest

/-- The document of a text; a mark of the byte order in front is passed over. -/
def ofString? (text : String) : Option (Json Float) :=
  let characters :=
    match text.toList with
    | '\uFEFF' :: rest => rest
    | characters => characters
  (lines? (characters.length + 1) ⟨[], []⟩ characters).map fun document =>
    toJson document.entries

end GridRelief.Toml
