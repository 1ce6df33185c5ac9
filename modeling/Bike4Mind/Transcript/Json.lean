/-! The texts `JSON.parse` accepts. -/

namespace Json

def isSpace (c : Char) : Bool := c = ' ' || c = '\t' || c = '\n' || c = '\r'

def skipSpace (text : List Char) : List Char := text.dropWhile isSpace

def isHex (c : Char) : Bool := c.isDigit || ('a' ≤ c && c ≤ 'f') || ('A' ≤ c && c ≤ 'F')

/-- The rest of a string after its opening quote. -/
def skipString : List Char → Option (List Char)
  | '"' :: rest => some rest
  | '\\' :: 'u' :: a :: b :: c :: d :: rest => if isHex a && isHex b && isHex c && isHex d then skipString rest else none
  | '\\' :: c :: rest => if c ∈ ['"', '\\', '/', 'b', 'f', 'n', 'r', 't'] then skipString rest else none
  | c :: rest => if c.toNat < 0x20 || c = '\\' then none else skipString rest
  | [] => none

/-- One digit or more. -/
def skipDigits : List Char → Option (List Char)
  | c :: rest => if c.isDigit then some (rest.dropWhile Char.isDigit) else none
  | [] => none

def skipInteger : List Char → Option (List Char)
  | '0' :: rest => some rest
  | text => skipDigits text

def skipFraction : List Char → Option (List Char)
  | '.' :: rest => skipDigits rest
  | text => some text

def skipExponent : List Char → Option (List Char)
  | e :: sign :: rest =>
    if e = 'e' || e = 'E' then (if sign = '+' || sign = '-' then skipDigits rest else skipDigits (sign :: rest))
    else some (e :: sign :: rest)
  | [e] => if e = 'e' || e = 'E' then none else some [e]
  | [] => some []

def skipNumber : List Char → Option (List Char)
  | '-' :: rest => (skipInteger rest).bind skipFraction |>.bind skipExponent
  | text => (skipInteger text).bind skipFraction |>.bind skipExponent

mutual

/-- The rest of the text after a value, with fuel for every character it may hold. -/
def skipValue : Nat → List Char → Option (List Char)
  | 0, _ => none
  | fuel + 1, text =>
    match text with
    | '{' :: rest => skipObject fuel rest
    | '[' :: rest =>
      match skipSpace rest with
      | ']' :: rest => some rest
      | rest => skipElements fuel rest
    | '"' :: rest => skipString rest
    | 't' :: 'r' :: 'u' :: 'e' :: rest => some rest
    | 'f' :: 'a' :: 'l' :: 's' :: 'e' :: rest => some rest
    | 'n' :: 'u' :: 'l' :: 'l' :: rest => some rest
    | text => skipNumber text

/-- The rest of an object after its opening brace. -/
def skipObject : Nat → List Char → Option (List Char)
  | 0, _ => none
  | fuel + 1, text =>
    match skipSpace text with
    | '}' :: rest => some rest
    | rest => skipMembers fuel rest

def skipMembers : Nat → List Char → Option (List Char)
  | 0, _ => none
  | fuel + 1, text =>
    match skipSpace text with
    | '"' :: rest =>
      match (skipString rest).map skipSpace with
      | some (':' :: rest) =>
        match (skipValue fuel (skipSpace rest)).map skipSpace with
        | some (',' :: rest) => skipMembers fuel rest
        | some ('}' :: rest) => some rest
        | _ => none
      | _ => none
    | _ => none

def skipElements : Nat → List Char → Option (List Char)
  | 0, _ => none
  | fuel + 1, text =>
    match (skipValue fuel (skipSpace text)).map skipSpace with
    | some (',' :: rest) => skipElements fuel rest
    | some (']' :: rest) => some rest
    | _ => none

end

/-- The text is one JSON value, and that value is an object. -/
def isObjectText (text : String) : Bool :=
  match skipSpace text.toList with
  | '{' :: rest => (skipObject (2 * rest.length + 2) rest).map skipSpace = some []
  | _ => false

example : isObjectText " \x7b\"a\": [1, -2.5e3, \"x\\n\"], \"b\": \x7b\x7d\x7d " = true := by decide +kernel

example : isObjectText "\x7b\"path\": " = false := by decide +kernel

end Json
