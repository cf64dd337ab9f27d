import CondLang.Json.Double

/-!
# JSON values

State documents and reports are JSON.  The members of an object are kept in the order of their keys,
each key once; `insertMember` puts one in its place.  A number is a whole number or a double.
-/

namespace CondLang

/-- A JSON number. -/
inductive JsonNumber where
  | integer (value : Int)
  | double (value : Double)
  deriving DecidableEq, Repr, Inhabited

/-- A number as text. -/
def JsonNumber.toText : JsonNumber → String
  | integer value => toString value
  | double value => value.toText

/-- A JSON value. -/
inductive Json where
  | null
  | bool (value : Bool)
  | number (value : JsonNumber)
  | string (value : String)
  | array (values : List Json)
  | object (members : List (String × Json))
  deriving Repr, Inhabited

namespace Json

/-- Members in the order of their keys with one more, which takes the place of one of its key. -/
def insertMember (key : String) (value : Json) : List (String × Json) → List (String × Json)
  | [] => [(key, value)]
  | (first, old) :: rest =>
      if key < first then (key, value) :: (first, old) :: rest
      else if key = first then (key, value) :: rest
      else (first, old) :: insertMember key value rest

/-- An object with members given in any order; of two with one key, the last one counts. -/
def ofMembers (members : List (String × Json)) : Json :=
  object (members.foldl (fun sorted (key, value) => insertMember key value sorted) [])

/-- The value of a member. -/
def member? (members : List (String × Json)) (key : String) : Option Json :=
  (members.find? (·.1 == key)).map (·.2)

/-- A whole number. -/
def ofNat (n : Nat) : Json := number (.integer n)

/-- A string, or `null` if there is none. -/
def ofText? : Option String → Json
  | some text => string text
  | none => null

/-- An array of strings. -/
def ofTexts (texts : List String) : Json := array (texts.map string)

/-! ## Writing -/

/-- A hexadecimal digit. -/
def hexDigit (n : Nat) : Char := Nat.digitChar n

/-- A character as it stands in a JSON string. -/
def escapeChar (c : Char) : List Char :=
  if c = '"' then ['\\', '"']
  else if c = '\\' then ['\\', '\\']
  else if c = '\x08' then ['\\', 'b']
  else if c = '\x0c' then ['\\', 'f']
  else if c = '\n' then ['\\', 'n']
  else if c = '\r' then ['\\', 'r']
  else if c = '\t' then ['\\', 't']
  else if c.toNat < 0x20 then
    ['\\', 'u', '0', '0', hexDigit (c.toNat / 16), hexDigit (c.toNat % 16)]
  else [c]

/-- A text as a JSON string. -/
def quote (text : String) : String :=
  .ofList ('"' :: text.toList.flatMap escapeChar ++ ['"'])

/-- How the parts of an array or an object are set apart: what stands before each part and before
the closing bracket at a depth, and between a key and its value. -/
structure Layout where
  line : Nat → String
  colon : String

/-- No blanks at all. -/
def compact : Layout := ⟨fun _ => "", ":"⟩

/-- One part to a line, two spaces deeper than the brackets around it. -/
def pretty : Layout := ⟨fun depth => .ofList ('\n' :: List.replicate (2 * depth) ' '), ": "⟩

/-- Parts between brackets; no parts leave nothing between them. -/
def enclose (layout : Layout) (depth : Nat) (opening closing : String) (parts : List String) :
    String :=
  if parts.isEmpty then opening ++ closing
  else
    let inner := parts.map fun part => layout.line (depth + 1) ++ part
    opening ++ ",".intercalate inner ++ layout.line depth ++ closing

mutual

/-- A value as text, inside `depth` brackets. -/
def write (layout : Layout) (depth : Nat) : Json → String
  | null => "null"
  | bool value => if value then "true" else "false"
  | number value => value.toText
  | string value => quote value
  | array values => enclose layout depth "[" "]" (writeValues layout (depth + 1) values)
  | object members => enclose layout depth "\x7b" "\x7d" (writeMembers layout (depth + 1) members)

/-- The values of an array as texts. -/
def writeValues (layout : Layout) (depth : Nat) : List Json → List String
  | [] => []
  | value :: rest => write layout depth value :: writeValues layout depth rest

/-- The members of an object as texts. -/
def writeMembers (layout : Layout) (depth : Nat) : List (String × Json) → List String
  | [] => []
  | (key, value) :: rest =>
      (quote key ++ layout.colon ++ write layout depth value) :: writeMembers layout depth rest

end

/-- A value as text without blanks, or one part to a line. -/
def toText (value : Json) (prettily : Bool) : String :=
  write (if prettily then pretty else compact) 0 value

end Json

end CondLang
