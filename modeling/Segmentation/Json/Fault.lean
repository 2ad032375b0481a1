import Segmentation.Json.Writer
import Segmentation.Text.Quoted

/-!
Why a text is refused as JSON, and where. While reading, a fault only knows how many bytes of the
text were left when it was noticed; its line and column follow from the whole text. Columns count
the bytes since the last line feed.
-/

set_option autoImplicit false

namespace Segmentation.Json

/-- What stood where something else was wanted. -/
inductive Found where
  | null
  | boolean (b : Bool)
  | integer (n : Int)
  | double (x : Binary64)
  | text (s : String)
  | list
  | object

def Found.describe : Found → String
  | .null => "null"
  | .boolean b => "boolean `" ++ (if b then "true" else "false") ++ "`"
  | .integer n => "integer `" ++ toString n ++ "`"
  | .double x => "floating point `" ++ String.ofList (writeDouble x) ++ "`"
  | .text s => "string " ++ Text.quoted s
  | .list => "sequence"
  | .object => "map"

/-- The reasons for which a text is refused. -/
inductive Cause where
  | endInValue
  | endInList
  | endInObject
  | endInString
  | expectedValue
  | expectedWord
  | expectedColon
  | expectedListComma
  | expectedObjectComma
  | trailingComma
  | keyNotString
  | trailingText
  | invalidNumber
  | numberOutOfRange
  | controlCharacter
  | invalidEscape
  | loneSurrogate
  | unpairedSurrogate
  | tooDeep
  | wrongType (found : Found) (wanted : String)
  | wrongValue (found : Found) (wanted : String)
  | duplicateField (name : String)
  | missingField (name : String)
  | wrongLength (length : Nat) (wanted : String)
  | unfitOperand

/-- The wording of a cause. -/
def Cause.message : Cause → String
  | .endInValue => "EOF while parsing a value"
  | .endInList => "EOF while parsing a list"
  | .endInObject => "EOF while parsing an object"
  | .endInString => "EOF while parsing a string"
  | .expectedValue => "expected value"
  | .expectedWord => "expected ident"
  | .expectedColon => "expected `:`"
  | .expectedListComma => "expected `,` or `]`"
  | .expectedObjectComma => "expected `,` or `\x7d`"
  | .trailingComma => "trailing comma"
  | .keyNotString => "key must be a string"
  | .trailingText => "trailing characters"
  | .invalidNumber => "invalid number"
  | .numberOutOfRange => "number out of range"
  | .controlCharacter => "control character (\\u0000-\\u001F) found while parsing a string"
  | .invalidEscape => "invalid escape"
  | .loneSurrogate => "lone leading surrogate in hex escape"
  | .unpairedSurrogate => "unexpected end of hex escape"
  | .tooDeep => "recursion limit exceeded"
  | .wrongType found wanted => "invalid type: " ++ found.describe ++ ", expected " ++ wanted
  | .wrongValue found wanted => "invalid value: " ++ found.describe ++ ", expected " ++ wanted
  | .duplicateField name => "duplicate field `" ++ name ++ "`"
  | .missingField name => "missing field `" ++ name ++ "`"
  | .wrongLength length wanted =>
    "invalid length " ++ toString length ++ ", expected " ++ wanted
  | .unfitOperand => "data did not match any variant of untagged enum RawPropertyValue"

/-- A cause, and the number of bytes left when it was noticed. -/
structure Fault where
  cause : Cause
  left : Nat

/-- The length of a text in bytes. -/
def byteCount (text : List Char) : Nat :=
  text.foldr (fun c bytes ↦ c.utf8Size + bytes) 0

/-- A fault noticed with a rest still unread. -/
def Fault.before (cause : Cause) (rest : List Char) : Fault := ⟨cause, byteCount rest⟩

/-- A fault noticed on the first byte of a rest, or at the end of the text if there is none. -/
def Fault.upon (cause : Cause) (rest : List Char) : Fault := ⟨cause, byteCount rest - 1⟩

/-- A fault noticed at the end of the text. -/
def Fault.atEnd (cause : Cause) : Fault := ⟨cause, 0⟩

/-- A refusal with its place in the text. -/
structure ReadError where
  cause : Cause
  line : Nat
  column : Nat

def ReadError.message (error : ReadError) : String :=
  error.cause.message ++ " at line " ++ toString error.line ++ " column " ++ toString error.column

/-- The line and column reached after some bytes of a text, counted on from a given place. -/
def placeAfter (line column : Nat) : Nat → List Char → Nat × Nat
  | _, [] => (line, column)
  | bytes, c :: rest =>
    if bytes = 0 then (line, column)
    else if bytes < c.utf8Size then (line, column + bytes)
    else if c = '\n' then placeAfter (line + 1) 0 (bytes - 1) rest
    else placeAfter line (column + c.utf8Size) (bytes - c.utf8Size) rest

/-- A fault placed in the text in which it was noticed. -/
def Fault.locate (text : List Char) (fault : Fault) : ReadError :=
  let place := placeAfter 1 0 (byteCount text - fault.left) text
  ⟨fault.cause, place.1, place.2⟩

end Segmentation.Json
