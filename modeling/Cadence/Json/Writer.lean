import Cadence.Datum
import Cadence.Text.Half

/-!
# Writing JSON

`Datum.json` writes a value as JSON with a blank after each comma and colon. Strings are written in
the printable plain characters, all others being escaped, those beyond the basic plane as two units.
-/

namespace Cadence.Json

/-- A unit of 16 bits as an escape. -/
def unitEscape (n : Nat) : Text := '\\' :: 'u' :: Text.hex 4 n

/-- A character inside a string. Half a pair of units is one escape. -/
def writeChar (c : Char) : Text :=
  if c = '"' then ['\\', '"']
  else if c = '\\' then ['\\', '\\']
  else if c = '\n' then ['\\', 'n']
  else if c = '\r' then ['\\', 'r']
  else if c = '\t' then ['\\', 't']
  else if c.toNat = 8 then ['\\', 'b']
  else if c.toNat = 12 then ['\\', 'f']
  else if 32 ≤ c.toNat ∧ c.toNat < 127 then [c]
  else if c.toNat < 0x10000 then unitEscape c.toNat
  else
    match Text.half? c with
    | some half => unitEscape half
    | none =>
      let n := c.toNat - 0x10000
      unitEscape (0xD800 + n / 0x400) ++ unitEscape (0xDC00 + n % 0x400)

/-- A text as a string. -/
def writeString (s : Text) : Text := '"' :: s.flatMap writeChar ++ ['"']

end Cadence.Json

namespace Cadence.Datum

mutual
/-- A value as JSON; days and timestamps are written as strings. -/
def json : Datum → Text
  | null => "null"
  | bool b => if b then "true" else "false"
  | int n => Text.ofInt n
  | real x => x.text "NaN" "Infinity"
  | text s => Json.writeString s
  | list items => '[' :: Text.joinWith ", " (jsonItems items) ++ [']']
  | object members => '\x7b' :: Text.joinWith ", " (jsonMembers members) ++ ['\x7d']
  | day d => Json.writeString d.text
  | stamp s => Json.writeString s.text

/-- The items of a list as JSON. -/
def jsonItems : List Datum → List Text
  | [] => []
  | item :: rest => json item :: jsonItems rest

/-- The members of an object as JSON. -/
def jsonMembers : List (Text × Datum) → List Text
  | [] => []
  | (name, value) :: rest => (Json.writeString name ++ ": " ++ json value) :: jsonMembers rest
end

end Cadence.Datum
