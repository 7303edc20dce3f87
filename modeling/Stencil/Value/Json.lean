import Stencil.Value.Basic
import Stencil.Binary64.Shortest
import Stencil.Text.Hex

/-!
# Compact JSON

The text of a value without any white space.  Control characters, quotes and
backslashes are escaped and nothing else is.
-/

namespace Stencil

/--
Floats with a first digit between `10 ^ -5` and `10 ^ 15` are positional and
have a fraction; all others have a power of ten with a sign.
-/
def jsonNumbers : Binary64.NumberStyle :=
  { positionalFrom := -5
    scientificFrom := 16
    wholeEnd := ['.', '0']
    positiveSign := ['+'] }

def Number.json : Number → Text
  | .int n => Text.ofInt n
  | .float x => Binary64.write jsonNumbers x

namespace Json

def escapeChar (c : Char) : Text :=
  if c = '"' then ['\\', '"']
  else if c = '\\' then ['\\', '\\']
  else if c = '\x08' then ['\\', 'b']
  else if c = '\x0c' then ['\\', 'f']
  else if c = '\n' then ['\\', 'n']
  else if c = '\r' then ['\\', 'r']
  else if c = '\t' then ['\\', 't']
  else if c.toNat < 0x20 then
    ['\\', 'u', '0', '0', Hex.digit (c.toNat / 16), Hex.digit (c.toNat % 16)]
  else [c]

def string (t : Text) : Text := '"' :: t.flatMap escapeChar ++ ['"']

end Json

namespace Value

mutual

def json : Value → Text
  | .null => ['n', 'u', 'l', 'l']
  | .bool true => ['t', 'r', 'u', 'e']
  | .bool false => ['f', 'a', 'l', 's', 'e']
  | .number n => n.json
  | .string t => Json.string t
  | .array items => '[' :: jsonItems items ++ [']']
  | .object fields => '\x7b' :: jsonFields fields ++ ['\x7d']

def jsonItems : List Value → Text
  | [] => []
  | [item] => json item
  | item :: items => json item ++ ',' :: jsonItems items

def jsonFields : List (Text × Value) → Text
  | [] => []
  | [(name, value)] => Json.string name ++ ':' :: json value
  | (name, value) :: fields =>
    Json.string name ++ ':' :: json value ++ ',' :: jsonFields fields

end

end Value

end Stencil
