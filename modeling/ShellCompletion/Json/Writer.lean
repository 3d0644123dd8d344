import ShellCompletion.Json.Basic

/-! Writing of JSON texts, without any spaces: the compact form of `serde_json`. -/

namespace ShellCompletion.Json

/-- A character inside a string. Quotes, backslashes and control characters are escaped. -/
def stringChar (c : Char) : Text :=
  match c with
  | '"' => ['\\', '"']
  | '\\' => ['\\', '\\']
  | '\x08' => ['\\', 'b']
  | '\x0c' => ['\\', 'f']
  | '\n' => ['\\', 'n']
  | '\r' => ['\\', 'r']
  | '\t' => ['\\', 't']
  | c => if c.toNat < 0x20 then "\\u00".toList ++ (if c.toNat < 0x10 then ['0'] else []) ++ Text.hexadecimal c.toNat
    else [c]

def quoted (t : Text) : Text := ['"'] ++ t.flatMap stringChar ++ ['"']

mutual

/-- The text of a value. -/
def text : Json → Text
  | null | flawed => "null".toList
  | bool true => "true".toList
  | bool false => "false".toList
  | number n => n.text
  | string t => quoted t
  | array items => ['['] ++ itemTexts items ++ [']']
  | object fields => ['\x7b'] ++ fieldTexts fields ++ ['\x7d']

def itemTexts : List Json → Text
  | [] => []
  | [j] => text j
  | j :: k :: js => text j ++ [','] ++ itemTexts (k :: js)

def fieldTexts : List (Text × Json) → Text
  | [] => []
  | [(key, j)] => quoted key ++ [':'] ++ text j
  | (key, j) :: f :: fields => quoted key ++ [':'] ++ text j ++ [','] ++ fieldTexts (f :: fields)

end

end ShellCompletion.Json
