import HebrewCorpus.Json.Basic

/-! # Writing JSON texts

* **`Json.render`**: a value as a JSON text, with a space after every comma and colon. Characters
  beyond ASCII stand for themselves; only quotes, backslashes and control characters are escaped. -/

namespace HebrewCorpus.Json

/-- A hexadecimal digit. -/
def hexDigit (n : Nat) : Char := Nat.digitChar n

/-- A character inside a quoted text. -/
def escapeChar (c : Char) : Text :=
  match c with
  | '"' => ['\\', '"']
  | '\\' => ['\\', '\\']
  | '\n' => ['\\', 'n']
  | '\r' => ['\\', 'r']
  | '\t' => ['\\', 't']
  | '\x08' => ['\\', 'b']
  | '\x0c' => ['\\', 'f']
  | c =>
    if c.toNat < 0x20 then "\\u00".toList ++ [hexDigit (c.toNat / 16), hexDigit (c.toNat % 16)]
    else [c]

/-- A text in quotes. -/
def quoted (s : Text) : Text := '"' :: s.flatMap escapeChar ++ ['"']

mutual

/-- **A value as a JSON text.** -/
def render : Json → Text
  | .null => "null".toList
  | .bool true => "true".toList
  | .bool false => "false".toList
  | .int n => decimal n
  | .real .nan => "NaN".toList
  | .real (.infinite false) => "Infinity".toList
  | .real (.infinite true) => "-Infinity".toList
  | .real x => x.text
  | .text s => quoted s
  | .array items => '[' :: Text.joinWith ", ".toList (renderItems items) ++ [']']
  | .object members => '\x7b' :: Text.joinWith ", ".toList (renderMembers members) ++ ['\x7d']

/-- The items of an array as JSON texts. -/
def renderItems : List Json → List Text
  | [] => []
  | item :: items => render item :: renderItems items

/-- The members of an object as JSON texts. -/
def renderMembers : List (Text × Json) → List Text
  | [] => []
  | (key, value) :: members => (quoted key ++ ": ".toList ++ render value) :: renderMembers members

end

end HebrewCorpus.Json
