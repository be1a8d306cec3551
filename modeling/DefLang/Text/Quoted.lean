import DefLang.Text.Unprintable

namespace DefLang.Text

def quoteChar (c : Char) : String :=
  match c with
  | '\x00' => "\\0"
  | '\t' => "\\t"
  | '\r' => "\\r"
  | '\n' => "\\n"
  | '"' => "\\\""
  | '\\' => "\\\\"
  | c =>
    if isUnprintable c then
      "\\u\x7b" ++ String.ofList (Nat.toDigits 16 c.toNat) ++ "\x7d"
    else
      c.toString

/-- A text between double quotes, on one line and with every character told apart. A single quote
needs no escape. -/
def quote (text : String) : String :=
  "\"" ++ String.join (text.toList.map quoteChar) ++ "\""

example : quote "it's \"a\\b\"\n\u00a0é" = "\"it's \\\"a\\\\b\\\"\\n\\u\x7ba0\x7dé\"" := by
  decide +kernel

end DefLang.Text
