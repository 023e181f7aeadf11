import SymbolCatalog.Text.Printable

/-! Values and texts as they are shown in messages and inspection. A character that would not show,
or would attach itself to the one before it, is written as its code point in hexadecimal. -/
namespace SymbolCatalog.Text

def hexDigits (n : Nat) : String := String.ofList (Nat.toDigits 16 n)

def hexByte (b : UInt8) : String := "0x" ++ (if b < 16 then "0" else "") ++ hexDigits b.toNat

def escape (c : Char) : String :=
  match c with
  | '\x00' => "\\0"
  | '\t' => "\\t"
  | '\r' => "\\r"
  | '\n' => "\\n"
  | '"' => "\\\""
  | '\\' => "\\\\"
  | _ =>
    if extendsGrapheme c || !isPrintable c then "\\u\x7b" ++ hexDigits c.toNat ++ "\x7d"
    else c.toString

def quoted (text : String) : String :=
  "\"" ++ String.join (text.toList.map escape) ++ "\""

end SymbolCatalog.Text

namespace SymbolCatalog.Text.Inspect

def field (entry : String × String) : String := entry.1 ++ ": " ++ entry.2

def record (name : String) (fields : List (String × String)) : String :=
  name ++ " \x7b " ++ ", ".intercalate (fields.map field) ++ " \x7d"

def partialRecord (name : String) (fields : List (String × String)) : String :=
  name ++ " \x7b " ++ ", ".intercalate (fields.map field) ++ ", .. \x7d"

def recordLines (name : String) (fields : List (String × String)) : String :=
  name ++ " \x7b\n" ++ String.join (fields.map fun f => "    " ++ field f ++ ",\n") ++ "\x7d"

def wrapped (name value : String) : String := name ++ "(" ++ value ++ ")"

def optional : Option String → String
  | none => "None"
  | some value => wrapped "Some" value

def sequence (items : List String) : String := "[" ++ ", ".intercalate items ++ "]"

def truth (b : Bool) : String := if b then "true" else "false"

end SymbolCatalog.Text.Inspect
