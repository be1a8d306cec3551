import DefLang.Text.Quoted
import DefLang.Tree.Basic

namespace DefLang

inductive Outline where
  | word (text : String)
  | wrapped (name : String) (inner : Outline)
  | list (items : List Outline)
  | record (name : String) (fields : List (String × Outline))

namespace Outline

mutual

def writeLine (out : String) : Outline → String
  | word text => out ++ text
  | wrapped name inner => writeLine (out ++ name ++ "(") inner ++ ")"
  | list items => writeItems (out ++ "[") "" items ++ "]"
  | record name fields => writeFields (out ++ name ++ " \x7b ") "" fields ++ " \x7d"

def writeItems (out separator : String) : List Outline → String
  | [] => out
  | item :: items => writeItems (writeLine (out ++ separator) item) ", " items

def writeFields (out separator : String) : List (String × Outline) → String
  | [] => out
  | (name, value) :: fields =>
    writeFields (writeLine (out ++ separator ++ name ++ ": ") value) ", " fields

end

def indentation : String := "    "

mutual

def writeBlock (margin out : String) : Outline → String
  | word text => out ++ text
  | wrapped name inner =>
    let deeper := margin ++ indentation
    writeBlock deeper (out ++ name ++ "(\n" ++ deeper) inner ++ ",\n" ++ margin ++ ")"
  | list [] => out ++ "[]"
  | list (item :: items) =>
    writeRows (margin ++ indentation) (out ++ "[\n") (item :: items) ++ margin ++ "]"
  | record name fields =>
    writeEntries (margin ++ indentation) (out ++ name ++ " \x7b\n") fields ++ margin ++ "\x7d"

def writeRows (margin out : String) : List Outline → String
  | [] => out
  | item :: items => writeRows margin (writeBlock margin (out ++ margin) item ++ ",\n") items

def writeEntries (margin out : String) : List (String × Outline) → String
  | [] => out
  | (name, value) :: fields =>
    writeEntries margin (writeBlock margin (out ++ margin ++ name ++ ": ") value ++ ",\n") fields

end

def compact (outline : Outline) : String := outline.writeLine ""

def pretty (outline : Outline) : String := outline.writeBlock "" ""

def quoted (text : String) : Outline := word (Text.quote text)

end Outline

mutual

def TypeExpr.outline : TypeExpr → Outline
  | type@(.named name resolved) =>
    .record type.title [("name", .quoted name), ("resolved", resolvedOutline resolved)]
  | type@(.function argument result) =>
    .record type.title [("argument", argument.outline), ("result", result.outline)]
  | type@(.struct fields) => .record type.title [("fields", .list (fieldOutlines fields))]

def resolvedOutline : Option TypeExpr → Outline
  | some type => .wrapped "Some" type.outline
  | none => .word "None"

def fieldOutlines : List (Field TypeExpr) → List Outline
  | [] => []
  | ⟨name, type⟩ :: fields =>
    .record "StructField" [("name", .quoted name), ("field_type", type.outline)] ::
      fieldOutlines fields

end

mutual

def Node.outline : Node → Outline
  | node@(.root statements) => .record node.title [("statements", .list (outlines statements))]
  | node@(.atom name) => .record node.title [("name", .quoted name)]
  | node@(.integer text) | node@(.float text) | node@(.string text) =>
    .record node.title [("text", .quoted text)]
  | node@.definitionEnd => .word node.title
  | node@(.functionReturn value) => .record node.title [("value", value.outline)]
  | node@(.moduleDefinition name body) =>
    .record node.title [("name", .quoted name), ("body", .list (outlines body))]
  | node@(.functionDefinition name signature body) =>
    .record node.title [("name", .quoted name), ("signature", signature.outline),
      ("body", .list (outlines body))]

def outlines : List Node → List Outline
  | [] => []
  | node :: nodes => node.outline :: outlines nodes

end

end DefLang
