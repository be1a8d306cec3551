namespace DefLang

abbrev Byte := UInt8

namespace Byte

def tab : Byte := 9
def newline : Byte := 10
def space : Byte := 32
def quote : Byte := 34
def hash : Byte := 35
def dot : Byte := 46
def colon : Byte := 58
def underscore : Byte := 95

def isBlank (b : Byte) : Bool := b == space || b == tab

/-- Blanks and newlines, which merge into one token after a first newline. -/
def isLayout (b : Byte) : Bool := b.isBlank || b == newline

def isDigit (b : Byte) : Bool := 48 ≤ b && b ≤ 57

def isLetter (b : Byte) : Bool := (65 ≤ b && b ≤ 90) || (97 ≤ b && b ≤ 122)

def isAlphanumeric (b : Byte) : Bool := b.isLetter || b.isDigit

def isWord (b : Byte) : Bool := b.isAlphanumeric || b == underscore

/-- `+ - * / % & > < \ | ~ ! =`, in that order. -/
def operators : List Byte := [43, 45, 42, 47, 37, 38, 62, 60, 92, 124, 126, 33, 61]

def isOperator (b : Byte) : Bool := operators.contains b

/-- Every byte is read as the character with that code, so one outside ASCII still has a name. -/
def toChar (b : Byte) : Char := Char.ofUInt8 b

theorem isLayout_of_isBlank {b : Byte} (h : b.isBlank) : b.isLayout := by
  simp [isLayout, h]

theorem isWord_of_isAlphanumeric {b : Byte} (h : b.isAlphanumeric) : b.isWord := by
  simp [isWord, h]

end Byte

end DefLang
