import DefLang.Token.Kind

namespace DefLang

abbrev Followers := List (Option Byte)

/-- A blank or a newline, but not the end of input, follows an atom and a declaration. -/
def Followers.spacing : Followers := [some Byte.space, some Byte.tab, some Byte.newline]

structure Keyword where
  kind : Kind
  value : Option String
  followers : Followers
deriving DecidableEq, Repr

namespace Keyword

def reserved : List (String × Keyword) :=
  [("def", ⟨.definition, none, [some Byte.space]⟩),
    ("ret", ⟨.functionReturn, none, [some Byte.space, some Byte.newline]⟩),
    ("end", ⟨.definitionEnd, none, [some Byte.space, some Byte.newline, none]⟩),
    ("defmodule", ⟨.definition, some "module", [some Byte.space, some Byte.newline]⟩)]

def ofWord? (word : String) : Option Keyword := reserved.lookup word

theorem mem_of_ofWord? {word : String} {k : Keyword} (h : ofWord? word = some k) :
    (word, k) ∈ reserved := by
  obtain ⟨before, after, he, _⟩ := List.lookup_eq_some_iff.1 h
  simp [he]

/-- A space may follow every reserved word. -/
theorem space_mem_followers {word : String} {k : Keyword} (h : ofWord? word = some k) :
    some Byte.space ∈ k.followers := by
  have all : ∀ p ∈ reserved, some Byte.space ∈ p.2.followers := by decide
  exact all (word, k) (mem_of_ofWord? h)

end Keyword

end DefLang
