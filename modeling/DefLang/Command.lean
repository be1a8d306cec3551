import DefLang.Document
import DefLang.Excerpt
import DefLang.Grammar.Program

namespace DefLang

structure Command where
  showTree : Bool
  quietTokens : Bool
  strict : Bool
  failOnTruncation : Bool
  path : String
deriving DecidableEq, Repr

structure Command.Result where
  success : Bool
  output : String
  errors : String
deriving DecidableEq, Repr

namespace Command

def options (command : Command) : Options :=
  let options := if command.strict then Options.strict else Options.lenient
  if command.failOnTruncation then { options with truncation := .fail } else options

def ofArguments? (arguments : List String) : Option Command :=
  let flags := ["--ast", "--quiet-tokens", "--strict", "--fail-on-truncation"]
  match arguments.filter (!flags.contains ·) with
  | [path] =>
    if path.startsWith "-" then
      none
    else
      some
        { showTree := arguments.contains "--ast"
          quietTokens := arguments.contains "--quiet-tokens"
          strict := arguments.contains "--strict"
          failOnTruncation := arguments.contains "--fail-on-truncation"
          path }
  | _ => none

def truncationWarning : String :=
  "warning: input ended inside a definition, the AST is incomplete\n"

def tokenLines (tokens : List Token) : String :=
  String.join (tokens.map (·.describe ++ "\n"))

/-- Tokens are written before the parse, so they are there even if it fails. Only drawing an
excerpt can go wrong altogether. -/
def run (command : Command) (content : Except String Source) :
    Except CaretTooFar Command.Result := do
  let document : Document := ⟨command.path, content⟩
  match document.tokens with
  | .error d => return ⟨false, "", ← d.render document.excerptText⟩
  | .ok tokens =>
    let listing := if command.quietTokens then "" else tokenLines tokens
    let reply := Input.program ⟨tokens.toArray, document.name, command.options⟩
    match reply.result with
    | .error d => return ⟨false, listing, ← d.render document.excerptText⟩
    | .ok tree =>
      let printed := if command.showTree then tree.outline.pretty ++ "\n" else ""
      let warning := if reply.parser.cutShort then truncationWarning else ""
      return ⟨true, listing ++ printed, warning⟩

end Command

end DefLang
