import DefLang.Proofs.Grammar.Programs
import DefLang.Proofs.Grammar.Texts

namespace DefLang

open Lexer (ofSource)

/-- Reads a text as a program: the tokens of the text, and what the parser makes of them. -/
def readProgram (file text : String) (options : Options) : Except Diagnostic (Reply Node) :=
  (ofSource (Source.ofText text) file).tokens.map fun tokens =>
    Input.program ⟨tokens.toArray, file, options⟩

/-- A statement that some source has: well formed, no deeper than statements may nest, and with
names and literals that can be written. -/
structure Node.IsPrintable (node : Node) : Prop where
  formed : node.isWellFormed
  shallow : node.depth ≤ maxNesting
  spellable : node.IsSpellable

theorem Canonical.isCanonical_of_mem {signs : List Sign} (h : Canonical signs) :
    ∀ s ∈ signs, s.IsCanonical := by
  induction h with
  | nil => simp
  | cons sign _ _ ih => exact List.forall_mem_cons.2 ⟨sign, ih⟩

namespace Written

variable {options : Options} {marks : List Mark} {tokens : List Token}

/-- Tokens that say what the marks say are what the tree is written with, with nothing in the
gaps. -/
theorem of_signs (h : tokens.map Token.sign = marks.map Mark.sign) :
    Written options marks tokens := by
  induction marks generalizing tokens with
  | nil =>
    obtain rfl := List.map_eq_nil_iff.1 h
    exact .done
  | cons m marks ih =>
    obtain ⟨t, tokens, rfl, sign, more⟩ := List.map_eq_cons_iff.1 h
    exact .token (Mark.fits_of_sign_eq sign) (ih more)

theorem isReadable (h : Written options marks tokens)
    (canonical : ∀ t ∈ tokens, t.sign.IsCanonical) : ∀ m ∈ marks, m.IsReadable := by
  induction h with
  | done => simp
  | gap _ _ ih => exact ih (List.forall_mem_cons.1 canonical).2
  | token fits _ ih =>
    obtain ⟨first, others⟩ := List.forall_mem_cons.1 canonical
    exact List.forall_mem_cons.2 ⟨⟨_, first, fits⟩, ih others⟩

end Written

variable {file : String} {nodes : List Node}

/-- Printed statements are read back, whatever the options. -/
theorem readProgram_source (h : ∀ node ∈ nodes, node.IsPrintable) (file : String)
    (options : Options) :
    ∃ reply, readProgram file (Node.root nodes).source options = .ok reply ∧
      reply.result = .ok (.root nodes) ∧ reply.parser.cutShort = false := by
  have legible : Mark.AreLegible (Node.allMarks nodes ++ []) :=
    Node.legible_allMarks_append nodes (fun node hn => (h node hn).formed)
      (Node.areSpellable_iff.2 fun node hn => (h node hn).spellable) ⟨.nil, by simp⟩
  rw [List.append_nil] at legible
  obtain ⟨tokens, decomposed, signs⟩ :=
    exists_decomposed_of_renders legible.canonical (renders_render _) file []
  rw [← legible.source_eq] at decomposed
  have read : (ofSource (Source.ofText (Node.root nodes).source) file).tokens = .ok tokens :=
    Lexer.tokensOf_of_decomposed decomposed
  rw [readProgram, read]
  have spells : Spells options (Node.allMarks nodes) tokens [] :=
    ⟨tokens, (List.append_nil _).symm, .of_signs signs⟩
  exact ⟨_, rfl, Input.program_of_spells (fun node hn => ⟨(h node hn).formed, (h node hn).shallow⟩)
    spells (by simp)⟩

/-- Statements that were read from some text, up to its end or up to where it was cut short, can be
printed. -/
theorem isPrintable_of_readProgram {text : String} {options : Options} {reply : Reply Node}
    (read : readProgram file text options = .ok reply)
    (result : reply.result = .ok (.root nodes)) : ∀ node ∈ nodes, node.IsPrintable := by
  rw [readProgram] at read
  cases lexed : (ofSource (Source.ofText text) file).tokens with
  | error d =>
    rw [lexed] at read
    cases read
  | ok tokens =>
    rw [lexed] at read
    cases read
    have statements := Node.root.inj (Input.program_ok_iff.1 result).1
    obtain ⟨formed, rest, front, split, written⟩ :=
      Input.exists_spells_statements ⟨tokens.toArray, file, options⟩
    rw [← statements] at formed written
    have split : tokens = front ++ rest := split
    have decomposed : Decomposed file [] (Text.Utf8.encode text) tokens :=
      Lexer.decomposed_of_tokensOf lexed
    have canonical : ∀ t ∈ front, t.sign.IsCanonical := by
      intro t ht
      have member : t ∈ tokens := split ▸ List.mem_append_left rest ht
      exact decomposed.canonical.isCanonical_of_mem _ (List.mem_map_of_mem member)
    have spellable := Node.areSpellable_of_readable nodes (written.isReadable canonical)
    intro node hn
    exact ⟨(formed node hn).1, (formed node hn).2, Node.areSpellable_iff.1 spellable node hn⟩

/-- Printing and reading are inverse to each other: what can be printed is read back under all
options, and what was read from any text can be printed. -/
theorem readProgram_roundtrip (file : String) (nodes : List Node) :
    ((∀ node ∈ nodes, node.IsPrintable) → ∀ options,
      ∃ reply, readProgram file (Node.root nodes).source options = .ok reply ∧
        reply.result = .ok (.root nodes) ∧ reply.parser.cutShort = false) ∧
    ∀ text options reply, readProgram file text options = .ok reply →
      reply.result = .ok (.root nodes) →
        (∀ node ∈ nodes, node.IsPrintable) ∧
          ∃ again, readProgram file (Node.root nodes).source .strict = .ok again ∧
            again.result = .ok (.root nodes) ∧ again.parser.cutShort = false := by
  refine ⟨fun printable => readProgram_source printable file, ?_⟩
  intro text options reply read result
  have printable := isPrintable_of_readProgram read result
  exact ⟨printable, readProgram_source printable file .strict⟩

/-- A program that is cut short keeps what came before, and that is printed without the rest. -/
theorem readProgram_roundtrip_cut_short :
    ∃ reply, readProgram "x" "x 1 ret " .lenient = .ok reply ∧
      reply.result = .ok (.root [.integer "1"]) ∧ reply.parser.cutShort = true ∧
      ∃ again, readProgram "x" "1 " .strict = .ok again ∧
        again.result = .ok (.root [.integer "1"]) := by
  let input : Input := ⟨#[⟨.identifier, some "x", "x", 1, 1, 2⟩,
    ⟨.integer, some "1", "x", 1, 3, 4⟩, ⟨.functionReturn, none, "x", 1, 5, 8⟩], "x", .lenient⟩
  have lexed : (ofSource (Source.ofText "x 1 ret ") "x").tokens = .ok input.tokens.toList := by
    with_unfolding_all rfl
  have read : readProgram "x" "x 1 ret " .lenient = .ok input.program := by
    rw [readProgram, lexed]
    rfl
  have result : input.program.result = .ok (.root [.integer "1"]) := by cbv
  have cut : input.program.parser.cutShort = true := by cbv
  have source : (Node.root [.integer "1"]).source = "1 " := by rfl
  obtain ⟨printable, -⟩ := (readProgram_roundtrip "x" _).2 _ _ _ read result
  obtain ⟨again, read', result', -⟩ := (readProgram_roundtrip "x" _).1 printable .strict
  exact ⟨_, read, result, cut, again, source ▸ read', result'⟩

end DefLang
