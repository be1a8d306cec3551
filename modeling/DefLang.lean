import DefLang.Grammar.Call
import DefLang.Grammar.Written
import DefLang.Main
import DefLang.Proofs.Lexer.EarliestFault
import DefLang.Proofs.Text.CharClass
import DefLang.Text.RoundTrip
import DefLang.Tree.Equality
import DefLang.Tree.Shape
import DefLang.Proofs.Lexer.Canonical
import DefLang.Proofs.Lexer.Rendering
import DefLang.Proofs.Grammar.Recognition
import DefLang.Proofs.Grammar.Spelling
import DefLang.Proofs.Grammar.Types
import DefLang.Proofs.Grammar.Bodies
import DefLang.Proofs.Grammar.Statements
import DefLang.Proofs.Grammar.Acceptance
import DefLang.Proofs.Grammar.Turns
import DefLang.Proofs.Grammar.Standing
import DefLang.Proofs.Grammar.Congruence
import DefLang.Proofs.Grammar.Faults
import DefLang.Proofs.Grammar.Locality
import DefLang.Proofs.Grammar.Programs
import DefLang.Proofs.Grammar.FirstFault
import DefLang.Proofs.Grammar.Truncation
import DefLang.Proofs.Grammar.Rejection
import DefLang.Proofs.Grammar.Concatenation
import DefLang.Proofs.Lexer.LineBreak
import DefLang.Proofs.Lexer.Stepping
import DefLang.Proofs.Lexer.Interruption
import DefLang.Proofs.Lexer.Resumption
import DefLang.Proofs.Grammar.Session
import DefLang.Proofs.Grammar.Texts
import DefLang.Proofs.Grammar.SourceRoundTrip
import DefLang.Proofs.Grammar.TreeBounds
import DefLang.Proofs.Grammar.TypeExtent
import DefLang.Proofs.Grammar.Nesting
import DefLang.Proofs.Grammar.Comments
import DefLang.Proofs.Grammar.Transparency
import DefLang.Proofs.Grammar.FaultPlace
import DefLang.Proofs.Grammar.Walk
import DefLang.Proofs.Lexer.TruePosition
import DefLang.Proofs.Text.Boundary
import DefLang.Proofs.Lexer.AsciiEdge
import DefLang.Proofs.Report.Excerpt
import DefLang.Proofs.Report.Caret
import DefLang.Proofs.Grammar.Budget
import DefLang.Proofs.Report.Width
import DefLang.Proofs.Report.Unreadable
