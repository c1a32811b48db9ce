import BicepMigration.Template.Lexer
import BicepMigration.Template.Statement

/-!
# Scanned templates

A template together with its tokens and statements. Scanning fails only where the tokens cannot be read.
-/

namespace BicepMigration.Template

/-- A template as it was read. -/
structure ScannedTemplate where
  /-- The text of the template. -/
  source : String
  /-- Its tokens, in order. -/
  tokens : List Token
  /-- Its statements, in order. -/
  statements : List Statement
  deriving Repr

/-- Reads a template. -/
def scan (source : String) : Except ScanError ScannedTemplate :=
  (tokenize source).map fun tokens => ⟨source, tokens, readStatements source tokens⟩

/-- The first statement of a kind that declares a symbol. -/
def ScannedTemplate.find? (template : ScannedTemplate) (kind : StatementKind) (symbol : String) :
    Option Statement :=
  template.statements.find? fun s => s.kind = kind && s.symbol = some symbol

/-- A statement that is found is one of the template, with the kind and the symbol that were looked for. -/
theorem ScannedTemplate.mem_of_find? {template : ScannedTemplate} {kind : StatementKind} {symbol : String}
    {s : Statement} (h : template.find? kind symbol = some s) :
    s ∈ template.statements ∧ s.kind = kind ∧ s.symbol = some symbol := by
  have := List.find?_some h
  simp only [Bool.and_eq_true, decide_eq_true_eq] at this
  exact ⟨List.mem_of_find?_eq_some h, this⟩

end BicepMigration.Template
