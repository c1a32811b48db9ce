import BicepMigration.Proofs.Template.Placement
import BicepMigration.Proofs.Template.SeenStatements

/-!
# What a statement says

Two statements say the same if they agree apart from spans and lines; a target that belongs to no symbol does not
count, because it may be read from the line after the statement. What a statement says depends on its own tokens
only, and on no other text. Main statement: the same lexemes say the same wherever they stand as a statement.
-/

namespace BicepMigration.Template

open Text

/-- A fragment without its place. -/
def Fragment.unplaced (f : Fragment) : Fragment := ⟨f.raw, none⟩

/-- What a declaration says by its own tokens: a target that belongs to no symbol is left out. -/
def Declaration.own (d : Declaration) : Declaration :=
  { d with target := d.symbol.bind fun _ => d.target, looped := d.symbol.isSome && d.looped }

/-- What a statement says by its own tokens: a target that belongs to no symbol is left out. -/
def Statement.own (s : Statement) : Statement :=
  { s with target := s.symbol.bind fun _ => s.target, looped := s.symbol.isSome && s.looped }

/-- What a statement says, without places. -/
def Statement.sense (s : Statement) : Statement :=
  { kind := s.kind
    symbol := s.symbol
    target := s.symbol.bind fun _ => s.target
    span := ⟨0, 0⟩
    decorators := s.decorators.map Fragment.unplaced
    line := 0
    body := s.body.map ObjectLiteral.unplaced
    condition := s.condition.map Fragment.unplaced
    existing := s.existing
    looped := s.symbol.isSome && s.looped }

@[simp] theorem Statement.sense_own (s : Statement) : s.own.sense = s.sense := by
  unfold Statement.sense Statement.own
  cases s.symbol <;> rfl

/-- What a statement says is what it says by its own tokens, seen without places. -/
theorem Statement.sense_eq (s : Statement) : s.sense = (s.seen (.recast (·.raw))).own := by
  have hbody : s.body.map ObjectLiteral.unplaced = s.body.map (Value.seenEntries (.recast (·.raw))) :=
    congrArg (s.body.map ·) (funext recastEntries_eq_seen)
  unfold Statement.sense Statement.seen Statement.own
  rw [hbody]
  rfl

variable {source source' : String} {g : Token → Token}

/-- What a statement says, from what its parts say. -/
def Statement.saying (kind : StatementKind) (decorators : List Fragment) (d : Declaration) : Statement :=
  ⟨kind, d.symbol, d.target, ⟨0, 0⟩, decorators, 0, d.body, d.condition, d.existing, d.looped⟩

/-- What a statement says by its own tokens, from what its parts say. -/
theorem own_readStatement (source : String) (first : Token) (others : List Token) :
    (readStatement source first others).1.own =
      { Statement.saying (kindAt (readDecorators source (first :: others)).2)
          (readDecorators source (first :: others)).1
          (readStatementBody source (readDecorators source (first :: others)).2).1.own with
        span := ⟨first.span.start,
          ((others.take (others.length - (readStatement source first others).2.length)).getLast?.getD first).span.stop⟩
        line := first.line } := rfl

/-- The same tokens in another place say the same as a statement. -/
theorem relocated_readStatement {first : Token} {others : List Token}
    (h : Carries source source' g (first :: others)) :
    (readStatement source' (g first) (others.map g)).1.sense = (readStatement source first others).1.sense := by
  rw [Statement.sense_eq, Statement.sense_eq]
  exact congrArg Statement.own (seen_readStatement h.seenAlike fun _ _ => rfl)

end BicepMigration.Template
