import BicepMigration.Proofs.Template.Headings
import BicepMigration.Proofs.Template.TokenWord

/-!
# Lines of declarations

A resource or a module is read part by part: its head, its condition, its body. Where it does not have this form only
its line is looked at: it goes up to the first newline outside brackets, and its name, its literal and its first equals
sign are looked up where they have to stand. Main statement: where the first reading succeeds, the second one ends at
the same token and finds the same symbol, the same target and the same loop. So a body that cannot be read changes
neither where the next statement starts nor what the statement says before its body.
-/

namespace BicepMigration.Template

section Loops

variable {source : String} {toks rest : List Token}

/-- Tokens before the first equals sign of a line start no loop. -/
theorem assignsLoop_skip (h : ∀ t ∈ toks, t.kind ≠ .newline ∧ t.kind ≠ .assign) (rest : List Token) :
    assignsLoop (toks ++ rest) = assignsLoop rest := by
  induction toks with
  | nil => rfl
  | cons t toks ih =>
    obtain ⟨⟨hnewline, hassign⟩, htoks⟩ := List.forall_mem_cons.1 h
    rw [List.cons_append, assignsLoop, if_neg hnewline, if_neg hassign, ih htoks]

/-- A string has no newline and no sign of equality among its tokens. -/
theorem IsLiteral.not_assign {text : String} (h : IsLiteral toks text) :
    ∀ t ∈ toks, t.kind ≠ .newline ∧ t.kind ≠ .assign := by
  cases h with
  | empty ho hc => simp [ho, hc]
  | text ho hm hc _ => simp [ho, hm, hc]

/-- Neither has the word for existing resources. -/
theorem IsExisting.not_assign {existing : Bool} (h : IsExisting toks existing) :
    ∀ t ∈ toks, t.kind ≠ .newline ∧ t.kind ≠ .assign := by
  cases existing with
  | true =>
    obtain ⟨t, rfl, ht⟩ := h
    simp [kind_of_isWord ht]
  | false =>
    obtain rfl : toks = [] := h
    simp

/-- The first equals sign after the name of a declaration is the one that ends its head. -/
theorem assignsLoop_of_readHead {head : DeclarationHead} (h : readHead toks = some (head, rest)) :
    assignsLoop (toks.drop 2) = startsLoop rest := by
  obtain ⟨taken, rfl, ⟨keyword, name, literal, existing, equals, rfl, -, -, hliteral, hexisting, hequals⟩⟩ :=
    readHead_cases h
  have hdrop : (keyword :: name :: (literal ++ (existing ++ [equals])) ++ rest).drop 2 =
      literal ++ (existing ++ (equals :: rest)) := by simp
  have hnewline : equals.kind ≠ .newline := by simp [hequals]
  rw [hdrop, assignsLoop_skip hliteral.not_assign, assignsLoop_skip hexisting.not_assign, assignsLoop,
    if_neg hnewline, if_pos hequals]

/-- A loop starts with a bracket. -/
theorem startsLoop_eq_false (h : ¬ toks.head?.any (·.kind = .bracketOpen) = true) : startsLoop toks = false := by
  match toks with
  | [] => rfl
  | [t] => rfl
  | t :: u :: toks =>
    have ht : t.kind ≠ .bracketOpen := by simpa using h
    simp [startsLoop, ht]

/-- A declaration is a loop if one follows its equals sign. -/
theorem looped_of_readDeclaration {d : Declaration} (h : readDeclaration source toks = some (d, rest)) :
    d.looped = assignsLoop (toks.drop 2) := by
  obtain ⟨head, after, hhead, ⟨-, -, rfl⟩ | ⟨hbracket, _, _, _, -, -, rfl⟩⟩ := readDeclaration_cases h
  · rw [assignsLoop_of_readHead hhead]
  · rw [assignsLoop_of_readHead hhead, startsLoop_eq_false hbracket]

/-- A declaration that is read in full has a target. -/
theorem isSome_target_of_readDeclaration {d : Declaration} (h : readDeclaration source toks = some (d, rest)) :
    d.target.isSome = true := by
  obtain ⟨head, after, -, ⟨-, -, rfl⟩ | ⟨-, _, _, _, -, -, rfl⟩⟩ := readDeclaration_cases h
  all_goals rfl

end Loops

section Lines

variable {source : String} {toks rest : List Token}

/-- Wherever a resource or a module is read part by part, reading its line only ends at the same token and finds the
same symbol, the same target and the same loop. -/
theorem readDeclaration_agrees {d : Declaration} (hk : kindAt toks = .resource ∨ kindAt toks = .module)
    (h : readDeclaration source toks = some (d, rest)) :
    rest = (breakLine toks).2 ∧ d.symbol = (opaqueDeclaration (kindAt toks) toks).symbol ∧
      d.target = (opaqueDeclaration (kindAt toks) toks).target ∧
      d.looped = (opaqueDeclaration (kindAt toks) toks).looped := by
  have hother : kindAt toks ≠ .other := by
    rcases hk with hk | hk <;> simp [hk]
  have htarget : (opaqueDeclaration (kindAt toks) toks).target = (literalAt (toks.drop 2)).map (·.1) := by
    rcases hk with hk | hk <;> simp [opaqueDeclaration, hk]
  have hlooped : (opaqueDeclaration (kindAt toks) toks).looped =
      ((opaqueDeclaration (kindAt toks) toks).target.isSome && assignsLoop (toks.drop 2)) := rfl
  have hsome : d.target.isSome = true := isSome_target_of_readDeclaration h
  obtain ⟨t, ts, rfl, ht⟩ := exists_keyword (by simpa using hk)
  refine ⟨breakLine_readDeclaration ht h, ?_, ?_, ?_⟩
  · rw [symbol_opaqueDeclaration, if_neg hother]
    exact symbol_of_readDeclaration h
  · rw [htarget]
    exact target_of_readDeclaration h
  · rw [hlooped, htarget, ← target_of_readDeclaration h, hsome, Bool.true_and]
    exact looped_of_readDeclaration h

/-- An existing resource with a condition and a body of several lines, and a statement after it. -/
def nestedDeclaration : String :=
  "resource sa 'T/a@2020-01-01' existing = if (x == '$\x7by\x7d') \x7b\n  tags: [1, -2\n  ]\n" ++
    "  'n': \x7b a: [for i in [\n]: i] \x7d\n\x7d\nvar x = 1\n"

/-- A declaration with nested brackets is read alike in both ways. -/
theorem readDeclaration_agrees_nested :
    tokenize nestedDeclaration = .ok (tokensOf nestedDeclaration) ∧
      kindAt (tokensOf nestedDeclaration) = .resource ∧
      ∃ d rest, readDeclaration nestedDeclaration (tokensOf nestedDeclaration) = some (d, rest) ∧
        d.body.isSome = true ∧ rest = (breakLine (tokensOf nestedDeclaration)).2 ∧
        d.symbol = (opaqueDeclaration .resource (tokensOf nestedDeclaration)).symbol ∧
        d.target = (opaqueDeclaration .resource (tokensOf nestedDeclaration)).target ∧
        d.looped = (opaqueDeclaration .resource (tokensOf nestedDeclaration)).looped := by
  have hk : kindAt (tokensOf nestedDeclaration) = .resource := by decide +kernel
  have hbody : ((readDeclaration nestedDeclaration (tokensOf nestedDeclaration)).map fun read => read.1.body.isSome) =
      some true := by decide +kernel
  obtain ⟨⟨d, rest⟩, hread, hsome⟩ := Option.map_eq_some_iff.1 hbody
  have hagrees := readDeclaration_agrees (.inl hk) hread
  rw [hk] at hagrees
  exact ⟨tokenize_eq (by decide +kernel), hk, d, rest, hread, hsome, hagrees⟩

end Lines

end BicepMigration.Template
