import BicepMigration.Template.PropertyTree

/-!
# Statements

A statement runs to the first newline outside brackets. Decorators before it belong to it. A resource or a
module is read as a declaration: symbol, target, body. A declaration that does not have that form keeps its
symbol and target where they can be told, and has no body. Main statement: a statement takes at least one
token, so reading ends.
-/

namespace BicepMigration.Template

open Text

/-- What a statement declares. -/
inductive StatementKind where
  | param
  | var
  | resource
  | module
  | output
  /-- Any other statement. -/
  | other
  deriving DecidableEq, Repr

/-- The kind as a word. -/
def StatementKind.name : StatementKind → String
  | .param => "param"
  | .var => "var"
  | .resource => "resource"
  | .module => "module"
  | .output => "output"
  | .other => "other"

/-- A statement at the top of a template. -/
structure Statement where
  /-- What it declares. -/
  kind : StatementKind
  /-- The declared symbol. -/
  symbol : Option String
  /-- Type and version of a resource, locator of a module, without quotes. -/
  target : Option String
  /-- The whole statement with its decorators. -/
  span : Span
  /-- The decorators before it, in order. -/
  decorators : List Fragment
  /-- Line of the first token, counted from one. -/
  line : Nat
  /-- The body of a declaration. -/
  body : Option ObjectLiteral
  /-- The condition between the equals sign and the body. -/
  condition : Option Fragment
  /-- The declaration refers to a resource that exists. -/
  existing : Bool
  /-- The body is a loop. -/
  looped : Bool
  deriving Repr

/-- Splits a text at its last `@`. -/
def splitAtLast (cs : List Char) : Option (List Char × List Char) :=
  let after := cs.reverse.takeWhile (· ≠ '@')
  match cs.reverse.dropWhile (· ≠ '@') with
  | [] => none
  | _ :: before => some (before.reverse, after.reverse)

/-- Type and version of a resource: the parts of the target around its last `@`. -/
def Statement.typeAndVersion (s : Statement) : Option (String × String) := do
  let target ← s.target
  let (type, version) ← splitAtLast target.toList
  some (String.ofList type, String.ofList version)

/-- The kind of statement that a first token announces. -/
def kindAt (toks : List Token) : StatementKind :=
  match toks with
  | [] => .other
  | t :: _ =>
    if t.isWord "param" then .param
    else if t.isWord "var" then .var
    else if t.isWord "resource" then .resource
    else if t.isWord "module" then .module
    else if t.isWord "output" then .output
    else .other

/-- The tokens up to the next newline outside brackets, and the tokens from there on. -/
def breakLine (toks : List Token) : List Token × List Token :=
  breakOutside (· = .newline) 0 toks

/-- What a declaration says after its keyword, apart from its place. -/
structure Declaration where
  symbol : Option String
  target : Option String
  body : Option ObjectLiteral
  condition : Option Fragment
  existing : Bool
  looped : Bool
  deriving Repr

/-- A loop starts here. -/
def startsLoop : List Token → Bool
  | bracket :: word :: _ => bracket.kind = .bracketOpen && word.isWord "for"
  | _ => false

/-- The first equals sign on the line is followed by a loop. -/
def assignsLoop : List Token → Bool
  | [] => false
  | t :: ts =>
    if t.kind = .newline then false
    else if t.kind = .assign then startsLoop ts
    else assignsLoop ts

/-- The first token of a line ends it, or there is none. -/
def atLineEnd : List Token → Bool
  | [] => true
  | t :: _ => t.kind = .newline

/-- Reads a condition in parentheses, and gives the tokens after it. -/
def readCondition (source : String) : List Token → Option (Fragment × List Token)
  | [] => none
  | t :: ts =>
    if t.kind = .parenOpen then
      match breakAtClose 0 ts with
      | some (first :: others, _, rest) => some (Fragment.ofTokens source first others, rest)
      | _ => none
    else none

/-- Reads a body in braces that ends its line, and gives the tokens after it. -/
def readBody (source : String) : List Token → Option (ObjectLiteral × List Token)
  | [] => none
  | t :: ts =>
    if t.kind = .braceOpen then
      match breakAtClose 0 ts with
      | some (inside, _, rest) =>
        if atLineEnd rest then (readEntries source (elements inside)).map (·, rest) else none
      | none => none
    else none

/-- The first token is an identifier spelled like the word. -/
def startsWithWord (word : String) (toks : List Token) : Bool :=
  toks.head?.any (·.isWord word)

/-- The tokens after a word, if they start with it. -/
def dropWord (word : String) (toks : List Token) : List Token :=
  if startsWithWord word toks then toks.tail else toks

/-- The part of a declaration before its body. -/
structure DeclarationHead where
  symbol : String
  target : String
  existing : Bool
  deriving Repr

/-- Reads a declaration from its keyword to its equals sign, and gives the tokens after that. -/
def readHead : List Token → Option (DeclarationHead × List Token)
  | _ :: name :: rest =>
    if name.kind = .identifier then
      match literalAt rest with
      | none => none
      | some (target, rest) =>
        match dropWord "existing" rest with
        | [] => none
        | equals :: after =>
          if equals.kind = .assign then some (⟨name.text, target, startsWithWord "existing" rest⟩, after)
          else none
    else none
  | _ => none

/-- Reads the word `if` and a condition, if they come next, and gives the tokens after them. -/
def readOptionalCondition (source : String) (toks : List Token) : Option (Option Fragment × List Token) :=
  if startsWithWord "if" toks then
    (readCondition source toks.tail).map fun (condition, rest) => (some condition, rest)
  else some (none, toks)

/-- Reads a declaration from its keyword on, and gives the tokens after it. Nothing if it does not have the
form of a declaration. -/
def readDeclaration (source : String) (toks : List Token) : Option (Declaration × List Token) :=
  match readHead toks with
  | none => none
  | some (head, rest) =>
    if rest.head?.any (·.kind = .bracketOpen) then
      some (⟨some head.symbol, some head.target, none, none, head.existing, startsLoop rest⟩, (breakLine rest).2)
    else
      match readOptionalCondition source rest with
      | none => none
      | some (condition, rest) =>
        (readBody source rest).map fun (body, rest) =>
          (⟨some head.symbol, some head.target, some body, condition, head.existing, false⟩, rest)

/-- What can be told of a statement that is read up to the end of its line only. -/
def opaqueDeclaration (kind : StatementKind) (toks : List Token) : Declaration :=
  let symbol :=
    match kind, toks with
    | .other, _ => none
    | _, _ :: name :: _ => if name.kind = .identifier then some name.text else none
    | _, _ => none
  let target :=
    if kind = .resource || kind = .module then (literalAt (toks.drop 2)).map (·.1) else none
  ⟨symbol, target, none, none, false, target.isSome && assignsLoop (toks.drop 2)⟩

/-- Reads what a statement declares, from its keyword on, and gives the tokens after it. -/
def readStatementBody (source : String) (toks : List Token) : Declaration × List Token :=
  let kind := kindAt toks
  let declared := if kind = .resource || kind = .module then readDeclaration source toks else none
  declared.getD (opaqueDeclaration kind toks, (breakLine toks).2)

/-- The lines after the first one have no more tokens than all of them. -/
theorem length_breakLine_le (toks : List Token) : (breakLine toks).2.length ≤ toks.length :=
  length_breakOutside_le ..

/-- A line that does not start with a newline takes its first token. -/
theorem length_breakLine_lt {t : Token} {ts : List Token} (h : t.kind ≠ .newline) :
    (breakLine (t :: ts)).2.length < (t :: ts).length := by
  unfold breakLine breakOutside
  simp only [h, decide_false, Bool.and_false, Bool.false_eq_true, if_false, List.length_cons]
  exact Nat.lt_succ_of_le (length_breakOutside_le ..)

/-- The tokens from the first one that is no newline. -/
def skipNewlines (toks : List Token) : List Token :=
  toks.dropWhile (·.kind = .newline)

/-- Passing over newlines leaves no more tokens than there were. -/
theorem length_skipNewlines_le (toks : List Token) : (skipNewlines toks).length ≤ toks.length :=
  (List.dropWhile_sublist _).length_le

/-- Reads the decorators at the start, and gives the tokens after them. -/
def readDecorators (source : String) : List Token → List Fragment × List Token
  | [] => ([], [])
  | t :: ts =>
    if h : t.kind = .atSign then
      have : (skipNewlines (breakLine (t :: ts)).2).length < (t :: ts).length :=
        Nat.lt_of_le_of_lt (length_skipNewlines_le _) (length_breakLine_lt (by simp [h]))
      let line := breakLine (t :: ts)
      let others := readDecorators source (skipNewlines line.2)
      (Fragment.ofTokens source t line.1.tail :: others.1, others.2)
    else ([], t :: ts)
termination_by toks => toks.length
decreasing_by exact this

/-- Reads a statement from its first token and the others, and gives the tokens after it. -/
def readStatement (source : String) (first : Token) (others : List Token) : Statement × List Token :=
  let toks := first :: others
  let (decorators, afterDecorators) := readDecorators source toks
  let (declared, rest) := readStatementBody source afterDecorators
  let taken := others.take (others.length - rest.length)
  (⟨kindAt afterDecorators, declared.symbol, declared.target,
    ⟨first.span.start, (taken.getLast?.getD first).span.stop⟩, decorators, first.line, declared.body,
    declared.condition, declared.existing, declared.looped⟩, rest)

/-- Reading a condition leaves no more tokens than there were. -/
theorem length_readCondition_le {source : String} {toks rest : List Token} {c : Fragment}
    (h : readCondition source toks = some (c, rest)) : rest.length ≤ toks.length := by
  unfold readCondition at h
  repeat' split at h
  all_goals simp only [Option.some.injEq, Prod.mk.injEq, reduceCtorEq] at h
  next hb =>
    obtain ⟨-, rfl⟩ := h
    have := congrArg List.length (breakAtClose_append hb)
    simp only [List.length_append, List.length_cons] at this ⊢
    omega

/-- Reading a body leaves no more tokens than there were. -/
theorem length_readBody_le {source : String} {toks rest : List Token} {body : ObjectLiteral}
    (h : readBody source toks = some (body, rest)) : rest.length ≤ toks.length := by
  unfold readBody at h
  repeat' split at h
  all_goals simp only [Option.map_eq_some_iff, Prod.mk.injEq, reduceCtorEq] at h
  next hb _ =>
    obtain ⟨_, -, -, rfl⟩ := h
    have := congrArg List.length (breakAtClose_append hb)
    simp only [List.length_append, List.length_cons] at this ⊢
    omega

/-- Passing over a word leaves no more tokens than there were. -/
theorem length_dropWord_le (word : String) (toks : List Token) :
    (dropWord word toks).length ≤ toks.length := by
  unfold dropWord
  split <;> simp

/-- Reading the head of a declaration takes tokens: it has a keyword. -/
theorem length_readHead_lt {toks rest : List Token} {head : DeclarationHead}
    (h : readHead toks = some (head, rest)) : rest.length < toks.length := by
  unfold readHead at h
  repeat' split at h
  all_goals simp only [Option.some.injEq, Prod.mk.injEq, reduceCtorEq] at h
  next hl _ _ _ he _ =>
    obtain ⟨-, rfl⟩ := h
    have h₁ := length_literalAt_lt hl
    have h₂ := he ▸ length_dropWord_le "existing" _
    simp only [List.length_cons] at h₁ h₂ ⊢
    omega

/-- Reading a condition, if there is one, leaves no more tokens than there were. -/
theorem length_readOptionalCondition_le {source : String} {toks rest : List Token} {c : Option Fragment}
    (h : readOptionalCondition source toks = some (c, rest)) : rest.length ≤ toks.length := by
  unfold readOptionalCondition at h
  split at h
  · obtain ⟨⟨_, after⟩, hc, he⟩ := Option.map_eq_some_iff.1 h
    simp only [Prod.mk.injEq] at he
    have := length_readCondition_le hc
    rw [List.length_tail] at this
    rw [← he.2]
    omega
  · simp only [Option.some.injEq, Prod.mk.injEq] at h
    exact Nat.le_of_eq (congrArg List.length h.2.symm)

/-- Reading a declaration takes tokens: it has a head. -/
theorem length_readDeclaration_lt {source : String} {toks rest : List Token} {d : Declaration}
    (h : readDeclaration source toks = some (d, rest)) : rest.length < toks.length := by
  unfold readDeclaration at h
  split at h
  · simp at h
  · next hh =>
    have h₁ := length_readHead_lt hh
    split at h
    · simp only [Option.some.injEq, Prod.mk.injEq] at h
      obtain ⟨-, rfl⟩ := h
      exact Nat.lt_of_le_of_lt (length_breakLine_le _) h₁
    · split at h
      · simp at h
      · next hc =>
        obtain ⟨⟨_, after⟩, hb, he⟩ := Option.map_eq_some_iff.1 h
        simp only [Prod.mk.injEq] at he
        have h₂ := length_readOptionalCondition_le hc
        have h₃ := length_readBody_le hb
        rw [← he.2]
        omega

/-- What follows the decorators takes tokens, unless it starts with a newline or is empty. -/
theorem length_readStatementBody_lt {source : String} {t : Token} {ts : List Token}
    (h : t.kind ≠ .newline) : (readStatementBody source (t :: ts)).2.length < (t :: ts).length := by
  unfold readStatementBody
  simp only
  split
  · rcases hd : readDeclaration source (t :: ts) with _ | ⟨d, rest⟩
    · exact length_breakLine_lt h
    · exact length_readDeclaration_lt hd
  · exact length_breakLine_lt h

/-- What follows the decorators of a statement leaves no more tokens than there were. -/
theorem length_readStatementBody_le (source : String) (toks : List Token) :
    (readStatementBody source toks).2.length ≤ toks.length := by
  unfold readStatementBody
  simp only
  split
  · rcases hd : readDeclaration source toks with _ | ⟨d, rest⟩
    · exact length_breakLine_le _
    · exact Nat.le_of_lt (length_readDeclaration_lt hd)
  · exact length_breakLine_le _

/-- Reading decorators leaves no more tokens than there were. -/
theorem length_readDecorators_le (source : String) (toks : List Token) :
    (readDecorators source toks).2.length ≤ toks.length := by
  fun_induction readDecorators source toks with
  | case1 => simp
  | case2 t ts _ hl _ _ ih => exact Nat.le_trans ih (Nat.le_of_lt hl)
  | case3 => simp

/-- A statement takes at least its first token. -/
theorem length_readStatement_lt (source : String) {first : Token} (others : List Token)
    (h : first.kind ≠ .newline) :
    (readStatement source first others).2.length < (first :: others).length := by
  unfold readStatement
  simp only
  by_cases ha : first.kind = .atSign
  · have hd : (readDecorators source (first :: others)).2.length < (first :: others).length := by
      rw [readDecorators, dif_pos ha]
      exact Nat.lt_of_le_of_lt (length_readDecorators_le ..)
        (Nat.lt_of_le_of_lt (length_skipNewlines_le _) (length_breakLine_lt h))
    exact Nat.lt_of_le_of_lt (length_readStatementBody_le ..) hd
  · rw [readDecorators, dif_neg ha]
    exact length_readStatementBody_lt h

/-- After newlines are passed over, the next token is none. -/
theorem head_skipNewlines {toks ts : List Token} {t : Token} (h : skipNewlines toks = t :: ts) :
    t.kind ≠ .newline := by
  unfold skipNewlines at h
  have := List.head_dropWhile_not (fun t : Token => decide (t.kind = .newline)) (l := toks) (by simp [h])
  simpa [h] using this

/-- The statements of a template, in order. -/
def readStatements (source : String) (toks : List Token) : List Statement :=
  match h : skipNewlines toks with
  | [] => []
  | first :: others =>
    have := length_readStatement_lt source others (head_skipNewlines h)
    have := h ▸ length_skipNewlines_le toks
    let read := readStatement source first others
    read.1 :: readStatements source read.2
termination_by toks.length

end BicepMigration.Template
