import BicepMigration.Proofs.Template.RenderedText
import BicepMigration.Proofs.Template.Rewritten

/-!
# Module calls as lexemes

A module call is written as lines of decorators, a head, perhaps a condition, and a body. If each of these can be
read by itself, the call can be written in place of a statement: it is balanced and it ends before anything. The
locator may be any text that can be read between its quotes.
-/

namespace BicepMigration.Template

open Text

/-- The lexemes of decorators, a line each. -/
def decoratorLexemes (line : String → List Lexeme) (decorators : List String) : List Lexeme :=
  decorators.flatMap fun d => regap [] (line d) ++ [newlineLexeme]

/-- The lexemes of a declaration up to the equals sign. -/
def headLexemes (symbol : String) (locator : List Lexeme) : List Lexeme :=
  nameLexeme "module" :: ⟨[' '], .identifier, symbol.toList⟩ ::
    (regap [' '] locator ++ [⟨[' '], .assign, ['=']⟩])

/-- The lexemes of a condition, if there is one. -/
def conditionLexemes : Option (List Lexeme) → List Lexeme
  | none => []
  | some ls =>
    ⟨[' '], .identifier, ['i', 'f']⟩ :: ⟨[' '], .parenOpen, ['(']⟩ ::
      (regap [] ls ++ [⟨[], .parenClose, [')']⟩])

/-- What a module call is written with: lines for its decorators, its locator and its condition, and leaves for its
body. -/
structure CallLexemes where
  /-- The lexemes of a decorator. -/
  line : String → List Lexeme
  /-- The locator in its quotes. -/
  locator : List Lexeme
  /-- The condition without parentheses. -/
  condition : Option (List Lexeme)
  /-- The leaves of the body. -/
  leaves : Leaves

instance : Inhabited CallLexemes := ⟨⟨fun _ => [], [], none, ⟨fun _ => [], fun _ => []⟩⟩⟩

/-- The lexemes of a module call. -/
def CallLexemes.all (parts : CallLexemes) (call : ModuleCall) : List Lexeme :=
  decoratorLexemes parts.line call.decorators ++ (headLexemes call.symbol parts.locator ++
    (conditionLexemes parts.condition ++ regap [' '] (parts.leaves.value 0 (.object call.body))))

/-- The lexemes of a decorator: a line that starts with an at sign. -/
def IsDecoratorLine (text : String) (ls : List Lexeme) : Prop :=
  Line ls ∧ text.toList = bare ls ∧ ∃ l rest, ls = l :: rest ∧ l.kind = .atSign

/-- The parts of a module call can be read, and have the text that is written for them. -/
structure CallLexemes.Show (parts : CallLexemes) (edited : EditedText) (call : ModuleCall) : Prop where
  decorators : ∀ d ∈ call.decorators, IsDecoratorLine d (parts.line d)
  symbol : IsName call.symbol
  locator : Part parts.locator ∧ '\'' :: (call.locator.toList ++ ['\'']) = bare parts.locator
  condition : match call.condition, parts.condition with
    | none, none => True
    | some text, some ls => Part ls ∧ text.toList = bare ls
    | _, _ => False
  body : parts.leaves.Show edited (.object call.body)

/-- What ends with a close may stand before anything. -/
theorem Legible.before_any {ls : List Lexeme} {l : Lexeme} {rest : List Char} {c : Char}
    (h : Legible (ls ++ [l]) rest) (ht : l.text = [c]) (hc : isStop c = true) (he : ∀ rest, EndsAt l.kind l.text rest)
    (rest' : List Char) : Legible (ls ++ [l]) rest' := by
  obtain ⟨hls, hg, hs, -, -⟩ := legible_append.1 h
  refine legible_append.2 ⟨hls.of_follows ?_, hg.of_head_eq ?_, hs, he _, trivial⟩
  · simp only [written_cons, written_nil, List.append_nil, List.append_assoc, ht]
    exact Follows.prepend (follows_of_isStop hc) _
  · rw [ht]
    rfl

/-- An object ends with its brace. -/
theorem value_object_eq (leaves : Leaves) (depth : Nat) (ps : ObjectLiteral) :
    ∃ init gap, leaves.value depth (.object ps) = init ++ [⟨gap, .braceClose, ['}']⟩] ∧ init ≠ [] := by
  cases ps with
  | nil =>
    rw [Leaves.value]
    exact ⟨[⟨[], .braceOpen, ['{']⟩], [], rfl, by simp⟩
  | cons p rest =>
    rw [Leaves.value]
    exact ⟨⟨[], .braceOpen, ['{']⟩ :: newlineLexeme :: leaves.entries (depth + 1) (p :: rest), indent depth, rfl,
      by simp⟩

/-- A body can be read before anything. -/
theorem legible_object {leaves : Leaves} {edited : EditedText} {ps : ObjectLiteral}
    (h : leaves.Show edited (.object ps)) (rest : List Char) :
    Legible (regap [' '] (leaves.value 0 (.object ps))) rest := by
  have hleaf := isLeaf_value h 0
  have hline := hleaf.1.legible_regap 1 (c := '\n') rfl []
  obtain ⟨init, gap, hvalue, hne⟩ := value_object_eq leaves 0 ps
  rw [hvalue] at hline ⊢
  obtain ⟨l, init, rfl⟩ := List.exists_cons_of_ne_nil hne
  exact (@Legible.before_any ({ l with gap := [' '] } :: init)) hline rfl rfl (fun _ => trivial) rest

/-- Decorators are written as lines. -/
theorem isLines_decorators {line : String → List Lexeme} {decorators : List String}
    (h : ∀ d ∈ decorators, IsDecoratorLine d (line d)) :
    IsLines (String.join (decorators.map (· ++ "\n"))) (decoratorLexemes line decorators) := by
  induction decorators with
  | nil => exact .nil
  | cons d ds ih =>
    obtain ⟨hline, htext, -⟩ := h d (by simp)
    obtain ⟨hb, hl, hothers⟩ := ih fun e he => h e (List.mem_cons_of_mem _ he)
    have hcons : decoratorLexemes line (d :: ds) = regap [] (line d) ++ newlineLexeme :: decoratorLexemes line ds := by
      simp [decoratorLexemes]
    rw [hcons]
    refine ⟨?_, fun rest => legible_append.2 ⟨hline.toPart.legible_regap 0 rfl _, ?_⟩, ?_⟩
    · rw [List.map_append, map_kind_regap, List.map_cons]
      exact hline.balanced.append (balanced_newline.append hb)
    · exact legible_cons .nil rfl rfl trivial (hl rest)
    · rw [written_append, written_regap _ hline.ne_nil, List.map_cons, String.join_cons, String.toList_append,
        String.toList_append, htext, hothers]
      simp [newlineLexeme]

/-- The sign of equality is spelled so. -/
theorem isSpelled_assign : IsSpelled .assign ['='] :=
  ⟨'=', by simp [IsMarkChar]; decide, .inl ⟨rfl, rfl⟩⟩

/-- The head of a module call can be read before white space. -/
theorem legible_head {symbol : String} {locator : List Lexeme} (hs : IsName symbol) (hl : Part locator)
    (rest : List Char) : Legible (headLexemes symbol locator) (' ' :: rest) := by
  have hmodule : IsName "module" := isName_word rfl rfl (by decide)
  refine legible_cons .nil hmodule rfl (endsAt_of_isStop hmodule (c := ' ') rfl) ?_
  have hlocator : written (regap [' '] locator ++ [⟨[' '], .assign, ['=']⟩]) ++ ' ' :: rest =
      ' ' :: (bare locator ++ ([' ', '='] ++ ' ' :: rest)) := by
    rw [written_append, written_regap _ hl.ne_nil]
    simp
  refine legible_cons (isGap_replicate 1 _) hs rfl ?_ (legible_append.2 ⟨hl.legible_regap 1 rfl _, ?_⟩)
  · rw [hlocator]
    exact endsAt_of_isStop hs rfl
  · exact legible_cons (isGap_replicate 1 _) isSpelled_assign rfl (endsAt_of_isStop isSpelled_assign rfl) trivial

/-- The head of a call is balanced. -/
theorem balanced_head {symbol : String} {locator : List Lexeme} (hl : Part locator) :
    Balanced ((headLexemes symbol locator).map (·.kind)) := by
  rw [headLexemes, List.map_cons, List.map_cons, List.map_append, map_kind_regap]
  exact Balanced.append (a := [.identifier, .identifier]) rfl (hl.balanced.append rfl)

/-- A condition in its parentheses can be read before white space. -/
theorem legible_condition {condition : Option (List Lexeme)} (h : ∀ ls, condition = some ls → Part ls)
    (rest : List Char) : Legible (conditionLexemes condition) (' ' :: rest) := by
  cases condition with
  | none => trivial
  | some ls =>
    have hls := h ls rfl
    have hif : IsSpelled .identifier ['i', 'f'] := ⟨'i', ['f'], rfl, rfl, List.all_eq_true.1 (by decide)⟩
    refine legible_cons (isGap_replicate 1 _) hif rfl (endsAt_of_isStop hif (c := ' ') rfl) ?_
    refine legible_cons (isGap_replicate 1 _) rfl rfl trivial (legible_append.2 ⟨hls.legible_regap 0 rfl _, ?_⟩)
    exact legible_cons .nil rfl rfl trivial trivial

/-- The condition of a call is balanced. -/
theorem balanced_condition {condition : Option (List Lexeme)} (h : ∀ ls, condition = some ls → Part ls) :
    Balanced ((conditionLexemes condition).map (·.kind)) := by
  cases condition with
  | none => rfl
  | some ls =>
    rw [conditionLexemes, List.map_cons, List.map_cons, List.map_append, map_kind_regap]
    refine Balanced.append (a := [.identifier]) rfl ?_
    exact (@Balanced.enclose _ _ _ .round) rfl (h ls rfl).balanced rfl

namespace CallLexemes

variable {parts : CallLexemes} {edited : EditedText} {call : ModuleCall}

/-- The condition of a call that is shown is part of a line. -/
theorem Show.condition_part (h : parts.Show edited call) : ∀ ls, parts.condition = some ls → Part ls := by
  intro ls hls
  have hc := h.condition
  rw [hls] at hc
  cases hcall : call.condition with
  | none => simp [hcall] at hc
  | some text =>
    rw [hcall] at hc
    exact hc.1

/-- What follows the head of a module call starts with white space. -/
theorem Show.written_tail (h : parts.Show edited call) (rest : List Char) :
    ∃ chars, written (conditionLexemes parts.condition ++ regap [' '] (parts.leaves.value 0 (.object call.body))) ++
      rest = ' ' :: chars := by
  have hne := (isLeaf_value h.body 0).1.ne_nil
  cases parts.condition with
  | none =>
    rw [conditionLexemes, List.nil_append, written_regap _ hne]
    exact ⟨_, rfl⟩
  | some ls => exact ⟨_, rfl⟩

/-- The lexemes of a module call can be read before anything. -/
theorem Show.legible (h : parts.Show edited call) (rest : List Char) : Legible (parts.all call) rest := by
  have hne := (isLeaf_value h.body 0).1.ne_nil
  refine legible_append.2 ⟨(isLines_decorators h.decorators).legible _, legible_append.2 ⟨?_, legible_append.2 ⟨?_,
    legible_object h.body rest⟩⟩⟩
  · obtain ⟨chars, hchars⟩ := h.written_tail rest
    rw [hchars]
    exact legible_head h.symbol h.locator.1 _
  · rw [written_regap _ hne]
    exact legible_condition h.condition_part _

/-- Brackets and strings of a module call are closed as they are opened. -/
theorem Show.balanced (h : parts.Show edited call) : Balanced ((parts.all call).map (·.kind)) := by
  rw [CallLexemes.all, List.map_append, List.map_append, List.map_append, map_kind_regap]
  refine (isLines_decorators h.decorators).balanced.append ((balanced_head h.locator.1).append ?_)
  exact (balanced_condition h.condition_part).append (isLeaf_value h.body 0).1.balanced

/-- A module call starts with a decorator or with its keyword. -/
theorem Show.exists_first (h : parts.Show edited call) :
    ∃ first others, parts.all call = first :: others ∧ first.gap = [] ∧
      (first.kind = .identifier ∨ first.kind = .atSign) := by
  unfold CallLexemes.all
  cases hd : call.decorators with
  | nil => exact ⟨_, _, rfl, rfl, .inl rfl⟩
  | cons d ds =>
    obtain ⟨-, -, l, rest, hl, hk⟩ := h.decorators d (by simp [hd])
    simp only [decoratorLexemes, List.flatMap_cons, hl]
    exact ⟨_, _, rfl, rfl, .inr hk⟩

/-- A module call can be written in place of a statement. -/
theorem Show.exists_isBlock (h : parts.Show edited call) :
    ∃ first others, parts.all call = first :: others ∧ IsBlock first others ∧
      call.render edited = String.ofList (bare (first :: others)) := by
  obtain ⟨first, others, hall, hgap, hk⟩ := h.exists_first
  have hbalanced := h.balanced
  have hlegible := h.legible
  rw [hall] at hbalanced hlegible
  refine ⟨first, others, hall, ⟨hk, hbalanced, hlegible⟩, ?_⟩
  have hw : bare (first :: others) = written (parts.all call) := by
    rw [hall, written_cons, hgap]
    rfl
  have hne := (isLeaf_value h.body 0).1.ne_nil
  have hbody := (isLeaf_value h.body 0).2
  have hdecorators := (isLines_decorators h.decorators).text
  have hhead : (call.header).toList = written (headLexemes call.symbol parts.locator ++
      conditionLexemes parts.condition) ++ [' '] := by
    have hc := h.condition
    rw [ModuleCall.header, written_append, headLexemes]
    simp only [written_cons, written_append, written_regap _ h.locator.1.ne_nil, ← h.locator.2]
    cases hcall : call.condition with
    | none =>
      cases hparts : parts.condition with
      | some ls => simp [hcall, hparts] at hc
      | none => simp [conditionLexemes, nameLexeme]
    | some text =>
      cases hparts : parts.condition with
      | none => simp [hcall, hparts] at hc
      | some ls =>
        simp only [hcall, hparts] at hc
        simp [conditionLexemes, nameLexeme, written_regap _ hc.1.ne_nil, hc.2]
  rw [hw, ← String.toList_inj, String.toList_ofList, ModuleCall.render, CallLexemes.all]
  simp only [String.toList_append, hdecorators, hhead, hbody, written_append, written_regap _ hne]
  simp

end CallLexemes

end BicepMigration.Template
