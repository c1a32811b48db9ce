import BicepMigration.Proofs.Template.LexemeText
import BicepMigration.Proofs.Template.Nesting

/-!
# Steps of the reader

A step in code passes over a part of a gap or takes a token; a step in a string takes its text and the mark
after it. Each token that is spelled and ends where the text goes on is taken by a step, and a step takes no
other. Errors are not described: only what a step that succeeds does.
-/

namespace BicepMigration.Template

open Text

/-- The digits by their numbers. -/
theorem isDigit_iff {c : Char} : c.isDigit = true ↔ 48 ≤ c.toNat ∧ c.toNat ≤ 57 := by
  simp only [Char.isDigit, Bool.and_eq_true, decide_eq_true_eq]
  exact Iff.rfl

/-- The characters that start a name, by their numbers. -/
theorem isNameStart_iff {c : Char} : isNameStart c = true ↔
    c.toNat = 95 ∨ (65 ≤ c.toNat ∧ c.toNat ≤ 90) ∨ (97 ≤ c.toNat ∧ c.toNat ≤ 122) := by
  have hstart : isNameStart c = (decide (c = '_') ||
      (decide (c.val ≥ 65 ∧ c.val ≤ 90) || (decide (c.val ≥ 97) && decide (c.val ≤ 122)))) := rfl
  simp only [hstart, Bool.or_eq_true, Bool.and_eq_true, decide_eq_true_eq]
  refine or_congr ⟨?_, ?_⟩ Iff.rfl
  · rintro rfl
    rfl
  · intro h
    exact Char.toNat_inj.1 h

theorem ne_of_toNat_ne {c d : Char} (h : c.toNat ≠ d.toNat) : c ≠ d := fun e => h (congrArg Char.toNat e)

/-- A character that starts a name or a number starts nothing else. -/
theorem plain_of_wordChar {c : Char} (h : isNameStart c = true ∨ c.isDigit = true) :
    c ≠ '\n' ∧ isBlank c = false ∧ c ≠ '#' ∧ c ≠ '/' ∧ c ≠ '\'' := by
  have hn : (48 ≤ c.toNat ∧ c.toNat ≤ 57) ∨ c.toNat = 95 ∨ (65 ≤ c.toNat ∧ c.toNat ≤ 90) ∨
      (97 ≤ c.toNat ∧ c.toNat ≤ 122) := by
    rcases h with h | h
    · exact .inr (isNameStart_iff.1 h)
    · exact .inl (isDigit_iff.1 h)
  refine ⟨ne_of_toNat_ne ?_, ?_, ne_of_toNat_ne ?_, ne_of_toNat_ne ?_, ne_of_toNat_ne ?_⟩
  · simp
    omega
  · simp [isBlank]
    omega
  · simp
    omega
  · simp
    omega
  · simp
    omega

/-- No digit starts a name. -/
theorem isDigit_of_isNameStart {c : Char} (h : isNameStart c = true) : c.isDigit = false := by
  have hn := isNameStart_iff.1 h
  rw [Bool.eq_false_iff]
  intro hd
  have := isDigit_iff.1 hd
  omega

/-- What may come next in a mode of the reader. -/
def LexMode.zone : LexMode → Zone
  | .code => .code
  | .string => .string

/-- The nest that a reader stands in. -/
def LexState.nest (s : LexState) : Nest := ⟨s.mode.zone, s.opened.map (·.bracket)⟩

/-- A step takes a token: what it gives, and where the reader stands then. -/
def LexState.Takes (s : LexState) (kind : TokenKind) (text rest : List Char) (n : Nest) : Prop :=
  ∃ after, s.step = some (.ok ([Token.ofChars kind s.here text], after)) ∧
    after.here = s.here.advance text ∧ after.rest = rest ∧ after.nest = n

/-- In code a step looks at the next character. -/
theorem step_code {s : LexState} {c : Char} {cs : List Char} (hm : s.mode = .code) (hr : s.rest = c :: cs) :
    s.step = some (codeStep s c cs) := by
  simp only [LexState.step, hm, hr]

/-- Reading a name. -/
theorem takes_identifier {s : LexState} {text rest : List Char} (hm : s.mode = .code)
    (hr : s.rest = text ++ rest) (hs : IsSpelled .identifier text) (he : EndsAt .identifier text rest) :
    s.Takes .identifier text rest s.nest := by
  obtain ⟨c, cs, rfl, hc, hcs⟩ := hs
  obtain ⟨h₁, h₂, h₃, h₄, h₅⟩ := plain_of_wordChar (.inl hc)
  have hd := isDigit_of_isNameStart hc
  have ht : rest.takeWhile isNamePart = [] ∧ rest.dropWhile isNamePart = rest := by
    cases rest with
    | nil => exact ⟨rfl, rfl⟩
    | cons d rest =>
      have hd : isNamePart d = false := he d rfl
      simp [hd]
  rw [List.cons_append] at hr
  refine ⟨s.skip (c :: cs) rest, ?_, rfl, rfl, rfl⟩
  rw [step_code hm hr, codeStep]
  rw [List.takeWhile_append_of_pos hcs, List.dropWhile_append_of_pos hcs, ht.1, ht.2]
  simp [h₁, h₂, h₃, h₄, h₅, hd, hc, LexState.emit]

/-- Reading a number. -/
theorem takes_number {s : LexState} {text rest : List Char} (hm : s.mode = .code)
    (hr : s.rest = text ++ rest) (hs : IsSpelled .number text) (he : EndsAt .number text rest) :
    s.Takes .number text rest s.nest := by
  obtain ⟨c, cs, rfl, hc, hcs⟩ := hs
  obtain ⟨h₁, h₂, h₃, h₄, h₅⟩ := plain_of_wordChar (.inr hc)
  rw [List.cons_append] at hr
  refine ⟨s.skip (c :: cs) rest, ?_, rfl, rfl, rfl⟩
  rw [step_code hm hr, codeStep, splitNumber_append_right hcs he]
  simp [h₁, h₂, h₃, h₄, h₅, hc, LexState.emit]

/-- Reading a string between triple quotes. -/
theorem takes_multiline {s : LexState} {text rest : List Char} (hm : s.mode = .code)
    (hr : s.rest = text ++ rest) (hs : IsSpelled .multilineString text) :
    s.Takes .multilineString text rest s.nest := by
  obtain ⟨body, rfl, hb⟩ := hs
  have hb' := throughFirst_append_right hb rest
  simp only [List.cons_append] at hr
  refine ⟨s.skip ('\'' :: '\'' :: '\'' :: body) rest, ?_, rfl, rfl, rfl⟩
  have hblank : isBlank '\'' = false := by decide
  rw [step_code hm hr, codeStep]
  simp only [List.take_succ_cons, List.take_zero, List.drop_succ_cons, List.drop_zero, hb', List.nil_append]
  simp [hblank, LexState.emit]

/-- Reading a mark. -/
theorem takes_mark {s : LexState} {kind : TokenKind} {text rest : List Char} (hm : s.mode = .code)
    (hr : s.rest = text ++ rest) (hs : IsMark kind text)
    (he : ∀ c, text = [c] → markAt c rest.head? = (kind, 1) ∧
      (c = '/' → rest.head? ≠ some '/' ∧ rest.head? ≠ some '*')) :
    s.Takes kind text rest s.nest := by
  obtain ⟨c, ⟨h₁, h₂, h₃, h₄, h₅, h₆, h₇, h₈⟩, hs⟩ := hs
  refine ⟨s.skip text rest, ?_, rfl, rfl, rfl⟩
  rcases hs with ⟨rfl, -⟩ | ⟨d, rfl, hd⟩
  · obtain ⟨hk, hslash⟩ := he c rfl
    rw [step_code hm hr, codeStep]
    by_cases hc : c = '/'
    · subst hc
      simp [h₂, h₅, h₆, h₇, h₈, hk, hslash rfl, LexState.emit]
    · simp [h₁, h₂, h₃, h₄, h₅, h₆, h₇, h₈, hk, hc, LexState.emit]
  · have hc : c ≠ '/' := by
      rintro rfl
      simp [markAt] at hd
    rw [step_code hm hr, codeStep]
    simp [h₁, h₂, h₃, h₄, h₅, h₆, h₇, h₈, hd, hc, LexState.emit]

/-- Reading a mark that opens a bracket. -/
theorem takes_opening {s : LexState} {c : Char} {rest : List Char} {bracket : Bracket} {kind : TokenKind}
    (hm : s.mode = .code) (hr : s.rest = [c] ++ rest) (hc : bracketOpenedBy c = some (bracket, kind)) :
    s.Takes kind [c] rest ⟨.code, bracket :: s.nest.opened⟩ := by
  have hc' : c = '{' ∨ c = '[' ∨ c = '(' := by
    unfold bracketOpenedBy at hc
    split at hc
    · exact .inl ‹_›
    · split at hc
      · exact .inr (.inl ‹_›)
      · split at hc
        · exact .inr (.inr ‹_›)
        · simp at hc
  have hb : isBlank c = false := by rcases hc' with rfl | rfl | rfl <;> decide
  have hn : isNameStart c = false := by rcases hc' with rfl | rfl | rfl <;> decide
  have hd : c.isDigit = false := by rcases hc' with rfl | rfl | rfl <;> decide
  have hq : c ≠ '\n' ∧ c ≠ '#' ∧ c ≠ '/' ∧ c ≠ '\'' := by rcases hc' with rfl | rfl | rfl <;> decide
  obtain ⟨mode, here, opened, rest'⟩ := s
  simp only at hm hr
  subst hm
  refine ⟨⟨.code, here.advance [c], ⟨bracket, here.line, here.column⟩ :: opened, rest⟩, ?_, rfl, rfl, rfl⟩
  rw [step_code rfl hr, codeStep]
  simp [hb, hn, hd, hq, hc, LexState.emit, LexState.skip]

/-- Reading a mark that closes a bracket. -/
theorem takes_closing {s : LexState} {c : Char} {rest : List Char} {bracket : Bracket} {kind : TokenKind}
    {outer : List Bracket} (hm : s.mode = .code) (hr : s.rest = [c] ++ rest)
    (hc : bracketClosedBy c = some (bracket, kind)) (ho : s.nest.opened = bracket :: outer) :
    s.Takes kind [c] rest ⟨.code, outer⟩ := by
  have hc' : (c = '}' ∧ bracket = .brace) ∨ c = ']' ∨ c = ')' := by
    unfold bracketClosedBy at hc
    split at hc
    · simp only [Option.some.injEq, Prod.mk.injEq] at hc
      exact .inl ⟨‹_›, hc.1.symm⟩
    · split at hc
      · exact .inr (.inl ‹_›)
      · split at hc
        · exact .inr (.inr ‹_›)
        · simp at hc
  have hopen : bracketOpenedBy c = none := by rcases hc' with ⟨rfl, -⟩ | rfl | rfl <;> rfl
  have hb : isBlank c = false := by rcases hc' with ⟨rfl, -⟩ | rfl | rfl <;> decide
  have hn : isNameStart c = false := by rcases hc' with ⟨rfl, -⟩ | rfl | rfl <;> decide
  have hd : c.isDigit = false := by rcases hc' with ⟨rfl, -⟩ | rfl | rfl <;> decide
  have hq : c ≠ '\n' ∧ c ≠ '#' ∧ c ≠ '/' ∧ c ≠ '\'' := by rcases hc' with ⟨rfl, -⟩ | rfl | rfl <;> decide
  obtain ⟨mode, here, opened, rest'⟩ := s
  simp only at hm hr
  subst hm
  cases opened with
  | nil => simp [LexState.nest] at ho
  | cons o opened =>
    simp only [LexState.nest, List.map_cons, List.cons.injEq] at ho
    obtain ⟨hob, rfl⟩ := ho
    have hhole : c = '}' → bracket ≠ .hole := by
      rintro rfl
      rcases hc' with ⟨-, rfl⟩ | h | h
      · decide
      · simp at h
      · simp at h
    refine ⟨⟨.code, here.advance [c], opened, rest⟩, ?_, rfl, rfl, rfl⟩
    rw [step_code rfl hr, codeStep]
    simpa [hb, hn, hd, hq, hopen, hc, hob, LexState.emit, LexState.skip] using hhole

/-- Reading the mark that closes a hole. -/
theorem takes_holeEnd {s : LexState} {rest : List Char} {outer : List Bracket} (hm : s.mode = .code)
    (hr : s.rest = ['}'] ++ rest) (ho : s.nest.opened = .hole :: outer) :
    s.Takes .holeEnd ['}'] rest ⟨.string, outer⟩ := by
  obtain ⟨mode, here, opened, rest'⟩ := s
  simp only at hm hr
  subst hm
  cases opened with
  | nil => simp [LexState.nest] at ho
  | cons o opened =>
    simp only [LexState.nest, List.map_cons, List.cons.injEq] at ho
    obtain ⟨hob, rfl⟩ := ho
    refine ⟨⟨.string, here.advance ['}'], opened, rest⟩, ?_, rfl, rfl, rfl⟩
    have hb : isBlank '}' = false := by decide
    have hn : isNameStart '}' = false := by decide
    rw [step_code rfl hr, codeStep]
    simp [hb, hn, hob, bracketOpenedBy, bracketClosedBy, LexState.emit, LexState.skip]

/-- Reading the quote that opens a string. -/
theorem takes_stringStart {s : LexState} {rest : List Char} (hm : s.mode = .code)
    (hr : s.rest = ['\''] ++ rest) (he : EndsAt .stringStart ['\''] rest) :
    s.Takes .stringStart ['\''] rest ⟨.string, s.nest.opened⟩ := by
  refine ⟨{ s with mode := .string }.skip ['\''] rest, ?_, rfl, rfl, rfl⟩
  have hb : isBlank '\'' = false := by decide
  simp only [EndsAt] at he
  rw [step_code hm hr, codeStep]
  simp [hb, he, LexState.emit]

/-- Reading a newline. -/
theorem takes_newline {s : LexState} {rest : List Char} (hm : s.mode = .code) (hr : s.rest = ['\n'] ++ rest) :
    s.Takes .newline ['\n'] rest s.nest := by
  refine ⟨s.skip ['\n'] rest, ?_, rfl, rfl, rfl⟩
  rw [step_code hm hr, codeStep]
  simp [LexState.emit]

/-- Reading a token of code. -/
theorem takes_of_after {s : LexState} {kind : TokenKind} {text rest : List Char} {n : Nest}
    (hm : s.mode = .code) (hr : s.rest = text ++ rest) (hs : IsSpelled kind text) (he : EndsAt kind text rest)
    (hn : s.nest.after kind = some n) : s.Takes kind text rest n := by
  have hz : s.nest = ⟨.code, s.nest.opened⟩ := by simp [LexState.nest, hm, LexMode.zone]
  rw [hz] at hn
  cases kind with
  | identifier =>
    obtain rfl : s.nest = n := hz.trans (Option.some.inj hn)
    exact takes_identifier hm hr hs he
  | number =>
    obtain rfl : s.nest = n := hz.trans (Option.some.inj hn)
    exact takes_number hm hr hs he
  | stringStart =>
    obtain rfl : text = ['\''] := hs
    obtain rfl := Option.some.inj hn
    exact takes_stringStart hm hr he
  | stringText | holeStart | stringEnd => simp [Nest.after] at hn
  | multilineString =>
    obtain rfl : s.nest = n := hz.trans (Option.some.inj hn)
    exact takes_multiline hm hr hs
  | newline =>
    obtain rfl : text = ['\n'] := hs
    obtain rfl : s.nest = n := hz.trans (Option.some.inj hn)
    exact takes_newline hm hr
  | braceOpen =>
    obtain rfl : text = ['{'] := hs
    obtain rfl := Option.some.inj hn
    exact takes_opening hm hr rfl
  | bracketOpen =>
    obtain rfl : text = ['['] := hs
    obtain rfl := Option.some.inj hn
    exact takes_opening hm hr rfl
  | parenOpen =>
    obtain rfl : text = ['('] := hs
    obtain rfl := Option.some.inj hn
    exact takes_opening hm hr rfl
  | braceClose =>
    obtain rfl : text = ['}'] := hs
    obtain ⟨outer, ho, rfl⟩ := Nest.opened_of_close hn
    exact takes_closing hm hr rfl ho
  | bracketClose =>
    obtain rfl : text = [']'] := hs
    obtain ⟨outer, ho, rfl⟩ := Nest.opened_of_close hn
    exact takes_closing hm hr rfl ho
  | parenClose =>
    obtain rfl : text = [')'] := hs
    obtain ⟨outer, ho, rfl⟩ := Nest.opened_of_close hn
    exact takes_closing hm hr rfl ho
  | holeEnd =>
    obtain rfl : text = ['}'] := hs
    obtain ⟨outer, ho, rfl⟩ := Nest.opened_of_close hn
    exact takes_holeEnd hm hr ho
  | colon | comma | dot | question | atSign | assign | operator =>
    obtain rfl : s.nest = n := hz.trans (Option.some.inj hn)
    exact takes_mark hm hr hs he

/-- The token of the text of a string, if there is any text. -/
def textToken (here : Cursor) (text : List Char) : List Token :=
  if text = [] then [] else [Token.ofChars .stringText here text]

/-- A string stops at a hole. -/
theorem step_hole {s : LexState} {text rest : List Char} (hm : s.mode = .string)
    (hs : splitString s.rest = some (text, '$' :: '{' :: rest)) :
    s.step = some (.ok (textToken s.here text ++ [Token.ofChars .holeStart (s.here.advance text) ['$', '{']],
      ⟨.code, (s.here.advance text).advance ['$', '{'],
        ⟨.hole, (s.here.advance text).line, (s.here.advance text).column⟩ :: s.opened, rest⟩)) := by
  simp only [LexState.step, hm, stringStep, hs]
  simp [textToken, LexState.emit, LexState.skip]

/-- A string ends at its quote. -/
theorem step_stringEnd {s : LexState} {text rest : List Char} (hm : s.mode = .string)
    (hs : splitString s.rest = some (text, '\'' :: rest)) :
    s.step = some (.ok (textToken s.here text ++ [Token.ofChars .stringEnd (s.here.advance text) ['\'']],
      ⟨.code, (s.here.advance text).advance ['\''], s.opened, rest⟩)) := by
  simp only [LexState.step, hm, stringStep, hs]
  simp [textToken, LexState.emit, LexState.skip]

/-- A gap does not start with a newline. -/
theorem IsGap.head_ne_newline {c : Char} {cs next : List Char} (h : IsGap (c :: cs) next) : c ≠ '\n' := by
  generalize hg : c :: cs = gap at h
  cases h with
  | nil => simp at hg
  | blank hc _ _ =>
    obtain ⟨rfl, -⟩ := List.cons.inj hg
    exact hc
  | block _ _ =>
    obtain ⟨rfl, -⟩ := List.cons.inj hg
    decide
  | line ho _ _ =>
    rcases ho with rfl | rfl <;>
    · obtain ⟨rfl, -⟩ := List.cons.inj hg
      decide

/-- What a step in code does: it passes over a part of a gap, or it takes a token. -/
inductive CodeStep (s : LexState) (cs : List Char) : List Token → LexState → Prop where
  | pass {gap rest : List Char} : cs = gap ++ rest →
      (∀ more next, IsGap more next → more ++ next = rest → IsGap (gap ++ more) next) →
      CodeStep s cs [] (s.skip gap rest)
  | take {kind : TokenKind} {text : List Char} {after : LexState} : cs = text ++ after.rest →
      IsSpelled kind text → EndsAt kind text after.rest → after.here = s.here.advance text →
      s.nest.after kind = some after.nest → CodeStep s cs [Token.ofChars kind s.here text] after

theorem of_mem_takeWhile {p : Char → Bool} {cs : List Char} {c : Char} (h : c ∈ cs.takeWhile p) : p c = true :=
  List.all_eq_true.1 List.all_takeWhile c h

theorem not_of_head_dropWhile {p : Char → Bool} {cs : List Char} {c : Char}
    (h : (cs.dropWhile p).head? = some c) : p c = false := by
  have hn := List.head?_dropWhile_not p cs
  rw [h] at hn
  exact hn

/-- A comment goes on to the end of its line, so nothing of a gap follows it there. -/
theorem isGap_line {opening cs more next : List Char} (ho : opening = ['#'] ∨ opening = ['/', '/'])
    (hg : IsGap more next) (hr : more ++ next = cs.dropWhile (· ≠ '\n')) :
    IsGap (opening ++ cs.takeWhile (· ≠ '\n') ++ more) next := by
  have hmore : more = [] := by
    cases more with
    | nil => rfl
    | cons c more =>
      have hc := hg.head_ne_newline
      have hn := (@not_of_head_dropWhile (· ≠ '\n') cs c) (by rw [← hr]; rfl)
      exact absurd (by simpa using hn) hc
  subst hmore
  rw [List.append_nil]
  refine .line ho (fun c hc => by simpa using of_mem_takeWhile hc) fun c hc => ?_
  rw [List.nil_append] at hr
  have hd := (@not_of_head_dropWhile (· ≠ '\n') cs) (hr ▸ hc)
  simpa using hd

/-- A bracket that opens is spelled by its character and is put on the others. -/
theorem bracketOpenedBy_eq_some {c : Char} {bracket : Bracket} {kind : TokenKind}
    (h : bracketOpenedBy c = some (bracket, kind)) :
    IsSpelled kind [c] ∧ (∀ rest, EndsAt kind [c] rest) ∧
      ∀ opened, Nest.after ⟨.code, opened⟩ kind = some ⟨.code, bracket :: opened⟩ := by
  unfold bracketOpenedBy at h
  repeat' split at h
  all_goals simp only [Option.some.injEq, Prod.mk.injEq, reduceCtorEq] at h
  all_goals
    obtain ⟨rfl, rfl⟩ := h
    subst_vars
    exact ⟨rfl, fun _ => trivial, fun _ => rfl⟩

/-- A bracket that closes is spelled by its character and takes the last one away. -/
theorem bracketClosedBy_eq_some {c : Char} {bracket : Bracket} {kind : TokenKind}
    (h : bracketClosedBy c = some (bracket, kind)) :
    IsSpelled kind [c] ∧ (∀ rest, EndsAt kind [c] rest) ∧
      ∀ opened, Nest.after ⟨.code, bracket :: opened⟩ kind = some ⟨.code, opened⟩ := by
  unfold bracketClosedBy at h
  repeat' split at h
  all_goals simp only [Option.some.injEq, Prod.mk.injEq, reduceCtorEq] at h
  all_goals
    obtain ⟨rfl, rfl⟩ := h
    subst_vars
    exact ⟨rfl, fun _ => trivial, fun _ => rfl⟩

/-- A mark makes a token of its kind. -/
theorem isSpelled_of_mem_markKinds {kind : TokenKind} (hk : kind ∈ markKinds) {text rest : List Char}
    (hm : IsMark kind text)
    (he : ∀ d, text = [d] → markAt d rest.head? = (kind, 1) ∧
      (d = '/' → rest.head? ≠ some '/' ∧ rest.head? ≠ some '*')) :
    IsSpelled kind text ∧ EndsAt kind text rest ∧
      ∀ opened, Nest.after ⟨.code, opened⟩ kind = some ⟨.code, opened⟩ := by
  simp only [markKinds, List.mem_cons, List.not_mem_nil, or_false] at hk
  rcases hk with rfl | rfl | rfl | rfl | rfl | rfl | rfl <;> exact ⟨hm, he, fun _ => rfl⟩

section CodeSteps

variable {s after : LexState} {c : Char} {cs text rest : List Char} {ts : List Token}

/-- In code no string is open. -/
theorem LexState.nest_of_code (hm : s.mode = .code) : s.nest = ⟨.code, s.nest.opened⟩ := by
  simp [LexState.nest, hm, LexMode.zone]

/-- Reading a token that opens and closes nothing. -/
theorem CodeStep.keep {kind : TokenKind} (hm : s.mode = .code) (hcs : cs = text ++ rest) (hs : IsSpelled kind text)
    (he : EndsAt kind text rest) (hk : ∀ opened, Nest.after ⟨.code, opened⟩ kind = some ⟨.code, opened⟩) :
    CodeStep s cs [Token.ofChars kind s.here text] (s.skip text rest) := by
  refine .take hcs hs he rfl ?_
  change s.nest.after kind = some s.nest
  rw [LexState.nest_of_code hm]
  exact hk _

/-- Reading a comment up to the end of its line. -/
theorem codeStep_lineComment (h : (c = '#' || (c = '/' && cs.head? = some '/')) = true) :
    CodeStep s (c :: cs) [] (s.skip (c :: cs.takeWhile (· ≠ '\n')) (cs.dropWhile (· ≠ '\n'))) := by
  refine .pass (by simp) fun more next hg hr => ?_
  simp only [Bool.or_eq_true, Bool.and_eq_true, decide_eq_true_eq] at h
  rcases h with rfl | ⟨rfl, hslash⟩
  · exact isGap_line (.inl rfl) hg hr
  · obtain ⟨cs, rfl⟩ := List.head?_eq_some_iff.1 hslash
    exact (@isGap_line _ cs) (.inr rfl) hg hr

/-- Reading a comment up to the mark that ends it. -/
theorem codeStep_blockComment (hstar : cs.head? = some '*') (ht : throughFirst ['*', '/'] cs.tail = some (text, rest)) :
    CodeStep s ('/' :: cs) [] (s.skip ('/' :: '*' :: text) rest) := by
  obtain ⟨body, rfl⟩ := List.head?_eq_some_iff.1 hstar
  have hbody := throughFirst_append ht
  rw [List.tail_cons] at hbody
  exact .pass (by rw [← hbody]; rfl) fun more next hg _ => .block (throughFirst_self ht) hg

/-- Reading a string between triple quotes. -/
theorem codeStep_multiline (hm : s.mode = .code) (htwo : cs.take 2 = ['\'', '\''])
    (ht : throughFirst ['\'', '\'', '\''] (cs.drop 2) = some (text, rest)) :
    CodeStep s ('\'' :: cs) [Token.ofChars .multilineString s.here ('\'' :: '\'' :: '\'' :: text)]
      (s.skip ('\'' :: '\'' :: '\'' :: text) rest) := by
  have hcs : cs = '\'' :: '\'' :: (text ++ rest) := by
    rw [throughFirst_append ht, ← List.take_append_drop 2 cs, htwo]
    rfl
  exact .keep hm (by rw [hcs]; rfl) ⟨text, rfl, throughFirst_self ht⟩ trivial fun _ => rfl

/-- Reading a bracket that closes the one that was opened last. -/
theorem codeStep_close {bracket : Bracket} {kind : TokenKind} {opened : OpenBracket} {outer : List OpenBracket}
    (hm : s.mode = .code) (hc : bracketClosedBy c = some (bracket, kind)) (ho : s.opened = opened :: outer)
    (hb : opened.bracket = bracket) :
    CodeStep s (c :: cs) [Token.ofChars kind s.here [c]] ({ s with opened := outer }.skip [c] cs) := by
  obtain ⟨hs, he, ha⟩ := bracketClosedBy_eq_some hc
  refine .take rfl hs (he _) rfl ?_
  rw [LexState.nest_of_code hm]
  simp only [LexState.nest, LexState.skip, hm, LexMode.zone, ho, List.map_cons, hb]
  exact ha _

/-- Reading a brace that ends a hole. -/
theorem codeStep_holeEnd {opened : OpenBracket} {outer : List OpenBracket} (hm : s.mode = .code)
    (ho : s.opened = opened :: outer) (hb : opened.bracket = .hole) :
    CodeStep s ('\x7d' :: cs) [Token.ofChars .holeEnd s.here ['\x7d']]
      ({ s with mode := .string, opened := outer }.skip ['\x7d'] cs) := by
  refine .take rfl rfl trivial rfl ?_
  simp [LexState.nest, LexState.skip, hm, LexMode.zone, ho, hb, Nest.after, Nest.close]

/-- Reading a mark. -/
theorem codeStep_mark (hm : s.mode = .code) (hchar : IsMarkChar c)
    (hslash : c = '/' → cs.head? ≠ some '/' ∧ cs.head? ≠ some '*') :
    CodeStep s (c :: cs) [Token.ofChars (markAt c cs.head?).1 s.here (c :: cs.take ((markAt c cs.head?).2 - 1))]
      (s.skip (c :: cs.take ((markAt c cs.head?).2 - 1)) (cs.drop ((markAt c cs.head?).2 - 1))) := by
  obtain ⟨kind, hk, hnone, hnext | ⟨hnext, e, -, he⟩⟩ := markAt_cases c cs.head?
  · have hmark : IsMark kind [c] := ⟨c, hchar, .inl ⟨rfl, hnone⟩⟩
    obtain ⟨hs, he, ha⟩ := (@isSpelled_of_mem_markKinds _ hk _ cs) hmark fun d hd => by
      obtain rfl : c = d := by simpa using hd
      exact ⟨hnext, hslash⟩
    rw [hnext]
    exact .keep hm rfl hs he ha
  · obtain ⟨cs, rfl⟩ := List.head?_eq_some_iff.1 he
    rw [he] at hnext
    have hmark : IsMark .operator [c, e] := ⟨c, hchar, .inr ⟨e, rfl, hnext⟩⟩
    obtain ⟨hs, he, ha⟩ := (@isSpelled_of_mem_markKinds _ (by decide) _ cs) hmark fun d hd => by simp at hd
    rw [List.head?_cons, hnext]
    exact .keep hm rfl hs he ha

/-- What a step in code can be. -/
theorem codeStep_cases (hm : s.mode = .code) (h : codeStep s c cs = .ok (ts, after)) :
    CodeStep s (c :: cs) ts after := by
  unfold codeStep at h
  by_cases hnewline : c = '\n'
  · rw [if_pos hnewline] at h
    obtain ⟨rfl, rfl⟩ := Prod.mk.inj (Except.ok.inj h)
    subst hnewline
    exact .keep hm rfl rfl trivial fun _ => rfl
  rw [if_neg hnewline] at h
  by_cases hblank : isBlank c = true
  · rw [if_pos hblank] at h
    obtain ⟨rfl, rfl⟩ := Prod.mk.inj (Except.ok.inj h)
    exact .pass rfl fun more next hg _ => .blank hnewline hblank hg
  rw [if_neg hblank] at h
  by_cases hline : (c = '#' || (c = '/' && cs.head? = some '/')) = true
  · rw [if_pos hline] at h
    obtain ⟨rfl, rfl⟩ := Prod.mk.inj (Except.ok.inj h)
    exact codeStep_lineComment hline
  rw [if_neg hline] at h
  by_cases hblock : (c = '/' && cs.head? = some '*') = true
  · rw [if_pos hblock] at h
    simp only [Bool.and_eq_true, decide_eq_true_eq] at hblock
    obtain ⟨rfl, hstar⟩ := hblock
    split at h
    · cases h
    · next ht =>
      obtain ⟨rfl, rfl⟩ := Prod.mk.inj (Except.ok.inj h)
      exact codeStep_blockComment hstar ht
  rw [if_neg hblock] at h
  by_cases hquote : c = '\''
  · rw [if_pos hquote] at h
    subst hquote
    split at h
    · next htwo =>
      split at h
      · cases h
      · next ht =>
        obtain ⟨rfl, rfl⟩ := Prod.mk.inj (Except.ok.inj h)
        exact codeStep_multiline hm htwo ht
    · next htwo =>
      obtain ⟨rfl, rfl⟩ := Prod.mk.inj (Except.ok.inj h)
      refine .take rfl rfl htwo rfl ?_
      rw [LexState.nest_of_code hm]
      rfl
  rw [if_neg hquote] at h
  by_cases hdigit : c.isDigit = true
  · rw [if_pos hdigit] at h
    obtain ⟨rfl, rfl⟩ := Prod.mk.inj (Except.ok.inj h)
    obtain ⟨hself, hrest⟩ := splitNumber_self cs
    have happ : c :: cs = (c :: (splitNumber cs).1) ++ (splitNumber cs).2 := by
      rw [List.cons_append, splitNumber_append]
    exact .keep hm happ ⟨c, _, rfl, hdigit, hself⟩ hrest fun _ => rfl
  rw [if_neg hdigit] at h
  by_cases hname : isNameStart c = true
  · rw [if_pos hname] at h
    obtain ⟨rfl, rfl⟩ := Prod.mk.inj (Except.ok.inj h)
    exact .keep hm (by simp) ⟨c, _, rfl, hname, fun d hd => of_mem_takeWhile hd⟩
      (fun d hd => not_of_head_dropWhile hd) fun _ => rfl
  rw [if_neg hname] at h
  split at h
  · next bracket kind ho =>
    obtain ⟨rfl, rfl⟩ := Prod.mk.inj (Except.ok.inj h)
    obtain ⟨hs, he, ha⟩ := bracketOpenedBy_eq_some ho
    refine .take rfl hs (he _) rfl ?_
    rw [LexState.nest_of_code hm, ha]
    simp [LexState.nest, LexState.skip, hm, LexMode.zone]
  · next ho =>
    split at h
    · next bracket kind hc =>
      split at h
      · cases h
      · next opened outer hopened =>
        split at h
        · next hhole =>
          simp only [Bool.and_eq_true, decide_eq_true_eq] at hhole
          obtain ⟨rfl, hb⟩ := hhole
          obtain ⟨rfl, rfl⟩ := Prod.mk.inj (Except.ok.inj h)
          exact codeStep_holeEnd hm hopened hb
        · split at h
          · next hb =>
            obtain ⟨rfl, rfl⟩ := Prod.mk.inj (Except.ok.inj h)
            exact codeStep_close hm hc hopened hb
          · cases h
    · next hc =>
      obtain ⟨rfl, rfl⟩ := Prod.mk.inj (Except.ok.inj h)
      refine codeStep_mark hm ⟨hnewline, by simpa using hblank, fun h => hline (by simp [h]), hquote,
        by simpa using hdigit, by simpa using hname, ho, hc⟩ ?_
      rintro rfl
      exact ⟨by simpa using hline, by simpa using hblock⟩

end CodeSteps

/-- A step in a string takes its text, if there is any, and the mark after it. -/
theorem stringStep_cases {s after : LexState} {ts : List Token} (h : stringStep s = .ok (ts, after)) :
    ∃ text kind mark, s.rest = text ++ (mark ++ after.rest) ∧ (text = [] ∨ IsSpelled .stringText text) ∧
      IsSpelled kind mark ∧ (∀ rest, EndsAt kind mark rest) ∧
      Nest.after ⟨.closing, s.nest.opened⟩ kind = some after.nest ∧
      after.here = (s.here.advance text).advance mark ∧
      ts = textToken s.here text ++ [Token.ofChars kind (s.here.advance text) mark] := by
  unfold stringStep at h
  split at h
  · simp [LexState.fail] at h
  · next text rest hs =>
    have happ := splitString_append hs
    obtain ⟨hself, hends⟩ := splitString_self hs
    have ht : text = [] ∨ IsSpelled .stringText text := by
      by_cases ht : text = []
      · exact .inl ht
      · exact .inr ⟨ht, hself⟩
    rcases hends with hq | ⟨cs, rfl⟩
    · cases rest with
      | nil => simp at hq
      | cons c cs =>
        obtain rfl : c = '\'' := by simpa using hq
        obtain ⟨rfl, rfl⟩ := Prod.mk.inj (Except.ok.inj h)
        exact ⟨text, .stringEnd, ['\''], happ.symm, ht, rfl, fun _ => trivial, rfl, rfl, rfl⟩
    · obtain ⟨rfl, rfl⟩ := Prod.mk.inj (Except.ok.inj h)
      exact ⟨text, .holeStart, ['$', '{'], happ.symm, ht, rfl, fun _ => trivial, rfl, rfl, rfl⟩

/-- A step passes over characters. -/
theorem exists_walk_of_step {s after : LexState} {ts : List Token} (h : s.step = some (.ok (ts, after))) :
    ∃ text, s.rest = text ++ after.rest ∧ after.here = s.here.advance text := by
  cases hm : s.mode with
  | code =>
    cases hr : s.rest with
    | nil => simp [LexState.step, hm, hr] at h
    | cons c cs =>
      rw [step_code hm hr, Option.some.injEq] at h
      cases codeStep_cases hm h with
      | pass hr' _ => exact ⟨_, hr', rfl⟩
      | take hr' _ _ hh _ => exact ⟨_, hr', hh⟩
  | string =>
    simp only [LexState.step, hm, Option.some.injEq] at h
    obtain ⟨text, kind, mark, hr, -, -, -, -, hh, -⟩ := stringStep_cases h
    exact ⟨text ++ mark, by rw [hr, List.append_assoc], by rw [hh, Cursor.advance_append]⟩

/-- A comment goes on to the end of its line. -/
theorem codeStep_line {s : LexState} {c : Char} {cs : List Char} (h : (c = '#' || (c = '/' && cs.head? = some '/')) = true) :
    codeStep s c cs = .ok ([], s.skip (c :: cs.takeWhile (· ≠ '\n')) (cs.dropWhile (· ≠ '\n'))) := by
  have hc : c = '#' ∨ c = '/' := by
    simp only [Bool.or_eq_true, Bool.and_eq_true, decide_eq_true_eq] at h
    exact h.imp id And.left
  have hplain : c ≠ '\n' ∧ ¬ isBlank c = true := by
    rcases hc with rfl | rfl <;> decide
  rw [codeStep, if_neg hplain.1, if_neg hplain.2, if_pos h]

end BicepMigration.Template
