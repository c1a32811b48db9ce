import BicepMigration.Template.Lexer

/-!
# Nesting of tokens

Tokens are read as a word over brackets and strings: a close answers the innermost opening, text and holes
stand inside strings only, and nothing else does. The word of a template ends as it starts. Parts that are
cut out of such a word at separators or at brackets are such words again, so they can be put elsewhere.
-/

namespace BicepMigration.Template

/-- What may come next. -/
inductive Zone where
  /-- Code. -/
  | code
  /-- The text of a string, a hole, or its end. -/
  | string
  /-- A hole or the end of a string, after text. -/
  | closing
  deriving DecidableEq, Repr

/-- What may come next, and the brackets that stand open, the innermost first. -/
structure Nest where
  zone : Zone
  opened : List Bracket
  deriving DecidableEq, Repr

namespace Nest

/-- Code outside all brackets. -/
def top : Nest := ⟨.code, []⟩

/-- The same inside further brackets. -/
def inside (n : Nest) (outer : List Bracket) : Nest := ⟨n.zone, n.opened ++ outer⟩

/-- The innermost bracket is closed. -/
def close (n : Nest) (bracket : Bracket) (zone : Zone) : Option Nest :=
  match n.opened with
  | [] => none
  | b :: outer => if b = bracket then some ⟨zone, outer⟩ else none

/-- The nest after a token, if the token may come next. -/
def after (n : Nest) (kind : TokenKind) : Option Nest :=
  match n.zone, kind with
  | .code, .braceOpen => some ⟨.code, .brace :: n.opened⟩
  | .code, .bracketOpen => some ⟨.code, .square :: n.opened⟩
  | .code, .parenOpen => some ⟨.code, .round :: n.opened⟩
  | .code, .braceClose => n.close .brace .code
  | .code, .bracketClose => n.close .square .code
  | .code, .parenClose => n.close .round .code
  | .code, .holeEnd => n.close .hole .string
  | .code, .stringStart => some ⟨.string, n.opened⟩
  | .code, .stringText => none
  | .code, .holeStart => none
  | .code, .stringEnd => none
  | .code, _ => some n
  | .string, .stringText => some ⟨.closing, n.opened⟩
  | _, .holeStart => some ⟨.code, .hole :: n.opened⟩
  | _, .stringEnd => some ⟨.code, n.opened⟩
  | _, _ => none

/-- The nest after tokens, if each of them may come where it stands. -/
def run (n : Nest) : List TokenKind → Option Nest
  | [] => some n
  | kind :: kinds => (n.after kind).bind (run · kinds)

@[simp] theorem run_nil (n : Nest) : n.run [] = some n := rfl

theorem run_cons (n : Nest) (kind : TokenKind) (kinds : List TokenKind) :
    n.run (kind :: kinds) = (n.after kind).bind (run · kinds) := rfl

/-- Two runs of tokens nest one after another. -/
theorem run_append (n : Nest) (a b : List TokenKind) : n.run (a ++ b) = (n.run a).bind (run · b) := by
  induction a generalizing n with
  | nil => rfl
  | cons kind kinds ih =>
    rw [List.cons_append, run_cons, run_cons]
    cases n.after kind with
    | none => rfl
    | some m => exact ih m

/-- The second run starts with what is open behind the first one. -/
theorem run_append_of_run {n m : Nest} {a : List TokenKind} (h : n.run a = some m) (b : List TokenKind) :
    n.run (a ++ b) = m.run b := by
  rw [run_append, h]
  rfl

/-- What closes is the last that was opened. -/
theorem opened_of_close {n m : Nest} {bracket : Bracket} {zone : Zone} (h : n.close bracket zone = some m) :
    ∃ outer, n.opened = bracket :: outer ∧ m = ⟨zone, outer⟩ := by
  obtain ⟨z, opened⟩ := n
  cases opened with
  | nil => simp [close] at h
  | cons b rest =>
    simp only [close] at h
    split at h
    · next hb => exact ⟨rest, by rw [hb], (Option.some.inj h).symm⟩
    · simp at h

/-- The last that was opened can be closed. -/
theorem close_of_opened {n : Nest} {bracket : Bracket} {zone : Zone} {outer : List Bracket}
    (h : n.opened = bracket :: outer) : n.close bracket zone = some ⟨zone, outer⟩ := by
  simp [close, h]

/-- What is open outside does not matter to what is closed inside. -/
theorem close_inside {n m : Nest} {bracket : Bracket} {zone : Zone} (h : n.close bracket zone = some m)
    (outer : List Bracket) : (n.inside outer).close bracket zone = some (m.inside outer) := by
  obtain ⟨rest, ho, rfl⟩ := opened_of_close h
  exact close_of_opened (by simp [inside, ho])

/-- Further brackets around do not matter. -/
theorem after_inside {n m : Nest} {kind : TokenKind} (h : n.after kind = some m) (outer : List Bracket) :
    (n.inside outer).after kind = some (m.inside outer) := by
  obtain ⟨zone, opened⟩ := n
  cases zone <;> cases kind <;> simp only [after, Option.some.injEq, reduceCtorEq] at h <;> first
    | (subst h; rfl)
    | exact close_inside h outer

/-- What is open outside does not matter to a run. -/
theorem run_inside {n m : Nest} {kinds : List TokenKind} (h : n.run kinds = some m) (outer : List Bracket) :
    (n.inside outer).run kinds = some (m.inside outer) := by
  induction kinds generalizing n with
  | nil =>
    simp only [run_nil, Option.some.injEq] at h
    rw [h, run_nil]
  | cons kind kinds ih =>
    rw [run_cons] at h
    obtain ⟨n', hn, hr⟩ := Option.bind_eq_some_iff.1 h
    rw [run_cons, after_inside hn]
    exact ih hr

/-- The nest counts the brackets that the depth of a token counts. -/
theorem depthAfter_eq {n m : Nest} {kind : TokenKind} (h : n.after kind = some m) :
    kind.depthAfter n.opened.length = m.opened.length := by
  obtain ⟨zone, opened⟩ := n
  have hclose {bracket : Bracket} {z : Zone} (h : close ⟨zone, opened⟩ bracket z = some m) :
      opened.length - 1 = m.opened.length := by
    obtain ⟨rest, ho, rfl⟩ := opened_of_close h
    simp only at ho
    simp [ho]
  cases zone <;> cases kind <;> simp only [after, Option.some.injEq, reduceCtorEq] at h <;> first
    | (subst h; rfl)
    | exact hclose h

/-- Separators stand in code, and leave the nest as it is. -/
theorem after_of_separates {n m : Nest} {kind : TokenKind} (hk : kind.separates = true)
    (h : n.after kind = some m) : n.zone = .code ∧ m = n := by
  obtain ⟨zone, opened⟩ := n
  cases kind <;> simp only [TokenKind.separates, Bool.false_eq_true] at hk <;>
    cases zone <;> simp only [after, Option.some.injEq, reduceCtorEq] at h <;> exact ⟨rfl, h.symm⟩

end Nest

/-- The kinds of tokens. -/
def kinds (ts : List Token) : List TokenKind := ts.map (·.kind)

@[simp] theorem kinds_nil : kinds [] = [] := rfl

@[simp] theorem kinds_cons (t : Token) (ts : List Token) : kinds (t :: ts) = t.kind :: kinds ts := rfl

@[simp] theorem kinds_append (a b : List Token) : kinds (a ++ b) = kinds a ++ kinds b := List.map_append

/-- The tokens end in code as they start, with all brackets closed that they open and no other. -/
def Balanced (ks : List TokenKind) : Prop := Nest.top.run ks = some .top

namespace Balanced

theorem nil : Balanced [] := rfl

/-- Balanced tokens after balanced ones are balanced. -/
theorem append {a b : List TokenKind} (ha : Balanced a) (hb : Balanced b) : Balanced (a ++ b) := by
  rw [Balanced, Nest.run_append_of_run ha]
  exact hb

/-- Behind balanced tokens the others have to be balanced. -/
theorem of_append {a b : List TokenKind} (h : Balanced (a ++ b)) (ha : Balanced a) : Balanced b := by
  rw [Balanced, Nest.run_append_of_run ha] at h
  exact h

/-- Balanced tokens change no nest in code. -/
theorem run {ks : List TokenKind} (h : Balanced ks) (opened : List Bracket) :
    Nest.run ⟨.code, opened⟩ ks = some ⟨.code, opened⟩ :=
  Nest.run_inside h opened

/-- Balanced tokens between a bracket and its close are balanced with them. -/
theorem enclose {first last : TokenKind} {ks : List TokenKind} {bracket : Bracket}
    (hf : Nest.top.after first = some ⟨.code, [bracket]⟩) (hk : Balanced ks)
    (hl : Nest.after ⟨.code, [bracket]⟩ last = some .top) : Balanced (first :: (ks ++ [last])) := by
  rw [Balanced, Nest.run_cons, hf, Option.bind_some, Nest.run_append_of_run (hk.run _), Nest.run_cons, hl]
  rfl

end Balanced

/-- Up to the first separator outside brackets all brackets are closed that are opened. -/
theorem run_breakOutside {stop : TokenKind → Bool} (hstop : ∀ k, stop k = true → k.separates = true) {n : Nest}
    {ts : List Token} (h : n.run (kinds ts) = some .top) :
    n.run (kinds (breakOutside stop n.opened.length ts).1) = some .top := by
  induction ts generalizing n with
  | nil => exact h
  | cons t ts ih =>
    obtain ⟨m, hm, hr⟩ := Option.bind_eq_some_iff.1 h
    unfold breakOutside
    split
    · next hs =>
      simp only [Bool.and_eq_true, decide_eq_true_eq] at hs
      obtain ⟨hz, -⟩ := Nest.after_of_separates (hstop _ hs.2) hm
      have ho : n.opened = [] := List.length_eq_zero_iff.1 hs.1
      obtain ⟨zone, opened⟩ := n
      simp only at hz ho
      simp [hz, ho, Nest.top]
    · rw [Nest.depthAfter_eq hm]
      simp only [kinds_cons]
      rw [Nest.run_cons, hm]
      exact ih hr

/-- Cutting balanced tokens outside brackets leaves two balanced parts. -/
theorem balanced_breakOutside {stop : TokenKind → Bool} (hstop : ∀ k, stop k = true → k.separates = true)
    {ts : List Token} (h : Balanced (kinds ts)) :
    Balanced (kinds (breakOutside stop 0 ts).1) ∧ Balanced (kinds (breakOutside stop 0 ts).2) := by
  have h₁ : Balanced (kinds (breakOutside stop 0 ts).1) := run_breakOutside hstop (n := .top) h
  refine ⟨h₁, Balanced.of_append (a := kinds (breakOutside stop 0 ts).1) ?_ h₁⟩
  rw [← kinds_append, breakOutside_append]
  exact h

/-- The token that closes a bracket of code. -/
def Bracket.closeKind : Bracket → TokenKind
  | .brace => .braceClose
  | .square => .bracketClose
  | .round => .parenClose
  | .hole => .holeEnd

/-- What closes a bracket closes. -/
theorem Bracket.closes_closeKind (b : Bracket) : b.closeKind.closes = true := by
  cases b <;> rfl

/-- What closes is the bracket that was opened last. -/
theorem Nest.close_of_cons {n m : Nest} {b bracket : Bracket} {zone : Zone} {rest : List Bracket}
    (ho : n.opened = b :: rest) (h : n.close bracket zone = some m) : b = bracket ∧ m = ⟨zone, rest⟩ := by
  obtain ⟨outer, ho', rfl⟩ := opened_of_close h
  rw [ho] at ho'
  obtain ⟨rfl, rfl⟩ := List.cons.inj ho'
  exact ⟨rfl, rfl⟩

/-- A close answers the innermost bracket. -/
theorem Nest.after_of_closes {n m : Nest} {kind : TokenKind} {b : Bracket} {rest : List Bracket}
    (hk : kind.closes = true) (ho : n.opened = b :: rest) (hb : b ≠ .hole) (h : n.after kind = some m) :
    n.zone = .code ∧ kind = b.closeKind ∧ m = ⟨.code, rest⟩ := by
  obtain ⟨zone, opened⟩ := n
  cases kind <;> simp only [TokenKind.closes, Bool.false_eq_true] at hk <;>
    cases zone <;> simp only [Nest.after, reduceCtorEq] at h <;>
    obtain ⟨rfl, rfl⟩ := Nest.close_of_cons ho h <;> first | exact ⟨rfl, rfl, rfl⟩ | exact absurd rfl hb

/-- A token that does not close a bracket further out does the same without it. -/
theorem Nest.after_of_inside {n m : Nest} {kind : TokenKind} {b : Bracket}
    (hs : ¬ (n.opened = [] ∧ kind.closes = true)) (h : (n.inside [b]).after kind = some m) :
    ∃ m', n.after kind = some m' ∧ m = m'.inside [b] := by
  obtain ⟨zone, opened⟩ := n
  cases kind <;> cases zone <;>
    simp only [Nest.after, Nest.inside, Option.some.injEq, reduceCtorEq] at h ⊢ <;> first
    | exact ⟨_, rfl, h.symm⟩
    | (cases opened with
      | nil => exact absurd ⟨rfl, rfl⟩ hs
      | cons c outer =>
        obtain ⟨rfl, rfl⟩ := (@Nest.close_of_cons _ _ _ _ _ (outer ++ [b])) rfl h
        exact ⟨⟨_, outer⟩, by simp [Nest.close], rfl⟩)

/-- A bracket of code that stands open is closed, and the tokens up to that close leave the nest inside it. -/
theorem breakAtClose_of_run {b : Bracket} (hb : b ≠ .hole) {n : Nest} {ts : List Token}
    (h : (n.inside [b]).run (kinds ts) = some .top) :
    ∃ found close rest, breakAtClose n.opened.length ts = some (found, close, rest) ∧
      n.run (kinds found) = some .top ∧ close.kind = b.closeKind ∧ Balanced (kinds rest) := by
  induction ts generalizing n with
  | nil =>
    simp only [kinds_nil, Nest.run_nil, Option.some.injEq] at h
    have := congrArg (fun m : Nest => m.opened.length) h
    simp [Nest.inside, Nest.top] at this
  | cons t ts ih =>
    rw [kinds_cons, Nest.run_cons] at h
    obtain ⟨m, hm, hr⟩ := Option.bind_eq_some_iff.1 h
    unfold breakAtClose
    by_cases hs : n.opened = [] ∧ t.kind.closes = true
    · have hd : (n.opened.length = 0 && t.kind.closes) = true := by simp [hs]
      obtain ⟨hz, hk, rfl⟩ := (@Nest.after_of_closes _ _ _ _ []) hs.2 (by simp [Nest.inside, hs.1]) hb hm
      rw [if_pos hd]
      refine ⟨[], t, ts, rfl, ?_, hk, hr⟩
      obtain ⟨zone, opened⟩ := n
      obtain ⟨ho, -⟩ := hs
      simp only [Nest.inside] at hz ho
      simp [hz, ho, Nest.top]
    · have hd : ¬ (n.opened.length = 0 && t.kind.closes) = true := by simpa using hs
      obtain ⟨m', hm', rfl⟩ := Nest.after_of_inside hs hm
      obtain ⟨found, close, rest, hbr, hf, hc, hrest⟩ := ih hr
      rw [if_neg hd]
      refine ⟨t :: found, close, rest, ?_, ?_, hc, hrest⟩
      · rw [Nest.depthAfter_eq hm', hbr]
        rfl
      · rw [kinds_cons, Nest.run_cons, hm']
        exact hf

/-- The token at which a bracket is closed closes. -/
theorem closes_of_breakAtClose {depth : Nat} {ts found rest : List Token} {close : Token}
    (h : breakAtClose depth ts = some (found, close, rest)) : close.kind.closes = true := by
  induction ts generalizing depth found with
  | nil => simp [breakAtClose] at h
  | cons t ts ih =>
    unfold breakAtClose at h
    split at h
    · next hc =>
      simp only [Option.some.injEq, Prod.mk.injEq] at h
      obtain ⟨-, rfl, -⟩ := h
      exact (Bool.and_eq_true_iff.1 hc).2
    · obtain ⟨⟨a, b, c⟩, hr, he⟩ := Option.map_eq_some_iff.1 h
      simp only [Prod.mk.injEq] at he
      obtain ⟨-, rfl, rfl⟩ := he
      exact ih hr

/-- Balanced tokens that open a bracket close it again. -/
theorem exists_breakAtClose {b : Bracket} (hb : b ≠ .hole) {t : Token} {ts : List Token}
    (ht : Nest.top.after t.kind = some ⟨.code, [b]⟩) (h : Balanced (kinds (t :: ts))) :
    ∃ found close after, breakAtClose 0 ts = some (found, close, after) ∧ Balanced (kinds found) ∧
      close.kind = b.closeKind ∧ Balanced (kinds after) := by
  rw [Balanced, kinds_cons, Nest.run_cons, ht] at h
  exact breakAtClose_of_run (n := .top) hb h

/-- What is found up to the close of a bracket is balanced, and it is the bracket that is closed. -/
theorem balanced_of_breakAtClose {b : Bracket} (hb : b ≠ .hole) {t : Token} {ts found rest : List Token}
    {close : Token} (ht : Nest.top.after t.kind = some ⟨.code, [b]⟩) (h : Balanced (kinds (t :: ts)))
    (hbreak : breakAtClose 0 ts = some (found, close, rest)) :
    Balanced (kinds found) ∧ close.kind = b.closeKind := by
  obtain ⟨found', close', after, hbreak', hfound, hclose, -⟩ := exists_breakAtClose hb ht h
  obtain ⟨rfl, heq⟩ := Prod.mk.inj (Option.some.inj (hbreak.symm.trans hbreak'))
  obtain ⟨rfl, -⟩ := Prod.mk.inj heq
  exact ⟨hfound, hclose⟩

end BicepMigration.Template
