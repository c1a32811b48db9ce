import BicepMigration.Proofs.Template.Lexeme
import BicepMigration.Proofs.Template.Nesting

/-!
# Parts that can be put elsewhere

A part of a template can be written anywhere in code if it is balanced and legible. It is an element if no newline
and no comma stands outside its brackets: then it is not cut where elements are told apart. Parts and elements are
put together from smaller ones, and brackets make an element of any balanced tokens.
-/

namespace BicepMigration.Template

open Text

/-- Outside brackets no token is of the class. The depth is the number of brackets open before the first one. -/
def Unbroken (stop : TokenKind → Bool) : Nat → List TokenKind → Prop
  | _, [] => True
  | depth, k :: ks => ¬ (depth = 0 ∧ stop k = true) ∧ Unbroken stop (k.depthAfter depth) ks

/-- The depth counts brackets that are open. -/
theorem depthAfter_add {n m : Nest} {kind : TokenKind} (h : n.after kind = some m) (c : Nat) :
    kind.depthAfter (n.opened.length + c) = m.opened.length + c := by
  have hi := Nest.depthAfter_eq (Nest.after_inside h (List.replicate c .brace))
  simpa [Nest.inside] using hi

/-- Balanced tokens inside a bracket are not broken. -/
theorem unbroken_of_run {stop : TokenKind → Bool} {n m : Nest} {ks : List TokenKind} (h : n.run ks = some m)
    (c : Nat) : Unbroken stop (n.opened.length + (c + 1)) ks := by
  induction ks generalizing n with
  | nil => trivial
  | cons k ks ih =>
    rw [Nest.run_cons] at h
    obtain ⟨n', hn, hr⟩ := Option.bind_eq_some_iff.1 h
    refine ⟨fun h => by omega, ?_⟩
    rw [depthAfter_add hn]
    exact ih hr

/-- Two runs are unbroken together if each is at its depth. -/
theorem unbroken_append {stop : TokenKind → Bool} {n m : Nest} {a b : List TokenKind} (h : n.run a = some m) :
    Unbroken stop n.opened.length (a ++ b) ↔
      Unbroken stop n.opened.length a ∧ Unbroken stop m.opened.length b := by
  induction a generalizing n with
  | nil =>
    obtain rfl := Option.some.inj h
    simp [Unbroken]
  | cons k ks ih =>
    rw [Nest.run_cons] at h
    obtain ⟨n', hn, hr⟩ := Option.bind_eq_some_iff.1 h
    rw [List.cons_append, Unbroken, Unbroken, Nest.depthAfter_eq hn, ih hr, and_assoc]

/-- What is not broken is read over. -/
theorem breakOutside_of_unbroken {stop : TokenKind → Bool} {n m : Nest} {a : List Token} (b : List Token)
    (hu : Unbroken stop n.opened.length (kinds a)) (hr : n.run (kinds a) = some m) :
    breakOutside stop n.opened.length (a ++ b) =
      (a ++ (breakOutside stop m.opened.length b).1, (breakOutside stop m.opened.length b).2) := by
  induction a generalizing n with
  | nil =>
    obtain rfl := Option.some.inj hr
    rfl
  | cons t ts ih =>
    rw [kinds_cons, Nest.run_cons] at hr
    obtain ⟨n', hn, hr⟩ := Option.bind_eq_some_iff.1 hr
    rw [kinds_cons, Unbroken, Nest.depthAfter_eq hn] at hu
    have hs : ¬ (n.opened.length = 0 && stop t.kind) = true := by simpa using hu.1
    rw [List.cons_append, breakOutside, if_neg hs, Nest.depthAfter_eq hn, ih hu.2 hr]
    rfl

/-- What is read up to a break is not broken. -/
theorem unbroken_breakOutside (stop : TokenKind → Bool) (depth : Nat) (ts : List Token) :
    Unbroken stop depth (kinds (breakOutside stop depth ts).1) := by
  induction ts generalizing depth with
  | nil => trivial
  | cons t ts ih =>
    unfold breakOutside
    split
    · trivial
    · next hs =>
      refine ⟨by simpa using hs, ?_⟩
      exact ih _

/-- Kinds of tokens that make an element. -/
structure IsElement (ks : List TokenKind) : Prop where
  balanced : Balanced ks
  unbroken : Unbroken TokenKind.separates 0 ks

namespace IsElement

/-- Two elements one after another make one. -/
theorem append {a b : List TokenKind} (ha : IsElement a) (hb : IsElement b) : IsElement (a ++ b) :=
  ⟨ha.balanced.append hb.balanced, (unbroken_append (n := .top) ha.balanced).2 ⟨ha.unbroken, hb.unbroken⟩⟩

/-- Without an element at its start an element is one again. -/
theorem of_append {a b : List TokenKind} (h : IsElement (a ++ b)) (ha : Balanced a) : IsElement b :=
  ⟨h.balanced.of_append ha, ((unbroken_append (n := .top) ha).1 h.unbroken).2⟩

/-- A token that opens and closes nothing, stands outside strings and separates nothing. -/
theorem single {k : TokenKind} (hk : Nest.top.after k = some .top) (hs : k.separates = false) : IsElement [k] := by
  refine ⟨?_, ?_⟩
  · rw [Balanced, Nest.run_cons, hk]
    rfl
  · exact ⟨by simp [hs], trivial⟩

/-- Balanced tokens in brackets. -/
theorem enclose {first last : TokenKind} {ks : List TokenKind} {bracket : Bracket}
    (hf : Nest.top.after first = some ⟨.code, [bracket]⟩) (hk : Balanced ks)
    (hl : Nest.after ⟨.code, [bracket]⟩ last = some .top) (hs : first.separates = false) :
    IsElement (first :: (ks ++ [last])) := by
  refine ⟨Balanced.enclose hf hk hl, fun h => by simp [hs] at h, ?_⟩
  have hdepth : first.depthAfter 0 = 1 := Nest.depthAfter_eq hf
  rw [hdepth]
  have hrun : Nest.run ⟨.code, [bracket]⟩ (ks ++ [last]) = some .top := by
    rw [Nest.run_append_of_run (hk.run _), Nest.run_cons, hl]
    rfl
  -- at the close the depth is still one
  refine (unbroken_append (n := ⟨.code, [bracket]⟩) (hk.run _)).2 ⟨?_, fun h => by simp at h, trivial⟩
  exact unbroken_of_run (n := .top) hk 0

end IsElement

/-- Other text may follow further text in place of the given one. -/
theorem Follows.prepend {rest rest' : List Char} (h : Follows rest rest') (before : List Char) :
    Follows (before ++ rest) (before ++ rest') := by
  intro more kind text hs he
  rw [← List.append_assoc] at he ⊢
  exact h _ _ _ hs he

/-- What can be read before some text can be read before a stop. -/
theorem Legible.before_stop {ls : List Lexeme} {rest rest' : List Char} {c : Char} (h : Legible ls rest)
    (hc : isStop c = true) : Legible ls (c :: rest') :=
  h.of_follows (follows_of_isStop hc)

/-- A gap that a newline does not end is a gap before anything. -/
theorem IsGap.of_head_ne {gap next : List Char} {c : Char} (h : IsGap gap (c :: next)) (hc : c ≠ '\n')
    (next' : List Char) : IsGap gap next' := by
  generalize hn : c :: next = chars at h
  induction h with
  | nil => exact .nil
  | blank hd hb _ ih => exact .blank hd hb (ih hn)
  | block ht _ ih => exact .block ht (ih hn)
  | line _ _ he => exact absurd (he c (by rw [← hn]; rfl)) hc

/-- The same lexemes after another gap. -/
def regap (gap : List Char) : List Lexeme → List Lexeme
  | [] => []
  | l :: ls => { l with gap := gap } :: ls

/-- A new gap changes nothing behind it. -/
@[simp] theorem bare_regap (gap : List Char) (ls : List Lexeme) : bare (regap gap ls) = bare ls := by
  cases ls <;> rfl

/-- A new gap keeps what the lexemes are. -/
@[simp] theorem map_kind_regap (gap : List Char) (ls : List Lexeme) :
    (regap gap ls).map (·.kind) = ls.map (·.kind) := by
  cases ls <;> rfl

/-- Lexemes with a new gap are written behind it. -/
theorem written_regap (gap : List Char) {ls : List Lexeme} (h : ls ≠ []) :
    written (regap gap ls) = gap ++ bare ls := by
  cases ls with
  | nil => exact absurd rfl h
  | cons l ls => rfl

/-- What comes first in code stands outside strings. -/
theorem insideString_of_run {n m : Nest} {kind : TokenKind} {ks : List TokenKind} (hn : n.zone = .code)
    (h : n.run (kind :: ks) = some m) : kind.insideString = false := by
  rw [Nest.run_cons] at h
  obtain ⟨n', ha, -⟩ := Option.bind_eq_some_iff.1 h
  obtain ⟨zone, opened⟩ := n
  simp only at hn
  subst hn
  cases kind <;> simp [Nest.after, TokenKind.insideString] at ha ⊢

/-- Lexemes can be read after another gap. -/
theorem legible_regap {gap : List Char} {ls : List Lexeme} {rest : List Char} (h : Legible ls rest)
    (hg : IsGap gap (bare ls ++ rest)) (hk : Balanced (ls.map (·.kind))) : Legible (regap gap ls) rest := by
  cases ls with
  | nil => trivial
  | cons l ls =>
    obtain ⟨-, ⟨hs, -⟩, he, hl⟩ := h
    refine ⟨?_, ⟨hs, fun hi => ?_⟩, he, hl⟩
    · simpa using hg
    · have hout : l.kind.insideString = false := insideString_of_run rfl hk
      rw [hout] at hi
      cases hi

/-- The text is a name. -/
def IsName (text : String) : Prop := IsSpelled .identifier text.toList

/-- Lexemes that can be written anywhere in code before a stop. -/
structure Part (ls : List Lexeme) : Prop where
  ne_nil : ls ≠ []
  balanced : Balanced (ls.map (·.kind))
  legible : Legible ls ['\n']

/-- Lexemes that can be written as an element. -/
structure Element (ls : List Lexeme) : Prop extends Part ls where
  unbroken : Unbroken TokenKind.separates 0 (ls.map (·.kind))

/-- Lexemes that can be written as the rest of a line. -/
structure Line (ls : List Lexeme) : Prop extends Part ls where
  unbroken : Unbroken (· = .newline) 0 (ls.map (·.kind))

/-- The kinds of an element are those of one. -/
theorem Element.isElement {ls : List Lexeme} (h : Element ls) : IsElement (ls.map (·.kind)) :=
  ⟨h.balanced, h.unbroken⟩

/-- A name is an element. -/
theorem element_name {name : String} (h : IsName name) : Element [nameLexeme name] where
  ne_nil := by simp
  balanced := rfl
  legible := ⟨.nil, ⟨h, fun hi => by cases hi⟩, endsAt_of_isStop h rfl, trivial⟩
  unbroken := ⟨by simp [nameLexeme, TokenKind.separates], trivial⟩

/-- A part after blanks, before a stop. -/
theorem Part.legible_regap {ls : List Lexeme} (h : Part ls) (n : Nat) {c : Char} (hc : isStop c = true)
    (rest : List Char) : Legible (regap (List.replicate n ' ') ls) (c :: rest) :=
  Template.legible_regap (h.legible.before_stop hc) (isGap_replicate n _) h.balanced

end BicepMigration.Template
