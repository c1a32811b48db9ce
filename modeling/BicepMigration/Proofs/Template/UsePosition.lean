import BicepMigration.Proofs.Template.Element
import BicepMigration.Proofs.Template.UseChange

/-!
# Where symbols are used

Whether a name is a use of a symbol depends on the tokens next to it only: the one before it tells whether a member, a
declared name or perhaps a key stands here, and a colon after it makes it a key. So uses can be counted part by part,
and what becomes of them in another place depends on its ends. An opening bracket can be taken for a place of a key,
where it is: then a name between such a bracket and a colon does not count.
-/

namespace BicepMigration.Template

open Text

/-- What the token before a name says about it. -/
inductive Side where
  /-- A key may stand here: at the start, after a brace or after a separator. -/
  | key
  /-- A member stands here. -/
  | member
  /-- A name stands here that is being declared. -/
  | declared
  /-- Anything else stands here. -/
  | other
  deriving DecidableEq, Repr

/-- A use may stand here, before a colon or not. -/
def Side.admits : Side → Bool → Bool
  | .key, colon => !colon
  | .member, _ => false
  | .declared, _ => false
  | .other, _ => true

/-- What a token says about the name after it. In the strict sense a key may stand after an opening bracket. -/
def Side.after (strict : Bool) (kind : TokenKind) (text : String) : Side :=
  if kind = .dot then .member
  else if kind = .braceOpen || kind.separates || (kind = .bracketOpen && strict) then .key
  else if kind = .identifier && declaringWords.contains text then .declared
  else .other

/-- What tokens in reverse order say about the name after them. -/
def sideBefore (strict : Bool) (before : List Token) : Side :=
  (before.head?.map fun t => Side.after strict t.kind t.text).getD .key

/-- A colon stands first. -/
def startsColon (toks : List Token) : Bool := toks.head?.any (·.kind = .colon)

/-- A value position is one that admits a use. -/
theorem isValuePosition_eq (before after : List Token) :
    isValuePosition before after = (sideBefore false before).admits (startsColon after) := by
  unfold isValuePosition isKeyPosition sideBefore startsColon
  cases before with
  | nil => simp [Side.admits]
  | cons t before =>
    simp only [List.head?_cons, Option.any_some, Option.all_some, Option.map_some, Option.getD_some, Side.after]
    by_cases hdot : t.kind = .dot
    · simp [hdot, Side.admits]
    · by_cases hkey : (decide (t.kind = .braceOpen) || t.kind.separates) = true
      · have hname : t.kind ≠ .identifier := by
          intro hk
          simp [hk, TokenKind.separates] at hkey
        simp [hdot, hkey, hname, Side.admits]
      · rw [Bool.not_eq_true] at hkey
        simp only [hdot, hkey, decide_false, Bool.not_false, Bool.false_and, Bool.true_and, Bool.and_false,
          Bool.or_false, Bool.false_eq_true, if_false]
        cases hd : decide (t.kind = .identifier) && declaringWords.contains t.text
        · rfl
        · rfl

/-- What admits a use in the strict sense admits one. -/
theorem Side.admits_after_of_strict {strict : Bool} {kind : TokenKind} {text : String} {colon : Bool}
    (h : (Side.after strict kind text).admits colon = true) : (Side.after false kind text).admits colon = true := by
  cases strict with
  | false => exact h
  | true =>
    by_cases hk : kind = .bracketOpen
    · simp [Side.after, hk, TokenKind.separates, Side.admits]
    · simpa [Side.after, hk] using h

/-- What is a use strictly is one. -/
theorem admits_of_strict {strict : Bool} {before : List Token} {colon : Bool}
    (h : (sideBefore strict before).admits colon = true) : (sideBefore false before).admits colon = true := by
  cases before with
  | nil => exact h
  | cons t before => exact Side.admits_after_of_strict h

/-- What admits a use admits it in the strict sense, unless it stands between an opening bracket and a colon. -/
theorem strict_of_admits {strict : Bool} {before : List Token} {colon : Bool}
    (h : (sideBefore false before).admits colon = true)
    (hk : before.head?.any (·.kind = .bracketOpen) = true → colon = false) :
    (sideBefore strict before).admits colon = true := by
  cases before with
  | nil => exact h
  | cons t before =>
    by_cases hb : t.kind = .bracketOpen
    · rw [hk (by simp [hb])]
      cases strict <;> simp [sideBefore, Side.after, hb, TokenKind.separates, Side.admits]
    · simpa [sideBefore, Side.after, hb] using h

/-- What a lexeme says about the name after it. -/
def Lexeme.side (strict : Bool) (l : Lexeme) : Side := Side.after strict l.kind (String.ofList l.text)

/-- What lexemes say about the name after them, if they stand after something that says the same as a side. -/
def sideAfter (strict : Bool) (side : Side) (ls : List Lexeme) : Side :=
  (ls.getLast?.map (Lexeme.side strict)).getD side

/-- A colon stands first among lexemes, or after them if there are none. -/
def colonAt (ls : List Lexeme) (colon : Bool) : Bool := (ls.head?.map fun l => decide (l.kind = .colon)).getD colon

section Context

variable {strict : Bool}

@[simp] theorem sideAfter_nil (side : Side) : sideAfter strict side [] = side := rfl

@[simp] theorem sideAfter_cons (side : Side) (l : Lexeme) (ls : List Lexeme) :
    sideAfter strict side (l :: ls) = sideAfter strict (l.side strict) ls := by
  cases ls with
  | nil => rfl
  | cons m ms => simp [sideAfter, List.getLast?_cons]

@[simp] theorem colonAt_nil (colon : Bool) : colonAt [] colon = colon := rfl

@[simp] theorem colonAt_cons (l : Lexeme) (ls : List Lexeme) (colon : Bool) :
    colonAt (l :: ls) colon = decide (l.kind = .colon) := rfl

/-- The colon behind two runs is looked for in the first one, and then in the second one. -/
theorem colonAt_append (a b : List Lexeme) (colon : Bool) : colonAt (a ++ b) colon = colonAt a (colonAt b colon) := by
  cases a <;> rfl

/-- Tokens start with a colon if their lexemes do. -/
theorem startsColon_tokensAt (here : Cursor) (ls : List Lexeme) : startsColon (tokensAt here ls) = colonAt ls false := by
  cases ls <;> rfl

end Context

/-- A lexeme is a use of one of the symbols, after something with a side and before a colon or not. -/
def Lexeme.uses (symbols : List String) (side : Side) (l : Lexeme) (colon : Bool) : Prop :=
  l.kind = .identifier ∧ String.ofList l.text ∈ symbols ∧ side.admits colon = true

/-- One of the symbols is used among lexemes, after something with a side and before a colon or not. -/
def HasUse (strict : Bool) (symbols : List String) : Side → List Lexeme → Bool → Prop
  | _, [], _ => False
  | side, l :: ls, colon => l.uses symbols side (colonAt ls colon) ∨ HasUse strict symbols (l.side strict) ls colon

section Uses

variable {strict : Bool} {symbols : List String} {side : Side} {colon : Bool}

@[simp] theorem hasUse_nil : HasUse strict symbols side [] colon ↔ False := Iff.rfl

/-- A run has a use at its first lexeme or behind it. -/
theorem hasUse_cons {l : Lexeme} {ls : List Lexeme} : HasUse strict symbols side (l :: ls) colon ↔
    l.uses symbols side (colonAt ls colon) ∨ HasUse strict symbols (l.side strict) ls colon := Iff.rfl

/-- Only an identifier uses something. -/
theorem not_uses_of_kind {l : Lexeme} (h : l.kind ≠ .identifier) : ¬ l.uses symbols side colon := fun hu => h hu.1

/-- A lexeme that is no name is no use. -/
theorem hasUse_cons_of_kind {l : Lexeme} {ls : List Lexeme} (h : l.kind ≠ .identifier) :
    HasUse strict symbols side (l :: ls) colon ↔ HasUse strict symbols (l.side strict) ls colon := by
  rw [hasUse_cons, or_iff_right (not_uses_of_kind h)]

/-- Two runs have a use if one of them has. -/
theorem hasUse_append {a b : List Lexeme} : HasUse strict symbols side (a ++ b) colon ↔
    HasUse strict symbols side a (colonAt b colon) ∨ HasUse strict symbols (sideAfter strict side a) b colon := by
  induction a generalizing side with
  | nil => simp
  | cons l a ih => rw [List.cons_append, hasUse_cons, hasUse_cons, ih, colonAt_append, sideAfter_cons, or_assoc]

/-- Lexemes without names hold no use. -/
theorem not_hasUse_of_kind {ls : List Lexeme} (h : ∀ l ∈ ls, l.kind ≠ .identifier) :
    ¬ HasUse strict symbols side ls colon := by
  induction ls generalizing side with
  | nil => exact id
  | cons l ls ih =>
    rw [hasUse_cons_of_kind (h l List.mem_cons_self)]
    exact ih fun m hm => h m (List.mem_cons_of_mem _ hm)

/-- A use in the strict sense is a use. -/
theorem HasUse.of_strict {side' : Side} {ls : List Lexeme} (h : HasUse strict symbols side ls colon)
    (hs : ∀ colon, side.admits colon = true → side'.admits colon = true) : HasUse false symbols side' ls colon := by
  induction ls generalizing side side' with
  | nil => exact h
  | cons l ls ih =>
    rcases h with ⟨hk, hmem, ha⟩ | h
    · exact .inl ⟨hk, hmem, hs _ ha⟩
    · exact .inr (ih h fun _ => Side.admits_after_of_strict)

/-- A new gap brings no lexeme of another kind. -/
theorem forall_kind_regap {kind : TokenKind} (gap : List Char) {ls : List Lexeme} :
    (∀ l ∈ regap gap ls, l.kind ≠ kind) ↔ ∀ l ∈ ls, l.kind ≠ kind := by
  cases ls <;> simp [regap]

/-- What stands before the first lexeme does not matter. -/
theorem hasUse_regap (gap : List Char) {ls : List Lexeme} :
    HasUse strict symbols side (regap gap ls) colon ↔ HasUse strict symbols side ls colon := by
  cases ls <;> rfl

/-- Members are no uses. -/
theorem hasUse_members {members : List Lexeme} (h : IsMembers members) {rest : List Lexeme} :
    HasUse strict symbols side (members ++ rest) colon ↔
      HasUse strict symbols (sideAfter strict side members) rest colon := by
  induction h generalizing side with
  | nil => rfl
  | @cons point name others hp hn _ ih =>
    have hside : point.side strict = .member := by simp [Lexeme.side, Side.after, hp]
    rw [List.cons_append, List.cons_append, hasUse_cons_of_kind (by simp [hp]), hasUse_cons, hside, ih]
    simp [Lexeme.uses, Side.admits]

/-- A token is no use if it names no symbol or stands at another place. -/
theorem useAt?_eq_none_iff {before after : List Token} {t : Token} : useAt? symbols before t after = none ↔
    ¬ (t.kind = .identifier ∧ t.text ∈ symbols ∧ (sideBefore false before).admits (startsColon after) = true) := by
  unfold useAt?
  rw [← isValuePosition_eq, ite_eq_right_iff]
  simp

/-- The uses that are found among tokens are those of their lexemes. -/
theorem usesFrom_eq_nil_iff {before : List Token} {here : Cursor} {ls : List Lexeme} :
    usesFrom symbols before (tokensAt here ls) = [] ↔
      ¬ HasUse false symbols (sideBefore false before) ls false := by
  induction ls generalizing before here with
  | nil => simp [usesFrom]
  | cons l ls ih =>
    have huse : useAt? symbols before (Token.ofChars l.kind (here.advance l.gap) l.text)
        (tokensAt (here.advance (l.gap ++ l.text)) ls) = none ↔
        ¬ l.uses symbols (sideBefore false before) (colonAt ls false) := by
      rw [← startsColon_tokensAt (here.advance (l.gap ++ l.text)), useAt?_eq_none_iff]
      rfl
    rw [tokensAt, usesFrom_cons, List.append_eq_nil_iff, Option.toList_eq_nil_iff, huse, ih, hasUse_cons, not_or]
    rfl

end Uses

section Occurrences

variable {P Q : List Token → Token → List Token → Prop} {before after : List Token}

/-- Something holds of one of the tokens, given the tokens before in reverse order and the tokens after. -/
def Occurs (P : List Token → Token → List Token → Prop) (before : List Token) : List Token → List Token → Prop
  | [], _ => False
  | t :: toks, after => P before t (toks ++ after) ∨ Occurs P (t :: before) toks after

@[simp] theorem occurs_nil : Occurs P before [] after ↔ False := Iff.rfl

/-- Something occurs at the first token or behind it. -/
theorem occurs_cons {t : Token} {toks : List Token} :
    Occurs P before (t :: toks) after ↔ P before t (toks ++ after) ∨ Occurs P (t :: before) toks after := Iff.rfl

/-- Something occurs in two runs if it does in one of them. -/
theorem occurs_append {a b : List Token} : Occurs P before (a ++ b) after ↔
    Occurs P before a (b ++ after) ∨ Occurs P (a.reverse ++ before) b after := by
  induction a generalizing before with
  | nil => simp
  | cons t a ih =>
    rw [List.cons_append, occurs_cons, ih, occurs_cons, List.append_assoc, or_assoc, List.reverse_cons,
      List.append_assoc, List.singleton_append]

/-- What holds of no token of a kind does not occur among such tokens. -/
theorem not_occurs {toks : List Token} (h : ∀ t ∈ toks, ∀ before after, ¬ P before t after) :
    ¬ Occurs P before toks after := by
  induction toks generalizing before with
  | nil => exact id
  | cons t toks ih =>
    rw [occurs_cons, not_or]
    exact ⟨h t List.mem_cons_self _ _, ih fun u hu => h u (List.mem_cons_of_mem _ hu)⟩

/-- What occurs implies what follows from it. -/
theorem Occurs.imp {toks : List Token} (h : Occurs P before toks after)
    (hpq : ∀ before t after, P before t after → Q before t after) : Occurs Q before toks after := by
  induction toks generalizing before with
  | nil => exact h
  | cons t toks ih => exact h.imp (hpq _ _ _) ih

/-- What occurs among tokens holds in a place. -/
theorem Occurs.exists_place {toks : List Token} (h : Occurs P before toks after) :
    ∃ a t b, toks = a ++ t :: b ∧ P (a.reverse ++ before) t (b ++ after) := by
  induction toks generalizing before with
  | nil => exact h.elim
  | cons t toks ih =>
    rcases h with h | h
    · exact ⟨[], t, toks, rfl, h⟩
    · obtain ⟨a, u, b, rfl, hu⟩ := ih h
      exact ⟨t :: a, u, b, rfl, by simpa using hu⟩

/-- What is true at a place occurs. -/
theorem Occurs.of_place {a b : List Token} {t : Token} (h : P (a.reverse ++ before) t (b ++ after)) :
    Occurs P before (a ++ t :: b) after :=
  occurs_append.2 (.inr (.inl h))

end Occurrences

end BicepMigration.Template
