import BicepMigration.Proofs.Template.KeptUse

/-!
# What follows a replaced use

A use is replaced together with the members after it. So a symbol that stays directly after it follows a member, or the
use has no members. A use without members is replaced only where it is a whole element of an array, and then no name
follows it.
-/

namespace BicepMigration.Template

open Text

variable {symbols : List String} {replace : Replacements} {before : List Token} {here : Cursor} {ls : List Lexeme}

/-- Uses are found where they stand. -/
theorem mem_usesFrom_iff {toks : List Token} {use : SymbolUse} : use ∈ usesFrom symbols before toks ↔
    Occurs (fun before t after => useAt? symbols before t after = some use) before toks [] := by
  induction toks generalizing before with
  | nil => simp [usesFrom]
  | cons t toks ih => rw [usesFrom_cons, List.mem_append, Option.mem_toList, ih, occurs_cons, List.append_nil]

/-- With fewer symbols there are fewer uses. -/
theorem findUses_eq_nil_of_subset {symbols' : List String} {tokens : List Token} (hs : symbols' ⊆ symbols)
    (h : findUses symbols tokens = []) : findUses symbols' tokens = [] := by
  refine List.eq_nil_iff_forall_not_mem.2 fun use hmem => ?_
  have hocc := (mem_usesFrom_iff.1 hmem).imp (Q := fun before t after => useAt? symbols before t after = some use)
    fun before t after hu => by
      obtain ⟨hkind, hsymbol, hvalue, hat⟩ := useAt?_eq_some_iff.1 hu
      exact useAt?_eq_some_iff.2 ⟨hkind, hs hsymbol, hvalue, hat⟩
  have hfound : use ∈ findUses symbols tokens := mem_usesFrom_iff.2 hocc
  rw [h] at hfound
  cases hfound

/-- A use that stays is found. -/
theorem KeptUse.exists_use {strict : Bool} {t : Token} {after : List Token}
    (h : KeptUse strict symbols replace before t after) :
    ∃ use, useAt? symbols before t after = some use ∧ replace use = none := by
  have hsome : useAt? symbols before t after ≠ none := fun hnone =>
    useAt?_eq_none_iff.1 hnone ⟨h.kind, h.symbol, admits_of_strict h.admits⟩
  obtain ⟨use, huse⟩ := Option.ne_none_iff_exists'.1 hsome
  have hstays := h.stays
  rw [huse] at hstays
  exact ⟨use, huse, hstays⟩

/-- Changes are parted as the lexemes are. -/
theorem useChanges_split {left right : List Change} (h : useChanges symbols replace before here ls = left ++ right) :
    ∃ y, ls = olds left ++ y ∧ useChanges symbols replace ((tokensAt here (olds left)).reverse ++ before)
      (here.advance (written (olds left))) y = right := by
  induction left generalizing before here ls with
  | nil => exact ⟨ls, rfl, h⟩
  | cons c left ih =>
    cases c with
    | keep l =>
      obtain ⟨rest, rfl, -, hrest⟩ := useChanges_eq_keep h
      obtain ⟨y, rfl, hy⟩ := ih hrest
      refine ⟨y, rfl, ?_⟩
      simpa [Change.old, tokensAt, Cursor.advance_append] using hy
    | swap first others new more =>
      obtain ⟨rest, rfl, -, -, hrest⟩ := useChanges_eq_swap h
      obtain ⟨y, rfl, hy⟩ := ih hrest
      refine ⟨y, by simp [Change.old], ?_⟩
      simpa [Change.old, tokensAt, tokensAt_append, Cursor.advance_append] using hy

/-- The last member. -/
theorem IsMembers.exists_last {members : List Lexeme} (h : IsMembers members) (hne : members ≠ []) :
    ∃ init point name, members = init ++ [point, name] ∧ point.kind = .dot ∧ name.kind = .identifier := by
  induction h with
  | nil => exact absurd rfl hne
  | @cons point name rest hp hn _ ih =>
    cases rest with
    | nil => exact ⟨[], point, name, rfl, hp, hn⟩
    | cons m ms =>
      obtain ⟨init, p, n, hrest, hp', hn'⟩ := ih (by simp)
      exact ⟨point :: name :: init, p, n, by rw [hrest]; rfl, hp', hn'⟩

/-- A use without members is not replaced before a name. -/
theorem dependsOn_of_name {t u : Token} {after : List Token} (hu : u.kind = .identifier) :
    (SymbolUse.at before t (u :: after)).path = [] ∧ (SymbolUse.at before t (u :: after)).dependsOn = false := by
  have hmembers : memberTokens (u :: after) = [] := by
    cases after with
    | nil => simp [memberTokens]
    | cons v after => simp [memberTokens, hu]
  simp [SymbolUse.at, hmembers, isDependsOnElement, hu, TokenKind.separates]

/-- No symbol stays after a replaced use if none stays after a member, and uses without members are replaced only where
they order deployments. -/
theorem sparesNext_useChanges (hd : ∀ use r, replace use = some r → use.path = [] → use.dependsOn = true)
    (hm : ∀ before point name t after, tokensAt here ls = before.reverse ++ point :: name :: t :: after →
      point.kind = .dot → name.kind = .identifier → t.kind = .identifier → t.text ∈ symbols →
        (useAt? symbols (name :: point :: before) t after).bind replace ≠ none) :
    SparesNext symbols (useChanges symbols replace [] here ls) := by
  rintro first others new more l ⟨left, right, hs⟩ hk hmem
  rw [List.append_assoc] at hs
  obtain ⟨y, hy, hswap⟩ := useChanges_split hs.symm
  obtain ⟨rest, rfl, hmembers, hr, hrest⟩ := useChanges_eq_swap hswap
  obtain ⟨after, rfl, hkeep, -⟩ := useChanges_eq_keep hrest
  by_cases hnil : others = []
  · subst hnil
    obtain ⟨use, hu, hnew⟩ := Option.bind_eq_some_iff.1 hr
    obtain ⟨-, -, -, rfl⟩ := useAt?_eq_some_iff.1 hu
    rw [List.nil_append, tokensAt] at hnew
    obtain ⟨hpath, hno⟩ := @dependsOn_of_name ((tokensAt here (olds left)).reverse ++ []) (Token.ofChars first.kind
      ((here.advance (written (olds left))).advance first.gap) first.text) (Token.ofChars l.kind _ l.text) _ hk
    have hyes := hd _ _ hnew hpath
    rw [hno] at hyes
    cases hyes
  · obtain ⟨init, point, name, rfl, hp, hn⟩ := hmembers.exists_last hnil
    rw [tokensAt_append, List.reverse_append] at hkeep
    refine hm _ (Token.ofChars point.kind _ point.text) (Token.ofChars name.kind _ name.text)
      (Token.ofChars l.kind _ l.text) _ ?_ hp hn hk hmem hkeep
    rw [hy]
    simp [tokensAt_append, tokensAt, Cursor.advance_append]

/-- Three tokens in a row have a property. -/
def anyTriple (p : Token → Token → Token → Bool) : List Token → Bool
  | a :: b :: c :: rest => p a b c || anyTriple p (b :: c :: rest)
  | _ => false

/-- Three tokens in a row are found wherever they stand. -/
theorem anyTriple_append {p : Token → Token → Token → Bool} {a b c : Token} (before after : List Token)
    (h : p a b c = true) : anyTriple p (before ++ a :: b :: c :: after) = true := by
  induction before with
  | nil => simp [anyTriple, h]
  | cons t before ih =>
    cases before with
    | nil => simp [anyTriple, h]
    | cons u before =>
      cases before with
      | nil => simp [anyTriple, h]
      | cons v before =>
        rw [List.cons_append, List.cons_append, List.cons_append, anyTriple, Bool.or_eq_true]
        exact .inr ih

/-- Three tokens with a property stand in a place. -/
theorem exists_of_anyTriple {p : Token → Token → Token → Bool} {tokens : List Token} (h : anyTriple p tokens = true) :
    ∃ before a b c after, tokens = before ++ a :: b :: c :: after ∧ p a b c = true := by
  fun_induction anyTriple p tokens with
  | case1 a b c rest ih =>
    rcases Bool.or_eq_true_iff.1 h with h | h
    · exact ⟨[], a, b, c, rest, rfl, h⟩
    · obtain ⟨before, x, y, z, after, hrest, hp⟩ := ih h
      exact ⟨a :: before, x, y, z, after, by rw [hrest]; rfl, hp⟩
  | case2 => cases h

/-- Where no three tokens have a property, none of a run of them do. -/
theorem anyTriple_of_isInfix {p : Token → Token → Token → Bool} {tokens run : List Token} (h : anyTriple p tokens = false)
    (hrun : run <:+: tokens) : anyTriple p run = false := by
  refine Bool.eq_false_iff.2 fun hany => ?_
  obtain ⟨before, a, b, c, after, rfl, hp⟩ := exists_of_anyTriple hany
  obtain ⟨x, y, rfl⟩ := hrun
  have hall := anyTriple_append (x ++ before) (after ++ y) hp
  simp only [List.append_assoc, List.cons_append] at h hall
  rw [h] at hall
  cases hall

/-- Where no three tokens have a property, those in a place do not. -/
theorem eq_false_of_anyTriple {p : Token → Token → Token → Bool} {tokens before after : List Token} {a b c : Token}
    (h : anyTriple p tokens = false) (ht : tokens = before ++ a :: b :: c :: after) : p a b c = false := by
  refine Bool.eq_false_iff.2 fun hp => ?_
  rw [ht, anyTriple_append before after hp] at h
  cases h

/-- A member with a name of a kind comes first, and one of the symbols after it. -/
def followsMember (member : String → Bool) (symbols : List String) (point name t : Token) : Bool :=
  point.kind = .dot && name.kind = .identifier && member name.text && t.kind = .identifier && symbols.contains t.text

/-- A bracket opens, and one of the symbols comes before a colon. -/
def opensKey (symbols : List String) (bracket t colon : Token) : Bool :=
  bracket.kind = .bracketOpen && t.kind = .identifier && symbols.contains t.text && colon.kind = .colon

/-- A use that is not replaced stays, if no symbol stands between an opening bracket and a colon. -/
theorem occurs_keptUse {strict : Bool} {tokens : List Token} {use : SymbolUse}
    (hkeys : anyTriple (opensKey symbols) tokens = false) (hu : use ∈ findUses symbols tokens)
    (hnone : replace use = none) : Occurs (KeptUse strict symbols replace) [] tokens [] := by
  obtain ⟨before, t, after, ht, huse⟩ := (mem_usesFrom_iff.1 hu).exists_place
  rw [List.append_nil, List.append_nil] at huse
  have hne : useAt? symbols before.reverse t after ≠ none := by
    rw [huse]
    exact Option.some_ne_none use
  rw [Ne, useAt?_eq_none_iff, Classical.not_not] at hne
  obtain ⟨hk, hmem, hadmits⟩ := hne
  rw [ht]
  refine .of_place ⟨hk, hmem, ?_, by simp [huse, hnone]⟩
  rw [List.append_nil, List.append_nil]
  refine strict_of_admits hadmits fun hopen => ?_
  cases after with
  | nil => rfl
  | cons colon after =>
    obtain ⟨bracket, others, hbefore, hbracket⟩ : ∃ bracket others, before.reverse = bracket :: others ∧
        bracket.kind = .bracketOpen := by
      cases hr : before.reverse with
      | nil => simp [hr] at hopen
      | cons bracket others => exact ⟨bracket, others, rfl, by simpa [hr] using hopen⟩
    have hplace : tokens = others.reverse ++ bracket :: t :: colon :: after := by
      rw [ht, ← List.reverse_reverse before, hbefore]
      simp
    have hfalse := eq_false_of_anyTriple hkeys hplace
    simpa [opensKey, hbracket, hk, hmem, startsColon] using hfalse

end BicepMigration.Template
