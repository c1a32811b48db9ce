import BicepMigration.Proofs.Template.TokenWord
import BicepMigration.Proofs.Template.UseChange
import Mathlib.Data.List.Forall2

/-!
# Which uses are found

A name is a key if it stands before a colon, at the start of a line or an entry, and directly inside a brace. The search
for uses looks at the tokens next to a name only, so it also takes a name for a key that stands at the start of a line or
an element outside all brackets, or directly inside another bracket or a hole. Main statement: all other uses are found,
in order and each once, with all members that are accessed through them.
-/

namespace BicepMigration.Template

section Innermost

/-- A bracket or a hole that tokens leave open and inside which all others are closed again. -/
def IsInnermost (before : List Token) (opening : Token) : Prop :=
  ∃ outer inside, before = outer ++ opening :: inside ∧ opening.kind.opens = true ∧ Items (kinds inside)

/-- A token opens a bracket, closes one or leaves the brackets as they are; only the brackets that it closes matter. -/
theorem Nest.after_cases {n m : Nest} {kind : TokenKind} (h : n.after kind = some m) :
    (kind.opens = true ∧ m.zone = .code ∧ ∃ bracket, m.opened = bracket :: n.opened ∧
        ∀ opened, Nest.after ⟨n.zone, opened⟩ kind = some ⟨.code, bracket :: opened⟩) ∨
      ∃ closed, n.opened = closed ++ m.opened ∧
        ∀ opened, Nest.after ⟨n.zone, closed ++ opened⟩ kind = some ⟨m.zone, opened⟩ := by
  obtain ⟨zone, opened⟩ := n
  have hclose {bracket : Bracket} {z : Zone} (hm : Nest.close ⟨zone, opened⟩ bracket z = some m) :
      ∃ closed, opened = closed ++ m.opened ∧
        ∀ opened, Nest.close ⟨zone, closed ++ opened⟩ bracket z = some ⟨m.zone, opened⟩ := by
    obtain ⟨outer, ho, rfl⟩ := opened_of_close hm
    exact ⟨[bracket], ho, fun opened => close_of_opened rfl⟩
  cases zone <;> cases kind <;> simp only [Nest.after, Option.some.injEq, reduceCtorEq] at h <;> first
    | (subst h; exact .inl ⟨rfl, rfl, _, rfl, fun _ => rfl⟩)
    | (subst h; exact .inr ⟨[], rfl, fun _ => rfl⟩)
    | exact .inr (hclose h)

/-- Tokens that end in code leave an innermost bracket open, or they close only what was open before. -/
theorem isInnermost_or_closes {n m : Nest} {toks : List Token} (h : n.run (kinds toks) = some m)
    (hm : m.zone = .code) : (∃ o, IsInnermost toks o) ∨
      ∃ closed, n.opened = closed ++ m.opened ∧ Nest.run ⟨n.zone, closed⟩ (kinds toks) = some .top := by
  induction toks generalizing n with
  | nil =>
    obtain rfl := Option.some.inj h
    exact .inr ⟨[], rfl, by rw [hm]; rfl⟩
  | cons t toks ih =>
    rw [kinds_cons, Nest.run_cons] at h
    obtain ⟨n', hn, hr⟩ := Option.bind_eq_some_iff.1 h
    rcases ih hr with ⟨o, outer, inside, rfl, hopens, hitems⟩ | ⟨closed, hclosed, hrun⟩
    · exact .inl ⟨o, t :: outer, inside, rfl, hopens, hitems⟩
    · rcases Nest.after_cases hn with ⟨hopens, hzone, bracket, hbracket, hafter⟩ | ⟨first, hfirst, hafter⟩
      · rw [hzone] at hrun
        cases closed with
        | nil => exact .inl ⟨t, [], toks, rfl, hopens, items_iff_balanced.2 hrun⟩
        | cons b closed =>
          obtain ⟨rfl, houter⟩ := List.cons.inj (hbracket.symm.trans hclosed)
          refine .inr ⟨closed, houter, ?_⟩
          rw [kinds_cons, Nest.run_cons, hafter]
          exact hrun
      · refine .inr ⟨first ++ closed, by rw [hfirst, hclosed, List.append_assoc], ?_⟩
        rw [kinds_cons, Nest.run_cons, hafter]
        exact hrun

/-- Before a name in a template all brackets are closed, or there is an innermost one. -/
theorem items_or_isInnermost {before after : List Token} {t : Token} (h : Balanced (kinds (before ++ t :: after)))
    (ht : t.kind = .identifier) : Items (kinds before) ∨ ∃ o, IsInnermost before o := by
  rw [kinds_append, Balanced, Nest.run_append] at h
  obtain ⟨n, hn, hr⟩ := Option.bind_eq_some_iff.1 h
  have hzone : n.zone = .code := by
    rw [kinds_cons, ht, Nest.run_cons] at hr
    obtain ⟨m, hm, -⟩ := Option.bind_eq_some_iff.1 hr
    obtain ⟨zone, opened⟩ := n
    cases zone <;> first | rfl | cases hm
  rcases isInnermost_or_closes hn hzone with ho | ⟨closed, hclosed, hrun⟩
  · exact .inr ho
  · obtain rfl : closed = [] := (List.append_eq_nil_iff.1 hclosed.symm).1
    exact .inl (items_iff_balanced.2 hrun)

end Innermost

section Positions

/-- The name after the tokens is that of a member. -/
def IsMemberName (before : List Token) : Prop := ∃ t, before.getLast? = some t ∧ t.kind = .dot

/-- The name after the tokens is being declared. -/
def IsDeclaredName (before : List Token) : Prop :=
  ∃ t, before.getLast? = some t ∧ t.kind = .identifier ∧ t.text ∈ declaringWords

/-- The name between tokens is the key of a property: it stands before a colon and directly inside a brace, after that
brace or a separator. -/
structure IsKeyName (before after : List Token) : Prop where
  colon : ∃ t, after.head? = some t ∧ t.kind = .colon
  brace : ∃ o, IsInnermost before o ∧ o.kind = .braceOpen
  start : ∃ t, before.getLast? = some t ∧ (t.kind = .braceOpen ∨ t.kind = .newline ∨ t.kind = .comma)

/-- The name between tokens only looks like a key: it stands before a colon, at the start or after a separator, but
outside all brackets or directly inside one that is no brace. -/
structure IsTakenForKey (before after : List Token) : Prop where
  colon : ∃ t, after.head? = some t ∧ t.kind = .colon
  outside : Items (kinds before) ∨ ∃ o, IsInnermost before o ∧ o.kind ≠ .braceOpen
  start : ∀ t, before.getLast? = some t → t.kind = .newline ∨ t.kind = .comma

/-- The token with a number is a use of one of the symbols: a name that is neither that of a member nor a key nor being
declared. -/
def IsUseAt (symbols : List String) (toks : List Token) (i : Nat) : Prop :=
  ∃ t, toks[i]? = some t ∧ t.kind = .identifier ∧ t.text ∈ symbols ∧ ¬ IsMemberName (toks.take i) ∧
    ¬ IsKeyName (toks.take i) (toks.drop (i + 1)) ∧ ¬ IsDeclaredName (toks.take i)

/-- Points and names in turn, and the names. -/
inductive IsAccess : List Token → List String → Prop where
  | nil : IsAccess [] []
  | member {point name : Token} {others : List Token} {path : List String} : point.kind = .dot →
      name.kind = .identifier → IsAccess others path → IsAccess (point :: name :: others) (name.text :: path)

/-- What is said of the use at the token with a number: its symbol and place, and all members after it. -/
def Describes (toks : List Token) (i : Nat) (use : SymbolUse) : Prop :=
  ∃ t chain rest, toks[i]? = some t ∧ toks.drop (i + 1) = chain ++ rest ∧ IsAccess chain use.path ∧
    (∀ point name more, rest = point :: name :: more → ¬ (point.kind = .dot ∧ name.kind = .identifier)) ∧
    use.symbol = t.text ∧ use.span = ⟨t.span.start, (chain.getLast?.getD t).span.stop⟩ ∧
    use.line = t.line ∧ use.column = t.column

variable {before after : List Token}

/-- Newlines and commas separate. -/
theorem separates_iff {kind : TokenKind} : kind.separates = true ↔ kind = .newline ∨ kind = .comma := by
  cases kind <;> simp [TokenKind.separates]

/-- Where all brackets are closed or one of them is innermost, a key position is that of a key or only looks like it. -/
theorem isKeyPosition_iff (h : Items (kinds before) ∨ ∃ o, IsInnermost before o) :
    isKeyPosition before.reverse after = true ↔ IsKeyName before after ∨ IsTakenForKey before after := by
  simp only [isKeyPosition, List.head?_reverse, Bool.and_eq_true, Option.all_eq_true, Option.any_eq_true,
    Bool.or_eq_true, decide_eq_true_eq, separates_iff]
  constructor
  · rintro ⟨hstart, hcolon⟩
    by_cases hb : ∃ o, IsInnermost before o ∧ o.kind = .braceOpen
    · refine .inl ⟨hcolon, hb, ?_⟩
      obtain ⟨o, ⟨outer, inside, rfl, -⟩, -⟩ := hb
      have hlast : (outer ++ o :: inside).getLast? = some ((outer ++ o :: inside).getLast (by simp)) :=
        List.getLast?_eq_some_getLast _
      exact ⟨_, hlast, hstart _ hlast⟩
    · refine .inr ⟨hcolon, h.imp_right fun ⟨o, ho⟩ => ⟨o, ho, fun hk => hb ⟨o, ho, hk⟩⟩, fun t ht => ?_⟩
      -- a brace directly before the name would be the innermost bracket
      refine (hstart t ht).resolve_left fun hk => hb ⟨t, ?_, hk⟩
      obtain ⟨outer, rfl⟩ := List.getLast?_eq_some_iff.1 ht
      exact ⟨outer, [], rfl, by rw [hk]; rfl, .nil⟩
  · rintro (⟨hcolon, -, t, ht, hk⟩ | ⟨hcolon, -, hstart⟩)
    · refine ⟨fun u hu => ?_, hcolon⟩
      obtain rfl : t = u := Option.some.inj (ht.symm.trans hu)
      exact hk
    · exact ⟨fun t ht => .inr (hstart t ht), hcolon⟩

/-- A value position is one of a name that is neither that of a member nor a key nor being declared, and does not look
like a key. -/
theorem isValuePosition_iff (h : Items (kinds before) ∨ ∃ o, IsInnermost before o) :
    isValuePosition before.reverse after = true ↔ (¬ IsMemberName before ∧ ¬ IsKeyName before after ∧
      ¬ IsDeclaredName before) ∧ ¬ IsTakenForKey before after := by
  have hmember : before.reverse.head?.any (·.kind = .dot) = true ↔ IsMemberName before := by
    simp [IsMemberName, List.head?_reverse, Option.any_eq_true]
  have hdeclared : (before.reverse.head?.any fun t => t.kind = .identifier && declaringWords.contains t.text) = true ↔
      IsDeclaredName before := by
    simp [IsDeclaredName, List.head?_reverse, Option.any_eq_true]
  rw [isValuePosition, Bool.and_eq_true, Bool.and_eq_true, Bool.not_eq_true', Bool.not_eq_true', Bool.not_eq_true',
    ← Bool.not_eq_true, ← Bool.not_eq_true, ← Bool.not_eq_true, hmember, hdeclared, isKeyPosition_iff h, not_or]
  constructor
  · rintro ⟨⟨hm, hk, hlooks⟩, hd⟩
    exact ⟨⟨hm, hk, hd⟩, hlooks⟩
  · rintro ⟨⟨hm, hk, hd⟩, hlooks⟩
    exact ⟨⟨hm, hk, hlooks⟩, hd⟩

end Positions

section Search

/-- A use is found at the token with a number. -/
def FoundAt (symbols : List String) (toks : List Token) (i : Nat) (use : SymbolUse) : Prop :=
  ∃ t, toks[i]? = some t ∧ useAt? symbols (toks.take i).reverse t (toks.drop (i + 1)) = some use

/-- The search goes over the tokens one by one, so it finds each use once and in order. -/
theorem exists_places (symbols : List String) (before toks : List Token) :
    ∃ places : List Nat, places.Pairwise (· < ·) ∧
      (∀ i, i ∈ places ↔ before.length ≤ i ∧ ∃ use, FoundAt symbols (before ++ toks) i use) ∧
      List.Forall₂ (FoundAt symbols (before ++ toks)) places (usesFrom symbols before.reverse toks) := by
  induction toks generalizing before with
  | nil =>
    refine ⟨[], .nil, fun i => ?_, .nil⟩
    simp only [List.not_mem_nil, false_iff, not_and, List.append_nil]
    rintro hi ⟨use, t, ht, -⟩
    exact absurd (List.getElem?_eq_some_iff.1 ht).1 (Nat.not_lt.2 hi)
  | cons t toks ih =>
    have hhere : ∀ use, FoundAt symbols (before ++ t :: toks) before.length use ↔
        useAt? symbols before.reverse t toks = some use := by
      simp [FoundAt, List.drop_append, List.drop_eq_nil_of_le]
    obtain ⟨places, hsorted, hmem, hall⟩ := ih (before ++ [t])
    rw [List.append_assoc, List.singleton_append, List.length_append, List.length_singleton] at hmem
    rw [List.append_assoc, List.singleton_append, List.reverse_append, List.reverse_singleton,
      List.singleton_append] at hall
    rw [usesFrom_cons]
    have hsplit : ∀ i, before.length ≤ i ↔ i = before.length ∨ before.length + 1 ≤ i := by omega
    cases hu : useAt? symbols before.reverse t toks with
    | none =>
      refine ⟨places, hsorted, fun i => (hmem i).trans ?_, hall⟩
      rw [hsplit, or_and_right, or_iff_right]
      rintro ⟨rfl, use, huse⟩
      rw [hhere, hu] at huse
      cases huse
    | some use =>
      refine ⟨before.length :: places, List.pairwise_cons.2 ⟨fun i hi => ((hmem i).1 hi).1, hsorted⟩, fun i => ?_,
        .cons ((hhere use).2 hu) hall⟩
      rw [List.mem_cons, hmem, hsplit, or_and_right]
      exact or_congr_left (and_iff_left_of_imp fun hi => hi ▸ ⟨use, (hhere use).2 hu⟩).symm

/-- The members after a token are all that are accessed through it. -/
theorem exists_access (toks : List Token) :
    ∃ chain rest, toks = chain ++ rest ∧ IsAccess chain ((memberTokens toks).map (·.text)) ∧
      (∀ point name more, rest = point :: name :: more → ¬ (point.kind = .dot ∧ name.kind = .identifier)) ∧
      ∀ t, chain.getLast?.getD t = (memberTokens toks).getLast?.getD t := by
  fun_induction memberTokens toks with
  | case1 point name others hk ih =>
    simp only [Bool.and_eq_true, decide_eq_true_eq] at hk
    obtain ⟨chain, rest, rfl, haccess, hends, hlast⟩ := ih
    refine ⟨point :: name :: chain, rest, rfl, .member hk.1 hk.2 haccess, hends, fun t => ?_⟩
    rw [List.getLast?_cons, List.getLast?_cons, List.getLast?_cons, hlast]
    rfl
  | case2 point name others hk =>
    refine ⟨[], _, rfl, .nil, fun p n more hcons => ?_, fun t => rfl⟩
    simp only [List.cons.injEq] at hcons
    obtain ⟨rfl, rfl, -⟩ := hcons
    simpa using hk
  | case3 toks hne =>
    exact ⟨[], _, rfl, .nil, fun p n more hcons => absurd hcons (hne p n more), fun t => rfl⟩

/-- What is found at a token describes it. -/
theorem FoundAt.describes {symbols : List String} {toks : List Token} {i : Nat} {use : SymbolUse}
    (h : FoundAt symbols toks i use) : Describes toks i use := by
  obtain ⟨t, ht, hu⟩ := h
  obtain ⟨-, -, -, rfl⟩ := useAt?_eq_some_iff.1 hu
  obtain ⟨chain, rest, hrest, haccess, hends, hlast⟩ := exists_access (toks.drop (i + 1))
  exact ⟨t, chain, rest, ht, hrest, haccess, hends, rfl, by rw [hlast]; rfl, rfl, rfl⟩

/-- A use is found exactly where one stands that does not look like a key. -/
theorem exists_foundAt_iff {symbols : List String} {toks : List Token} (hb : Balanced (kinds toks)) {i : Nat} :
    (∃ use, FoundAt symbols toks i use) ↔
      IsUseAt symbols toks i ∧ ¬ IsTakenForKey (toks.take i) (toks.drop (i + 1)) := by
  have hplace {t : Token} (ht : toks[i]? = some t) (hk : t.kind = .identifier) :
      Items (kinds (toks.take i)) ∨ ∃ o, IsInnermost (toks.take i) o := by
    obtain ⟨hlt, hget⟩ := List.getElem?_eq_some_iff.1 ht
    refine (@items_or_isInnermost _ (toks.drop (i + 1)) t) ?_ hk
    rw [← hget, ← List.drop_eq_getElem_cons hlt, List.take_append_drop]
    exact hb
  unfold FoundAt IsUseAt useAt?
  constructor
  · rintro ⟨use, t, ht, hu⟩
    split at hu
    · next hall =>
      simp only [Bool.and_eq_true, decide_eq_true_eq, List.contains_iff_mem] at hall
      obtain ⟨⟨hk, hmem⟩, hvalue⟩ := hall
      obtain ⟨huse, hlooks⟩ := (isValuePosition_iff (hplace ht hk)).1 hvalue
      exact ⟨⟨t, ht, hk, hmem, huse⟩, hlooks⟩
    · cases hu
  · rintro ⟨⟨t, ht, hk, hmem, huse⟩, hlooks⟩
    have hvalue := (isValuePosition_iff (hplace ht hk)).2 ⟨huse, hlooks⟩
    exact ⟨_, t, ht, by rw [if_pos (by simp [hk, hmem, hvalue])]⟩

/-- The uses that are found are those of the symbols in the template, in order and each once, but for names that are
taken for keys. Each comes with its place and with all members that are accessed through it. -/
theorem findUses_exact {source : String} {toks : List Token} (h : tokenize source = .ok toks)
    (symbols : List String) :
    ∃ places : List Nat, places.Pairwise (· < ·) ∧
      (∀ i, i ∈ places ↔ IsUseAt symbols toks i ∧ ¬ IsTakenForKey (toks.take i) (toks.drop (i + 1))) ∧
      List.Forall₂ (Describes toks) places (findUses symbols toks) := by
  have hb := balanced_tokenize h
  obtain ⟨places, hsorted, hmem, hall⟩ := exists_places symbols [] toks
  refine ⟨places, hsorted, fun i => ?_, hall.imp fun i use hfound => hfound.describes⟩
  rw [hmem, List.nil_append, exists_foundAt_iff hb]
  exact and_iff_right (Nat.zero_le i)

/-- A template that uses a symbol in many places: as the value of a key of the same name, with members, inside a hole,
and at the start of an element before a colon. -/
def spreadSource : String :=
  "var sa = \x7b\n  sa: sa.a.b\n  n: '$\x7bsa\x7d'\n\x7d\nvar x = [\n  sa : 1\n]\n"

/-- A use whose members stand on several lines is found whole, and a key is left out. -/
theorem findUses_exact_spread :
    tokenize spreadSource = .ok (tokensOf spreadSource) ∧
      (findUses ["sa"] (tokensOf spreadSource)).map (fun u => (u.dotted, u.span)) =
        [("sa.a.b", ⟨17, 23⟩), ("sa", ⟨32, 34⟩)] ∧
      ∃ places : List Nat, places.Pairwise (· < ·) ∧
        (∀ i, i ∈ places ↔ IsUseAt ["sa"] (tokensOf spreadSource) i ∧
          ¬ IsTakenForKey ((tokensOf spreadSource).take i) ((tokensOf spreadSource).drop (i + 1))) ∧
        List.Forall₂ (Describes (tokensOf spreadSource)) places (findUses ["sa"] (tokensOf spreadSource)) := by
  have h : tokenize spreadSource = .ok (tokensOf spreadSource) := tokenize_eq (by decide +kernel)
  exact ⟨h, by decide +kernel, findUses_exact h ["sa"]⟩

/-- A template with a symbol on a line of its own between the branches of a choice in parentheses. -/
def branchSource : String := "var x = (c ?\nsa : 1)\n"

/-- A use before a colon in parentheses is not found if it stands at the start of a line. -/
theorem findUses_misses_branch :
    tokenize branchSource = .ok (tokensOf branchSource) ∧ IsUseAt ["sa"] (tokensOf branchSource) 7 ∧
      findUses ["sa"] (tokensOf branchSource) = [] := by
  have hbrace : ∀ t ∈ (tokensOf branchSource).take 7, t.kind ≠ .braceOpen := by decide +kernel
  have hlast : (((tokensOf branchSource).take 7).getLast?.map (·.kind)) = some .newline := by decide +kernel
  have hname : ((tokensOf branchSource)[7]?.map fun t => (t.kind, t.text)) = some (.identifier, "sa") := by
    decide +kernel
  refine ⟨tokenize_eq (by decide +kernel), ?_, by decide +kernel⟩
  obtain ⟨t, ht, htext⟩ := Option.map_eq_some_iff.1 hname
  obtain ⟨u, hu, hukind⟩ := Option.map_eq_some_iff.1 hlast
  obtain ⟨hkind, htext⟩ := Prod.mk.inj htext
  refine ⟨t, ht, hkind, by simp [htext], ?_, ?_, ?_⟩
  · rintro ⟨v, hv, hk⟩
    obtain rfl := Option.some.inj (hu.symm.trans hv)
    rw [hukind] at hk
    cases hk
  · rintro ⟨-, ⟨o, ⟨outer, inside, hsplit, -⟩, hk⟩, -⟩
    exact hbrace o (by rw [hsplit]; simp) hk
  · rintro ⟨v, hv, hk, -⟩
    obtain rfl := Option.some.inj (hu.symm.trans hv)
    rw [hukind] at hk
    cases hk

end Search

end BicepMigration.Template
