import BicepMigration.Proofs.Template.OwnTokens
import BicepMigration.Proofs.Template.Renaming

/-!
# Reading renamed tokens

Tokens are renamed if some names, with the members that follow them, are exchanged for others. The token after a
declaring word stays. Lines, brackets and elements stay as they are, because these depend on the kinds of tokens. So a
statement in renamed tokens ends where it did before. What it declares is not described here.
-/

namespace BicepMigration.Template

open Text

/-- Points and names in turn. -/
inductive AreMembers : List Token → Prop where
  | nil : AreMembers []
  | cons {point name : Token} {rest : List Token} : point.kind = .dot → name.kind = .identifier → AreMembers rest →
      AreMembers (point :: name :: rest)

/-- The token is a word before the name in a declaration. -/
def Token.declares (t : Token) : Bool := t.kind = .identifier && declaringWords.contains t.text

/-- Tokens in which some names with their members were exchanged for others. A name without members stays one. The
token after a declaring word stays, and so does the first one if it is fixed. -/
inductive Renamed (r : Token → Token → Prop) : Bool → List Token → List Token → Prop where
  | nil {fixed : Bool} : Renamed r fixed [] []
  | keep {fixed : Bool} {t u : Token} {a b : List Token} : u.kind = t.kind → u.text = t.text →
      Renamed r t.declares a b → Renamed r fixed (t :: a) (u :: b)
  | swap {t u : Token} {m n a b : List Token} : t.kind = .identifier → u.kind = .identifier → r t u →
      AreMembers m → AreMembers n → (m = [] ↔ n = []) → Renamed r false a b →
      Renamed r false (t :: (m ++ a)) (u :: (n ++ b))

variable {r : Token → Token → Prop} {fixed : Bool} {a b : List Token}

/-- Tokens of one kind and text declare alike. -/
theorem Token.declares_congr {t u : Token} (hk : u.kind = t.kind) (ht : u.text = t.text) : u.declares = t.declares := by
  rw [Token.declares, Token.declares, hk, ht]

namespace Renamed

/-- Names are exchanged both ways. -/
theorem symm (h : Renamed r fixed a b) : Renamed (fun x y => r y x) fixed b a := by
  induction h with
  | nil => exact .nil
  | keep hk ht _ ih => exact .keep hk.symm ht.symm (Token.declares_congr hk ht ▸ ih)
  | swap ht hu hr hm hn hiff _ ih => exact .swap hu ht hr hn hm hiff.symm ih

/-- The first token need not be fixed. -/
theorem loosen (h : Renamed r fixed a b) : Renamed r false a b := by
  cases h with
  | nil => exact .nil
  | keep hk ht h => exact .keep hk ht h
  | swap ht hu hr hm hn hiff h => exact .swap ht hu hr hm hn hiff h

/-- No tokens become no tokens. -/
theorem nil_left (h : Renamed r fixed [] b) : b = [] := by
  cases h
  rfl

/-- The first token keeps its kind. -/
theorem cons_left {t : Token} (h : Renamed r fixed (t :: a) b) : ∃ u us, b = u :: us ∧ u.kind = t.kind := by
  cases h with
  | keep hk _ _ => exact ⟨_, _, rfl, hk⟩
  | swap ht hu _ _ _ _ _ => exact ⟨_, _, rfl, hu.trans ht.symm⟩

end Renamed

section Breaks

variable {stop : TokenKind → Bool}

/-- A name with its members breaks nothing. -/
theorem breakOutside_name (hi : stop .identifier = false) (hd : stop .dot = false) {t : Token}
    (ht : t.kind = .identifier) {m : List Token} (h : AreMembers m) (depth : Nat) (ts : List Token) :
    breakOutside stop depth (t :: (m ++ ts)) =
      (t :: (m ++ (breakOutside stop depth ts).1), (breakOutside stop depth ts).2) := by
  have hname {t : Token} (ht : t.kind = .identifier) (us : List Token) :
      breakOutside stop depth (t :: us) = (t :: (breakOutside stop depth us).1, (breakOutside stop depth us).2) := by
    simp only [breakOutside, ht, hi, Bool.and_false, Bool.false_eq_true, if_false]
    rfl
  have hpoint {t : Token} (ht : t.kind = .dot) (us : List Token) :
      breakOutside stop depth (t :: us) = (t :: (breakOutside stop depth us).1, (breakOutside stop depth us).2) := by
    simp only [breakOutside, ht, hd, Bool.and_false, Bool.false_eq_true, if_false]
    rfl
  induction h generalizing t with
  | nil => exact hname ht ts
  | cons hp hn _ ih =>
    rw [hname ht, List.cons_append, List.cons_append, hpoint hp, ih hn]
    rfl

/-- A name with members does not change where a bracket is closed. -/
theorem breakAtClose_name {t : Token} (ht : t.kind = .identifier) {m : List Token} (h : AreMembers m) (depth : Nat)
    (ts : List Token) :
    breakAtClose depth (t :: (m ++ ts)) =
      (breakAtClose depth ts).map fun (found, close, rest) => (t :: (m ++ found), close, rest) := by
  have hname {t : Token} (ht : t.kind = .identifier) (us : List Token) :
      breakAtClose depth (t :: us) =
        (breakAtClose depth us).map fun (found, close, rest) => (t :: found, close, rest) := by
    simp only [breakAtClose, ht, TokenKind.closes, Bool.and_false, Bool.false_eq_true, if_false]
    rfl
  have hpoint {t : Token} (ht : t.kind = .dot) (us : List Token) :
      breakAtClose depth (t :: us) =
        (breakAtClose depth us).map fun (found, close, rest) => (t :: found, close, rest) := by
    simp only [breakAtClose, ht, TokenKind.closes, Bool.and_false, Bool.false_eq_true, if_false]
    rfl
  induction h generalizing t with
  | nil => exact hname ht ts
  | cons hp hn _ ih =>
    rw [hname ht, List.cons_append, List.cons_append, hpoint hp, ih hn, Option.map_map, Option.map_map]
    rfl

namespace Renamed

/-- Tokens are cut in two at corresponding places. -/
theorem breakOutside (h : Renamed r fixed a b) (hi : stop .identifier = false) (hd : stop .dot = false)
    (depth : Nat) : Renamed r fixed (breakOutside stop depth a).1 (breakOutside stop depth b).1 ∧
      Renamed r false (breakOutside stop depth a).2 (breakOutside stop depth b).2 := by
  induction h generalizing depth with
  | nil => exact ⟨.nil, .nil⟩
  | keep hk ht h ih =>
    rw [Template.breakOutside, Template.breakOutside, hk]
    split
    · exact ⟨.nil, .keep hk ht h⟩
    · exact ⟨.keep hk ht (ih _).1, (ih _).2⟩
  | swap ht hu hr hm hn hiff _ ih =>
    rw [breakOutside_name hi hd ht hm, breakOutside_name hi hd hu hn]
    exact ⟨.swap ht hu hr hm hn hiff (ih depth).1, (ih depth).2⟩

/-- Brackets are closed at corresponding places. -/
theorem breakAtClose (h : Renamed r fixed a b) {depth : Nat} {found rest : List Token} {close : Token}
    (hb : breakAtClose depth a = some (found, close, rest)) :
    ∃ found' close' rest', breakAtClose depth b = some (found', close', rest') ∧ close'.kind = close.kind ∧
      Renamed r fixed found found' ∧ Renamed r false rest rest' := by
  induction h generalizing depth found with
  | nil => cases hb
  | @keep fixed t u a b hk ht h ih =>
    rw [Template.breakAtClose] at hb
    rw [Template.breakAtClose, hk]
    split at hb
    · next hc =>
      obtain ⟨rfl, rfl, rfl⟩ : [] = found ∧ t = close ∧ a = rest := by simpa using hb
      rw [if_pos hc]
      exact ⟨_, _, _, rfl, hk, .nil, h.loosen⟩
    · next hc =>
      obtain ⟨⟨found₀, close₀, rest₀⟩, hr, heq⟩ := Option.map_eq_some_iff.1 hb
      obtain ⟨rfl, rfl, rfl⟩ : t :: found₀ = found ∧ close₀ = close ∧ rest₀ = rest := by simpa using heq
      obtain ⟨found', close', rest', hb', hclose, hf, hrest⟩ := ih hr
      rw [if_neg hc, hb']
      exact ⟨_, _, _, rfl, hclose, .keep hk ht hf, hrest⟩
  | @swap t u m n a b ht hu hrel hm hn hiff _ ih =>
    rw [breakAtClose_name ht hm] at hb
    rw [breakAtClose_name hu hn]
    obtain ⟨⟨found₀, close₀, rest₀⟩, hr, heq⟩ := Option.map_eq_some_iff.1 hb
    obtain ⟨rfl, rfl, rfl⟩ : t :: (m ++ found₀) = found ∧ close₀ = close ∧ rest₀ = rest := by simpa using heq
    obtain ⟨found', close', rest', hb', hclose, hf, hrest⟩ := ih hr
    rw [hb']
    exact ⟨_, _, _, rfl, hclose, .swap ht hu hrel hm hn hiff hf, hrest⟩

/-- What is skipped by kind is skipped in renamed tokens too, if it is no name. -/
theorem dropWhile (h : Renamed r fixed a b) (hi : stop .identifier = false) :
    Renamed r false (a.dropWhile fun t => stop t.kind) (b.dropWhile fun t => stop t.kind) := by
  induction h with
  | nil => exact .nil
  | keep hk ht h ih =>
    rw [List.dropWhile_cons, List.dropWhile_cons, hk]
    split
    · exact ih
    · exact .keep hk ht h
  | swap ht hu hr hm hn hiff h _ =>
    rw [List.dropWhile_cons_of_neg (by simp [ht, hi]), List.dropWhile_cons_of_neg (by simp [hu, hi])]
    exact .swap ht hu hr hm hn hiff h

/-- Lines end at corresponding places. -/
theorem breakLine (h : Renamed r fixed a b) :
    Renamed r fixed (breakLine a).1 (breakLine b).1 ∧ Renamed r false (breakLine a).2 (breakLine b).2 :=
  h.breakOutside rfl rfl 0

/-- Newlines are passed over alike. -/
theorem skipNewlines (h : Renamed r fixed a b) : Renamed r false (skipNewlines a) (skipNewlines b) :=
  (@Renamed.dropWhile r fixed a b (fun k => decide (k = .newline)) h) rfl

end Renamed

end Breaks

section Statements

variable {source source' : String}

/-- Behind a decorator the next one is read. -/
theorem afterDecorators_of_atSign {t : Token} {ts : List Token} (h : t.kind = .atSign) :
    (readDecorators source (t :: ts)).2 = (readDecorators source (skipNewlines (breakLine (t :: ts)).2)).2 := by
  rw [readDecorators, dif_pos h]

/-- Without a decorator nothing is passed over. -/
theorem afterDecorators_of_ne {t : Token} {ts : List Token} (h : t.kind ≠ .atSign) :
    (readDecorators source (t :: ts)).2 = t :: ts := by
  rw [readDecorators, dif_neg h]

/-- What comes after the decorators. -/
theorem Renamed.afterDecorators (h : Renamed r false a b) :
    Renamed r false (readDecorators source a).2 (readDecorators source' b).2 := by
  fun_induction readDecorators source a generalizing b with
  | case1 =>
    obtain rfl := h.nil_left
    rw [readDecorators]
    exact .nil
  | case2 t ts hat _ line others =>
    rename_i ih
    obtain ⟨u, us, rfl, hk⟩ := h.cons_left
    rw [afterDecorators_of_atSign (hk.trans hat)]
    exact ih h.breakLine.2.skipNewlines
  | case3 t ts hat =>
    obtain ⟨u, us, rfl, hk⟩ := h.cons_left
    rw [afterDecorators_of_ne (hk ▸ hat)]
    exact h

/-- A statement in renamed tokens ends where it ended. -/
theorem Renamed.afterStatement {t u : Token} (h : Renamed r false (t :: a) (u :: b)) :
    Renamed r false (readStatement source t a).2 (readStatement source' u b).2 := by
  change Renamed r false (readStatementBody source (readDecorators source (t :: a)).2).2
    (readStatementBody source' (readDecorators source' (u :: b)).2).2
  rw [readStatementBody_snd, readStatementBody_snd]
  exact h.afterDecorators.breakLine.2

/-- Renamed tokens are read as one statement if the tokens before are. -/
theorem IsSingle.renamed {last : Prop} {first first' : Token} {others others' : List Token}
    (h : IsSingle source first others last) (hr : Renamed r false (first :: others) (first' :: others'))
    (hb : Balanced (kinds (first' :: others'))) : IsSingle source' first' others' last where
  balanced := hb
  rest := by
    have hrest : Renamed r false (readStatement source first others).2 (readStatement source' first' others').2 :=
      hr.afterStatement
    rw [h.rest] at hrest
    exact hrest.nil_left
  declared hd := by
    have hafter : Renamed r false (readDecorators source (first :: others)).2
        (readDecorators source' (first' :: others')).2 := hr.afterDecorators
    rw [hd] at hafter
    exact h.declared hafter.symm.nil_left

end Statements

section Changes

/-- The tokens of members are members. -/
theorem areMembers_tokensAt {m : List Lexeme} (h : IsMembers m) (here : Cursor) : AreMembers (tokensAt here m) := by
  induction h generalizing here with
  | nil => exact .nil
  | @cons point name rest hp hn _ ih =>
    rw [tokensAt_cons, tokensAt_cons]
    exact .cons hp hn (ih _)

/-- The change exchanges a name for one that is related to it, wherever they stand. -/
def Change.Relates (r : Token → Token → Prop) : Change → Prop
  | .keep _ => True
  | .swap first _ new _ =>
    ∀ here here', r (Token.ofChars first.kind here first.text) (Token.ofChars new.kind here' new.text)

/-- No name after a declaring word is exchanged; nor is the first one, if it is fixed. -/
def SparesDeclared (fixed : Bool) : List Change → Prop
  | [] => True
  | .keep l :: cs => SparesDeclared (l.kind = .identifier && declaringWords.contains (String.ofList l.text)) cs
  | .swap .. :: cs => fixed = false ∧ SparesDeclared false cs

/-- What spares a fixed declaration spares a loose one. -/
theorem SparesDeclared.loosen {cs : List Change} (h : SparesDeclared fixed cs) : SparesDeclared false cs := by
  cases cs with
  | nil => trivial
  | cons c cs =>
    cases c with
    | keep l => exact h
    | swap first others new more => exact ⟨rfl, h.2⟩

/-- Changes that spare declarations do so in each of two runs. -/
theorem SparesDeclared.append {cs ds : List Change} (h : SparesDeclared fixed (cs ++ ds)) :
    SparesDeclared fixed cs ∧ SparesDeclared false ds := by
  induction cs generalizing fixed with
  | nil => exact ⟨trivial, h.loosen⟩
  | cons c cs ih =>
    cases c with
    | keep l => exact ih h
    | swap first others new more => exact ⟨⟨h.1, (ih h.2).1⟩, (ih h.2).2⟩

/-- What spares declarations among all changes does so among some of them. -/
theorem SparesDeclared.mono {cs ds : List Change} (h : SparesDeclared fixed ds) (hs : cs <:+: ds) :
    SparesDeclared false cs := by
  obtain ⟨before, after, rfl⟩ := hs
  rw [List.append_assoc] at h
  exact h.append.2.append.1

/-- The name in a declaration is no use, so it is not exchanged. -/
theorem sparesDeclared_useChanges (symbols : List String) (replace : Replacements) (before : List Token) (here : Cursor)
    (ls : List Lexeme) :
    SparesDeclared (before.head?.any Token.declares) (useChanges symbols replace before here ls) := by
  fun_induction useChanges symbols replace before here ls with
  | case1 => trivial
  | case2 before here l ls t next hr ih => exact ih
  | case3 before here l ls t next new more hr members _ ih =>
    obtain ⟨use, huse, -⟩ := Option.bind_eq_some_iff.1 hr
    refine ⟨?_, ih.loosen⟩
    obtain ⟨-, -, hvalue, -⟩ := useAt?_eq_some_iff.1 huse
    exact Bool.not_inj (Bool.and_eq_true_iff.1 hvalue).2

/-- Changes that rename give renamed tokens. -/
theorem renamed_news {cs : List Change} (hc : ∀ c ∈ cs, c.Renames) (hr : ∀ c ∈ cs, c.Relates r)
    (hs : SparesDeclared fixed cs) (here here' : Cursor) :
    Renamed r fixed (tokensAt here (olds cs)) (tokensAt here' (news cs)) := by
  have hnil (here : Cursor) (ls : List Lexeme) : tokensAt here ls = [] ↔ ls = [] := by
    cases ls <;> simp [tokensAt_cons]
  induction cs generalizing here here' fixed with
  | nil => exact .nil
  | cons c cs ih =>
    have hrest {fixed : Bool} (hs : SparesDeclared fixed cs) := ih (fun d hd => hc d (List.mem_cons_of_mem _ hd))
      (fun d hd => hr d (List.mem_cons_of_mem _ hd)) hs
    rw [olds_cons, news_cons, tokensAt_append, tokensAt_append]
    cases c with
    | keep l => exact .keep rfl rfl (hrest hs _ _)
    | swap first others new more =>
      obtain ⟨hk, hm, hrenaming, hiff⟩ := hc _ List.mem_cons_self
      obtain ⟨rfl, hs⟩ := hs
      refine .swap hk hrenaming.kind (hr _ List.mem_cons_self _ _) (areMembers_tokensAt hm _)
        (areMembers_tokensAt hrenaming.members _) ?_ (hrest hs _ _)
      rw [hnil, hnil]
      exact hiff.symm

end Changes

end BicepMigration.Template
