import BicepMigration.Proofs.Template.CoveredBodies
import BicepMigration.Proofs.Template.NextUse

/-!
# Places of uses

Every use is found at a token, and the token is known from where it starts: by its offset, and also by its line and its
column, which both only grow from one token to the next. Main statement: uses of one search that start at the same place
are the same use.
-/

namespace BicepMigration.Text

/-- A place comes before another one, as a reader counts lines and columns. -/
def Cursor.Precedes (a b : Cursor) : Prop := a.line < b.line ∨ a.line = b.line ∧ a.column < b.column

namespace Cursor

variable {a b c : Cursor}

/-- The order of places is transitive. -/
theorem Precedes.trans (h : a.Precedes b) (h' : b.Precedes c) : a.Precedes c := by
  unfold Precedes at *
  omega

/-- The next place is a later one. -/
theorem precedes_next (here : Cursor) (c : Char) : here.Precedes (here.next c) := by
  unfold next
  split
  · exact .inl (Nat.lt_succ_self _)
  · exact .inr ⟨rfl, Nat.lt_add_of_pos_right c.utf8Size_pos⟩

/-- Whoever walks over a text stays or gets on. -/
theorem eq_or_precedes_advance (here : Cursor) (cs : List Char) :
    here.advance cs = here ∨ here.Precedes (here.advance cs) := by
  induction cs generalizing here with
  | nil => exact .inl rfl
  | cons c cs ih =>
    rw [advance_cons]
    rcases ih (here.next c) with hsame | hnext
    · rw [hsame]
      exact .inr (precedes_next here c)
    · exact .inr ((precedes_next here c).trans hnext)

/-- Behind some text stands a later place. -/
theorem precedes_advance (here : Cursor) {cs : List Char} (h : cs ≠ []) : here.Precedes (here.advance cs) := by
  obtain ⟨c, cs, rfl⟩ := List.exists_cons_of_ne_nil h
  rw [advance_cons]
  rcases eq_or_precedes_advance (here.next c) cs with hsame | hnext
  · rw [hsame]
    exact precedes_next here c
  · exact (precedes_next here c).trans hnext

end Cursor

end BicepMigration.Text

namespace BicepMigration.Template

open Text

/-- Where a token starts. -/
def Token.place (t : Token) : Cursor := ⟨t.span.start, t.line, t.column⟩

section Tokens

variable {before after before' after' : List Token} {t t' : Token}

/-- In a list that a relation orders, a token is known from its place in the order. -/
theorem place_inj {r : Token → Token → Prop} (h : (before ++ t :: after).Pairwise r)
    (heq : before ++ t :: after = before' ++ t' :: after') (hne : ¬ r t t') (hne' : ¬ r t' t) :
    before = before' ∧ t = t' ∧ after = after' := by
  -- two tokens in different places are related
  have hrel {x y z : List Token} {a b : Token} (h : (x ++ a :: (y ++ b :: z)).Pairwise r) : r a b :=
    (List.pairwise_cons.1 (List.pairwise_append.1 h).2.1).1 b (by simp)
  rcases List.append_eq_append_iff.1 heq with ⟨x, rfl, hx⟩ | ⟨x, rfl, hx⟩
  · cases x with
    | nil =>
      obtain ⟨rfl, rfl⟩ := List.cons.inj hx
      exact ⟨by simp, rfl, rfl⟩
    | cons u x =>
      obtain ⟨rfl, rfl⟩ := List.cons.inj hx
      exact absurd (hrel h) hne
  · cases x with
    | nil =>
      obtain ⟨rfl, rfl⟩ := List.cons.inj hx
      exact ⟨by simp, rfl, rfl⟩
    | cons u x =>
      obtain ⟨rfl, rfl⟩ := List.cons.inj hx
      rw [heq] at h
      exact absurd (hrel h) hne'

/-- A token is known from the offset where it starts. -/
theorem Successive.place_inj (h : Successive (before ++ t :: after))
    (heq : before ++ t :: after = before' ++ t' :: after') (hstart : t.span.start = t'.span.start) :
    before = before' ∧ t = t' ∧ after = after' := by
  have hpos := h.nonempty t (by simp)
  have hpos' := h.nonempty t' (by simp [heq])
  exact Template.place_inj h.increasing heq (by omega) (by omega)

/-- Tokens come in the order of their lines and columns. -/
theorem precedes_tokensAt {ls : List Lexeme} (h : ∀ l ∈ ls, l.text ≠ []) (here : Cursor) :
    (tokensAt here ls).Pairwise (fun a b => a.place.Precedes b.place) ∧
      ∀ t ∈ tokensAt here ls, t.place = here ∨ here.Precedes t.place := by
  induction ls generalizing here with
  | nil => simp
  | cons l ls ih =>
    obtain ⟨hpairs, hplaces⟩ := ih (fun m hm => h m (List.mem_cons_of_mem _ hm)) (here.advance (l.gap ++ l.text))
    have hgap := here.eq_or_precedes_advance l.gap
    have htext := (here.advance l.gap).precedes_advance (h l List.mem_cons_self)
    rw [← Cursor.advance_append] at htext
    have hafter : ∀ t ∈ tokensAt (here.advance (l.gap ++ l.text)) ls, (here.advance l.gap).Precedes t.place := by
      intro t ht
      rcases hplaces t ht with hsame | hnext
      · rwa [hsame]
      · exact htext.trans hnext
    rw [tokensAt_cons]
    refine ⟨List.pairwise_cons.2 ⟨hafter, hpairs⟩, fun t ht => ?_⟩
    rcases List.mem_cons.1 ht with rfl | ht
    · exact hgap
    · rcases hgap with hsame | hnext
      · rw [hsame] at hafter
        exact .inr (hafter t ht)
      · exact .inr (hnext.trans (hafter t ht))

end Tokens

section Uses

variable {symbols : List String} {toks : List Token} {u v : SymbolUse}

/-- A use is found at a token that is a symbol and stands for a value. -/
theorem exists_place_of_mem_findUses (h : u ∈ findUses symbols toks) :
    ∃ before t after, toks = before ++ t :: after ∧ t.kind = .identifier ∧ t.text ∈ symbols ∧
      u = SymbolUse.at before.reverse t after := by
  obtain ⟨before, t, after, heq, hu⟩ := (mem_usesFrom_iff.1 h).exists_place
  rw [List.append_nil, List.append_nil] at hu
  obtain ⟨hkind, hsymbol, -, hat⟩ := useAt?_eq_some_iff.1 hu
  exact ⟨before, t, after, heq, hkind, hsymbol, hat⟩

/-- Where a use starts. -/
def SymbolUse.place (u : SymbolUse) : Cursor := ⟨u.span.start, u.line, u.column⟩

/-- Uses are known from where they start, if tokens are. -/
theorem use_inj {r : Token → Token → Prop} (h : toks.Pairwise r) (hu : u ∈ findUses symbols toks)
    (hv : v ∈ findUses symbols toks)
    (hne : ∀ t t' : Token, t.place = u.place → t'.place = v.place → ¬ r t t' ∧ ¬ r t' t) : u = v := by
  obtain ⟨before, t, after, rfl, -, -, rfl⟩ := exists_place_of_mem_findUses hu
  obtain ⟨before', t', after', heq, -, -, rfl⟩ := exists_place_of_mem_findUses hv
  obtain ⟨hrel, hrel'⟩ := hne t t' rfl rfl
  obtain ⟨rfl, rfl, rfl⟩ := place_inj h heq hrel hrel'
  rfl

variable {source : String} {template : ScannedTemplate}

/-- Uses in a template that start at the same offset are the same. -/
theorem use_eq_of_start (h : scan source = .ok template) (hu : u ∈ findUses symbols template.tokens)
    (hv : v ∈ findUses symbols template.tokens) (hstart : u.span.start = v.span.start) : u = v := by
  obtain ⟨l, -, rfl⟩ := scan_eq_ok_iff.1 h
  have hpairs : l.tokens.Pairwise fun a b => a.span.start < b.span.start :=
    (pairwise_start_tokensAt l.legible.forall_ne_nil l.start).1
  refine use_inj hpairs hu hv fun t t' ht ht' => ?_
  have hsame : t.span.start = t'.span.start :=
    (congrArg Cursor.offset ht).trans (hstart.trans (congrArg Cursor.offset ht').symm)
  omega

/-- Uses in a template that start on the same line and in the same column are the same. -/
theorem use_eq_of_line (h : scan source = .ok template) (hu : u ∈ findUses symbols template.tokens)
    (hv : v ∈ findUses symbols template.tokens) (hline : u.line = v.line) (hcolumn : u.column = v.column) : u = v := by
  obtain ⟨l, -, rfl⟩ := scan_eq_ok_iff.1 h
  have hpairs : l.tokens.Pairwise fun a b => a.place.Precedes b.place :=
    (precedes_tokensAt l.legible.forall_ne_nil l.start).1
  refine use_inj hpairs hu hv fun t t' ht ht' => ?_
  have hsame : t.place.line = t'.place.line :=
    (congrArg Cursor.line ht).trans (hline.trans (congrArg Cursor.line ht').symm)
  have hsame' : t.place.column = t'.place.column :=
    (congrArg Cursor.column ht).trans (hcolumn.trans (congrArg Cursor.column ht').symm)
  unfold Cursor.Precedes
  omega

end Uses

end BicepMigration.Template
