import BicepMigration.Proofs.Template.Element
import BicepMigration.Proofs.Template.UseChange

/-!
# Renaming in place

A name with its members is exchanged for a longer name with other members. Changes of this form leave text legible,
they leave brackets and strings as they are, and they break no element. They say nothing of what the names mean.
-/

namespace BicepMigration.Template

/-- A name that starts like another one, with members, is written without white space. -/
structure IsRenaming (first new : Lexeme) (more : List Lexeme) : Prop where
  kind : new.kind = .identifier
  text : ∃ suffix, new.text = first.text ++ suffix ∧ ∀ c ∈ suffix, isNamePart c = true
  members : IsMembers more
  spelled : ∀ l ∈ more, l.gap = [] ∧ IsSpelled l.kind l.text ∧ (l.kind = .dot → l.text = ['.'])

/-- The change keeps a lexeme, or exchanges a name with its members for a longer one. Members are exchanged for
members. -/
def Change.Renames : Change → Prop
  | .keep _ => True
  | .swap first others new more =>
    first.kind = .identifier ∧ IsMembers others ∧ IsRenaming first new more ∧ (more = [] ↔ others = [])

/-- No character that could go on with a name follows a name with its members. -/
theorem head_not_namePart {first : Lexeme} {others : List Lexeme} {rest : List Char} (hf : first.kind = .identifier)
    (hm : IsMembers others) (h : Legible (first :: others) rest) :
    ∀ c, rest.head? = some c → isNamePart c = false := by
  induction hm generalizing first with
  | nil =>
    obtain ⟨-, -, he, -⟩ := h
    rw [hf] at he
    exact he
  | @cons point name members hp hn _ ih =>
    obtain ⟨-, -, -, hl⟩ := h
    exact ih hn hl.2.2.2

/-- Points and names can be read where no name can go on. -/
theorem legible_members {more : List Lexeme} {rest : List Char} (hm : IsMembers more)
    (hs : ∀ l ∈ more, l.gap = [] ∧ IsSpelled l.kind l.text ∧ (l.kind = .dot → l.text = ['.']))
    (hrest : ∀ c, rest.head? = some c → isNamePart c = false) :
    Legible more rest ∧ ∀ c, (written more ++ rest).head? = some c → isNamePart c = false := by
  induction hm with
  | nil => exact ⟨trivial, hrest⟩
  | @cons point name others hp hn _ ih =>
    obtain ⟨hpgap, hpspelled, hptext⟩ := hs point (by simp)
    obtain ⟨hngap, hnspelled, -⟩ := hs name (by simp)
    obtain ⟨hothers, hhead⟩ := ih fun l hl => hs l (by simp [hl])
    have hdot := hptext hp
    refine ⟨⟨?_, ⟨hpspelled, fun _ => hpgap⟩, ?_, ?_, ⟨hnspelled, fun _ => hngap⟩, ?_, hothers⟩, ?_⟩
    · rw [hpgap]
      exact .nil
    · rw [hp, hdot]
      intro c hc
      obtain rfl : '.' = c := by simpa using hc
      exact ⟨by simp [markAt], by simp⟩
    · rw [hngap]
      exact .nil
    · rw [hn]
      exact hhead
    · intro c hc
      rw [written_cons, hpgap, hdot] at hc
      obtain rfl : '.' = c := by simpa using hc
      decide

/-- The longer name can be read in place of the shorter one. -/
theorem legible_renaming {first new : Lexeme} {others more : List Lexeme} {rest : List Char}
    (hf : first.kind = .identifier) (hm : IsMembers others) (hr : IsRenaming first new more)
    (h : Legible (first :: others) rest) : Legible ({ new with gap := first.gap } :: more) rest := by
  have hhead := head_not_namePart hf hm h
  obtain ⟨hg, ⟨hs, -⟩, -, -⟩ := h
  obtain ⟨hk, ⟨suffix, htext, hsuffix⟩, hmore, hspelled⟩ := hr
  rw [hf] at hs
  obtain ⟨c, cs, hc, hstart, hparts⟩ := hs
  obtain ⟨hl, hnext⟩ := legible_members hmore hspelled hhead
  refine ⟨hg.of_head_eq ?_, ⟨?_, fun hi => ?_⟩, ?_, hl⟩
  · simp only
    rw [htext, hc]
    rfl
  · rw [hk]
    refine ⟨c, cs ++ suffix, ?_, hstart, fun d hd => ?_⟩
    · rw [htext, hc]
      rfl
    · rcases List.mem_append.1 hd with hd | hd
      · exact hparts d hd
      · exact hsuffix d hd
  · rw [hk] at hi
    cases hi
  · rw [hk]
    exact hnext

/-- A legible name starts with a character that starts names. -/
theorem isNameStart_of_legible {first : Lexeme} {others : List Lexeme} {rest : List Char}
    (hf : first.kind = .identifier) (h : Legible (first :: others) rest) :
    ∃ c cs, first.text = c :: cs ∧ isNameStart c = true := by
  obtain ⟨-, ⟨hs, -⟩, -⟩ := h
  rw [hf] at hs
  obtain ⟨c, cs, hc, hstart, -⟩ := hs
  exact ⟨c, cs, hc, hstart⟩

/-- Text after which something can be read may be renamed. -/
theorem follows_news {cs : List Change} {rest rest' : List Char} (hc : ∀ c ∈ cs, c.Renames)
    (h : Legible (olds cs) rest) (hf : Follows rest rest') :
    Follows (written (olds cs) ++ rest) (written (news cs) ++ rest') := by
  induction cs with
  | nil => exact hf
  | cons c cs ih =>
    have hrest := ih (fun d hd => hc d (List.mem_cons_of_mem _ hd)) (legible_append.1 h).2
    rw [olds_cons, news_cons, written_append, written_append, List.append_assoc, List.append_assoc]
    cases c with
    | keep l => exact hrest.prepend _
    | swap first others new more =>
      obtain ⟨hk, -, hr, -⟩ := hc (.swap first others new more) (by simp)
      obtain ⟨c, text, hfirst, hstart⟩ := (@isNameStart_of_legible _ others) hk (legible_append.1 h).1
      obtain ⟨suffix, htext, -⟩ := hr.text
      have hold : written (Change.swap first others new more).old = first.gap ++ c :: (text ++ written others) := by
        rw [Change.old, written_cons, hfirst]
        rfl
      have hnew : written (Change.swap first others new more).new =
          first.gap ++ c :: (text ++ (suffix ++ written more)) := by
        rw [Change.new, written_cons, htext, hfirst]
        simp
      rw [hold, hnew, List.append_assoc, List.append_assoc]
      exact follows_of_isNameStart hstart

/-- Renamed text can be read. -/
theorem legible_news {cs : List Change} {rest rest' : List Char} (hc : ∀ c ∈ cs, c.Renames)
    (h : Legible (olds cs) rest) (hf : Follows rest rest') : Legible (news cs) rest' := by
  induction cs with
  | nil => trivial
  | cons c cs ih =>
    obtain ⟨h₁, h₂⟩ := legible_append.1 h
    have hc' : ∀ d ∈ cs, d.Renames := fun d hd => hc d (List.mem_cons_of_mem _ hd)
    refine legible_append.2 ⟨?_, ih hc' h₂⟩
    have hold := h₁.of_follows (follows_news hc' h₂ hf)
    cases c with
    | keep l => exact hold
    | swap first others new more =>
      obtain ⟨hk, hm, hr, -⟩ := hc (.swap first others new more) (by simp)
      exact legible_renaming hk hm hr hold

/-- A name with its members stands in code. -/
theorem run_name {first : Lexeme} {others : List Lexeme} (hf : first.kind = .identifier) (hm : IsMembers others)
    {n : Nest} (hn : n.zone = .code) : n.run ((first :: others).map (·.kind)) = some n := by
  obtain ⟨zone, opened⟩ := n
  obtain rfl : zone = .code := hn
  rw [List.map_cons, hf, Nest.run_cons]
  induction hm with
  | nil => rfl
  | @cons point name members hp hn _ ih =>
    rw [List.map_cons, List.map_cons, hp, hn]
    exact ih

/-- Names stand in code. -/
theorem zone_of_after_identifier {n m : Nest} (h : n.after .identifier = some m) : n.zone = .code := by
  obtain ⟨zone, opened⟩ := n
  cases zone <;> simp [Nest.after] at h ⊢

/-- Renaming leaves brackets and strings as they are. -/
theorem run_news {cs : List Change} (hc : ∀ c ∈ cs, c.Renames) {n m : Nest}
    (h : n.run ((olds cs).map (·.kind)) = some m) : n.run ((news cs).map (·.kind)) = some m := by
  induction cs generalizing n with
  | nil => exact h
  | cons c cs ih =>
    have hc' : ∀ d ∈ cs, d.Renames := fun d hd => hc d (List.mem_cons_of_mem _ hd)
    rw [olds_cons, List.map_append, Nest.run_append] at h
    obtain ⟨n', h₁, h₂⟩ := Option.bind_eq_some_iff.1 h
    have hn : n.run (c.new.map (·.kind)) = some n' := by
      cases c with
      | keep l => exact h₁
      | swap first others new more =>
        obtain ⟨hk, hm, hr, -⟩ := hc (.swap first others new more) (by simp)
        have hz : n.zone = .code := by
          rw [Change.old, List.map_cons, hk, Nest.run_cons] at h₁
          obtain ⟨_, ha, -⟩ := Option.bind_eq_some_iff.1 h₁
          exact zone_of_after_identifier ha
        rw [Change.old, run_name hk hm hz] at h₁
        rw [← h₁]
        exact (@run_name ({ new with gap := first.gap })) hr.kind hr.members hz
    rw [news_cons, List.map_append, Nest.run_append_of_run hn]
    exact ih hc' h₂

/-- A name with its members breaks nothing. -/
theorem unbroken_name {stop : TokenKind → Bool} (hi : stop .identifier = false) (hd : stop .dot = false)
    {first : Lexeme} {others : List Lexeme} (hf : first.kind = .identifier) (hm : IsMembers others) {depth : Nat}
    {ks : List TokenKind} :
    Unbroken stop depth ((first :: others).map (·.kind) ++ ks) ↔ Unbroken stop depth ks := by
  have hname : Unbroken stop depth (others.map (·.kind) ++ ks) ↔ Unbroken stop depth ks := by
    induction hm with
    | nil => rfl
    | @cons point name members hp hn _ ih =>
      rw [List.map_cons, List.map_cons, hp, hn, List.cons_append, List.cons_append, Unbroken, Unbroken, ← ih]
      simp [hi, hd, TokenKind.depthAfter, TokenKind.opens, TokenKind.closes]
  rw [List.map_cons, hf, List.cons_append, Unbroken, ← hname]
  simp [hi, TokenKind.depthAfter, TokenKind.opens, TokenKind.closes]

/-- Renaming breaks nothing. -/
theorem unbroken_news {stop : TokenKind → Bool} (hi : stop .identifier = false) (hd : stop .dot = false)
    {cs : List Change} (hc : ∀ c ∈ cs, c.Renames) {depth : Nat} :
    Unbroken stop depth ((news cs).map (·.kind)) ↔ Unbroken stop depth ((olds cs).map (·.kind)) := by
  induction cs generalizing depth with
  | nil => rfl
  | cons c cs ih =>
    have hc' : ∀ d ∈ cs, d.Renames := fun d hd => hc d (List.mem_cons_of_mem _ hd)
    rw [news_cons, olds_cons, List.map_append, List.map_append]
    cases c with
    | keep l =>
      simp only [Change.old, Change.new, List.map_cons, List.map_nil, List.singleton_append, Unbroken, ih hc']
    | swap first others new more =>
      obtain ⟨hk, hm, hr, -⟩ := hc (.swap first others new more) (by simp)
      rw [Change.old, Change.new, unbroken_name hi hd hk hm,
        @unbroken_name _ hi hd { new with gap := first.gap } _ hr.kind hr.members]
      exact ih hc'

/-- What is put in place of something is something. -/
theorem news_ne_nil {cs : List Change} (h : olds cs ≠ []) : news cs ≠ [] := by
  cases cs with
  | nil => exact absurd rfl h
  | cons c cs => cases c <;> simp [Change.new]

/-- A renamed part is a part. -/
theorem Part.news {cs : List Change} (h : Part (olds cs)) (hc : ∀ c ∈ cs, c.Renames) : Part (news cs) :=
  ⟨news_ne_nil h.ne_nil, run_news hc h.balanced, legible_news hc h.legible fun _ _ _ _ he => he⟩

/-- A renamed element is an element. -/
theorem Element.news {cs : List Change} (h : Element (olds cs)) (hc : ∀ c ∈ cs, c.Renames) : Element (news cs) :=
  ⟨h.toPart.news hc, (unbroken_news rfl rfl hc).2 h.unbroken⟩

/-- A renamed line is a line. -/
theorem Line.news {cs : List Change} (h : Line (olds cs)) (hc : ∀ c ∈ cs, c.Renames) : Line (news cs) :=
  ⟨h.toPart.news hc, (unbroken_news rfl rfl hc).2 h.unbroken⟩

end BicepMigration.Template
