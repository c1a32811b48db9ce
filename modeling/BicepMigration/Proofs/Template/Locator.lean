import BicepMigration.Proofs.Template.RenderedCall

/-!
# Locators between quotes

A locator holds no quote. If it can be read between two quotes, what is read there is one string, which may have
holes, and it can be read the same way in the head of a module call. A locator without backslashes, dollar signs and
newlines is the text of a string without holes.
-/

namespace BicepMigration.Template

open Text

/-- The locator can be read between quotes. -/
def IsReadable (locator : String) : Prop := (tokenize ("'" ++ locator ++ "'")).isOk = true

instance (locator : String) : Decidable (IsReadable locator) := inferInstanceAs (Decidable (_ = true))

/-- A gap does not start with a quote. -/
theorem IsGap.head_ne_quote {c : Char} {cs next : List Char} (h : IsGap (c :: cs) next) : c ≠ '\'' := by
  generalize hg : c :: cs = gap at h
  cases h with
  | nil => cases hg
  | blank _ hb _ =>
    obtain ⟨rfl, -⟩ := List.cons.inj hg
    rintro rfl
    revert hb
    decide
  | block _ _ =>
    obtain ⟨rfl, -⟩ := List.cons.inj hg
    decide
  | line ho _ _ =>
    rcases ho with rfl | rfl
    all_goals
      obtain ⟨rfl, -⟩ := List.cons.inj hg
      decide

/-- A string that stands open does not end without its quote. -/
theorem stringEnd_mem_of_run {n m : Nest} {ks : List TokenKind} (hn : n.zone ≠ .code ∨ .hole ∈ n.opened)
    (h : n.run ks = some m) (hm : m = .top) : .stringEnd ∈ ks := by
  induction ks generalizing n with
  | nil =>
    obtain rfl := Option.some.inj h
    subst hm
    simp [Nest.top] at hn
  | cons k ks ih =>
    rw [Nest.run_cons] at h
    obtain ⟨n', ha, hr⟩ := Option.bind_eq_some_iff.1 h
    by_cases hk : k = .stringEnd
    · rw [hk]
      exact List.mem_cons_self ..
    · refine List.mem_cons_of_mem _ (ih ?_ hr)
      obtain ⟨zone, opened⟩ := n
      have hclose {bracket : Bracket} (hb : bracket ≠ .hole) (h : Nest.close ⟨zone, opened⟩ bracket .code = some n')
          (ho : .hole ∈ opened) : .hole ∈ n'.opened := by
        obtain ⟨outer, hopened, rfl⟩ := Nest.opened_of_close h
        simp only at hopened
        rw [hopened] at ho
        exact (List.mem_cons.1 ho).resolve_left fun h => hb h.symm
      cases zone with
      | code =>
        have ho : .hole ∈ opened := hn.resolve_left fun h => h rfl
        cases k <;> simp only [Nest.after, Option.some.injEq, reduceCtorEq] at ha <;> first
          | (subst ha; exact .inr (by simp [ho]))
          | exact .inr (hclose (by simp) ha ho)
          | (obtain ⟨outer, -, rfl⟩ := Nest.opened_of_close ha; exact .inl (by simp))
      | string | closing =>
        cases k <;> simp only [Nest.after, Option.some.injEq, reduceCtorEq] at ha <;> first
          | exact absurd rfl hk
          | (subst ha; simp)

/-- A character of a lexeme is counted among those that are written. -/
theorem count_written_pos {ls : List Lexeme} {l : Lexeme} {c : Char} (h : l ∈ ls) (hc : c ∈ l.text) :
    1 ≤ (written ls).count c := by
  refine List.one_le_count_iff.2 ?_
  induction ls with
  | nil => simp at h
  | cons m ls ih =>
    rw [written_cons, List.mem_append, List.mem_append]
    rcases List.mem_cons.1 h with rfl | h
    · exact .inr (.inl hc)
    · exact .inr (.inr (ih h))

/-- Only strings start with a quote. -/
theorem kind_of_quote {kind : TokenKind} {text : List Char} (h : IsSpelled kind ('\'' :: text))
    (hi : kind.insideString = false) : kind = .stringStart ∨ kind = .multilineString := by
  cases kind with
  | stringStart => exact .inl rfl
  | multilineString => exact .inr rfl
  | identifier | number =>
    obtain ⟨c, cs, he, hc, -⟩ := h
    obtain ⟨rfl, -⟩ := List.cons.inj he
    exact absurd hc (by decide)
  | stringText | stringEnd => cases hi
  | colon | comma | dot | question | atSign | assign | operator =>
    obtain ⟨c, ⟨-, -, -, hc, -⟩, ⟨he, -⟩ | ⟨d, he, -⟩⟩ := h
    all_goals exact absurd (List.cons.inj he).1.symm hc
  | _ => exact absurd (List.cons.inj h).1 (by decide)

/-- A text that starts with a quote starts with a string. -/
theorem Layout.exists_first_of_quote (l : Layout) {cs : List Char} (h : l.chars = '\'' :: cs) :
    l.mark = [] ∧ ∃ first others text, l.lexemes = first :: others ∧ first.gap = [] ∧ first.text = '\'' :: text ∧
      (first.kind = .stringStart ∨ first.kind = .multilineString) := by
  have hmark : l.mark = [] := by
    refine l.mark_eq.resolve_right fun hm => ?_
    rw [Layout.chars, hm] at h
    cases (List.cons.inj h).1
  have hlegible := l.legible
  have hbalanced := l.balanced
  have hgap := l.isGap
  rw [Layout.chars, hmark, List.nil_append] at h
  refine ⟨hmark, ?_⟩
  cases hl : l.lexemes with
  | nil =>
    rw [hl, written_nil, List.nil_append] at h
    rw [h] at hgap
    exact absurd rfl hgap.head_ne_quote
  | cons first others =>
    rw [hl] at h hlegible hbalanced
    obtain ⟨hfirst, ⟨hspelled, -⟩, -⟩ := hlegible
    have hnogap : first.gap = [] := by
      cases hg : first.gap with
      | nil => rfl
      | cons c gap =>
        rw [written_cons, hg] at h
        obtain ⟨rfl, -⟩ := List.cons.inj h
        rw [hg] at hfirst
        exact absurd rfl hfirst.head_ne_quote
    obtain ⟨c, text, hc⟩ := List.exists_cons_of_ne_nil (text_ne_nil hspelled)
    rw [written_cons, hnogap, hc] at h
    obtain rfl : c = '\'' := (List.cons.inj h).1
    rw [hc] at hspelled
    exact ⟨first, others, text, rfl, hnogap, hc, kind_of_quote hspelled (insideString_of_run (n := .top) rfl hbalanced)⟩

/-- What is read between quotes is one string. -/
theorem exists_locator {locator : String} (hq : '\'' ∉ locator.toList) (h : IsReadable locator) :
    ∃ ls, Part ls ∧ '\'' :: (locator.toList ++ ['\'']) = bare ls := by
  have hcount : ('\'' :: (locator.toList ++ ['\''])).count '\'' = 2 := by
    simp [List.count_append, List.count_eq_zero.2 hq]
  obtain ⟨ts, ht⟩ : ∃ ts, tokenize ("'" ++ locator ++ "'") = .ok ts := by
    rw [IsReadable] at h
    cases ht : tokenize ("'" ++ locator ++ "'") with
    | error e => rw [ht] at h; cases h
    | ok ts => exact ⟨ts, rfl⟩
  obtain ⟨l, hchars, -⟩ := tokenize_eq_ok_iff.1 ht
  have hall : l.chars = '\'' :: (locator.toList ++ ['\'']) := by
    rw [← hchars]
    simp
  obtain ⟨hmark, first, others, text, hl, hgap, htext, hkinds⟩ := l.exists_first_of_quote hall
  have hlegible := l.legible
  have hb := l.balanced
  rw [Layout.chars, hmark, List.nil_append, hl, written_cons, hgap, List.nil_append] at hall
  rw [hl] at hlegible hb
  generalize l.tail = tail at hall hlegible
  obtain ⟨hlg, ⟨hls, -⟩, hle, hlothers⟩ := hlegible
  have htotal : (first.text ++ (written others ++ tail)).count '\'' = 2 := by
    rw [← hcount, ← hall, List.append_assoc]
  rw [List.count_append, List.count_append] at htotal
  have hkind : first.kind = .stringStart := by
    refine hkinds.resolve_right fun hk => ?_
    rw [hk] at hls
    obtain ⟨body, hbody, -⟩ := hls
    rw [hbody] at htotal
    simp only [List.count_cons_self] at htotal
    omega
  have hrun : Nest.run ⟨.string, []⟩ (others.map (·.kind)) = some .top := by
    rw [List.map_cons, hkind] at hb
    exact hb
  obtain ⟨m, hm, hmk⟩ := List.mem_map.1 (stringEnd_mem_of_run (.inl (by simp)) hrun rfl)
  have hmtext : '\'' ∈ m.text := by
    have hms := hlothers.forall_spelled m hm
    rw [hmk] at hms
    rw [hms]
    exact List.mem_singleton_self _
  have hothers := count_written_pos hm hmtext
  -- both quotes are among the lexemes, so nothing comes after them
  have htail : tail = [] := by
    rcases List.eq_nil_or_concat tail with htail | ⟨init, d, rfl⟩
    · exact htail
    · have hlast := congrArg List.getLast? hall
      rw [List.concat_eq_append, ← List.append_assoc, ← List.cons_append, List.getLast?_concat,
        List.getLast?_concat] at hlast
      obtain rfl := Option.some.inj hlast
      simp only [htext, List.concat_eq_append, List.count_append, List.count_cons_self, List.count_nil] at htotal
      omega
  subst htail
  rw [List.append_nil] at hall
  refine ⟨first :: others, ⟨by simp, hb, ?_⟩, hall.symm.trans ?_⟩
  · refine (@Legible.before_stop _ []) ⟨hlg, ⟨hls, fun h => ?_⟩, hle, hlothers⟩ rfl
    rw [hkind] at h
    cases h
  · rfl

/-- Text without backslashes, dollar signs, quotes and newlines is the text of a string. -/
theorem isSpelled_plain {cs : List Char} (hne : cs ≠ [])
    (h : ∀ c ∈ cs, c ≠ '\\' ∧ c ≠ '$' ∧ c ≠ '\'' ∧ c ≠ '\n') : IsSpelled .stringText cs := by
  refine ⟨hne, ?_⟩
  clear hne
  induction cs with
  | nil => rfl
  | cons c cs ih =>
    obtain ⟨hslash, hdollar, hquote, hnewline⟩ := h c (by simp)
    have hrest := ih fun d hd => h d (List.mem_cons_of_mem _ hd)
    cases cs with
    | nil => simp [splitString, hslash, hdollar, hquote, hnewline]
    | cons d cs =>
      simp only [List.cons_append] at hrest ⊢
      simp [splitString, hslash, hdollar, hquote, hnewline, hrest]

/-- A locator without backslashes, dollar signs and newlines. -/
def IsPlain (locator : String) : Prop := ∀ c ∈ locator.toList, c ≠ '\\' ∧ c ≠ '$' ∧ c ≠ '\n'

-- The instance is named, because a search may find one that runs through all characters instead of the list.
instance (locator : String) : Decidable (IsPlain locator) :=
  List.decidableBAll (fun c => c ≠ '\\' ∧ c ≠ '$' ∧ c ≠ '\n') locator.toList

/-- A plain locator is written as the text of a string. -/
theorem element_quote_plain {locator : String} (hp : IsPlain locator) (hq : '\'' ∉ locator.toList) :
    Element (quoteLexemes locator.toList) := by
  refine element_quote ?_
  rcases Decidable.em (locator.toList = []) with hnil | hne
  · exact .inl hnil
  · refine .inr (isSpelled_plain hne fun c hc => ?_)
    obtain ⟨hslash, hdollar, hnewline⟩ := hp c hc
    refine ⟨hslash, hdollar, ?_, hnewline⟩
    rintro rfl
    exact hq hc

/-- What is read from a plain locator is the locator. -/
theorem unescape_plain {cs : List Char} (h : ∀ c ∈ cs, c ≠ '\\') : unescape cs = some cs := by
  induction cs with
  | nil => rfl
  | cons c cs ih =>
    have hc := h c List.mem_cons_self
    simp [unescape, hc, ih fun d hd => h d (List.mem_cons_of_mem _ hd)]

/-- A plain locator can be read between quotes. -/
theorem isReadable_of_isPlain {locator : String} (hp : IsPlain locator) (hq : '\'' ∉ locator.toList) :
    IsReadable locator := by
  have hel := element_quote_plain hp hq
  have hlegible : Legible (quoteLexemes locator.toList) [] := by
    have hl := hel.legible
    unfold quoteLexemes at hl ⊢
    cases htext : locator.toList with
    | nil => exact ⟨.nil, ⟨rfl, fun h => by cases h⟩, by simp [EndsAt], .nil, ⟨rfl, fun _ => rfl⟩, trivial, trivial⟩
    | cons c cs =>
      rw [htext, if_neg (List.cons_ne_nil c cs)] at hl
      obtain ⟨-, hs, he, -, hs', -, -⟩ := hl
      refine ⟨.nil, hs, he.of_take_eq ?_, .nil, hs', trivial, .nil, ⟨rfl, fun _ => rfl⟩, trivial, trivial⟩
      cases cs <;> rfl
  have hwritten : written (quoteLexemes locator.toList) = ("'" ++ locator ++ "'").toList := by
    have := bare_quoteLexemes locator.toList
    simpa [quoteLexemes] using this
  let layout : Layout :=
    { mark := []
      lexemes := quoteLexemes locator.toList
      tail := []
      mark_eq := .inl rfl
      head_ne := fun _ h => by cases h
      legible := hlegible
      isGap := .nil
      balanced := hel.balanced }
  have hchars : ("'" ++ locator ++ "'").toList = layout.chars := by
    rw [← hwritten]
    simp [Layout.chars, layout]
  rw [IsReadable, tokenize_eq_ok_iff.2 ⟨layout, hchars, rfl⟩]
  rfl

end BicepMigration.Template
