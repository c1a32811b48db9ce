import BicepMigration.Proofs.Template.Lexeme

/-!
# Texts of lexemes and what splits them off

The reader cuts a comment, a number or a string off the characters that are left. What it cuts off is cut off
again whatever text of the right kind follows, and it is spelled as a lexeme of its kind.
-/

namespace BicepMigration.Template

open Text

/-- A text is cut after the first place where a mark stands in it. -/
inductive CutAfter (mark : List Char) : List Char → List Char → List Char → Prop where
  | here (rest : List Char) : CutAfter mark (mark ++ rest) mark rest
  | later {c : Char} {cs text rest : List Char} : ¬ mark <+: c :: cs → CutAfter mark cs text rest →
      CutAfter mark (c :: cs) (c :: text) rest

/-- A mark at the start is found at once. -/
theorem throughFirst_of_prefix {mark rest : List Char} :
    throughFirst mark (mark ++ rest) = some (mark, rest) := by
  cases h : mark ++ rest with
  | nil =>
    obtain ⟨rfl, rfl⟩ := List.append_eq_nil_iff.1 h
    rfl
  | cons c cs =>
    have hp : mark.isPrefixOf (c :: cs) = true := by
      rw [← h]
      simp
    rw [throughFirst, if_pos hp, ← h, List.drop_left]

/-- A text is cut off behind its first mark. -/
theorem throughFirst_eq_some_iff {mark cs text rest : List Char} :
    throughFirst mark cs = some (text, rest) ↔ CutAfter mark cs text rest := by
  constructor
  · intro h
    induction cs generalizing text with
    | nil =>
      rw [throughFirst, Option.ite_none_right_eq_some] at h
      obtain ⟨hp, h⟩ := h
      obtain rfl : mark = [] := by simpa using hp
      obtain ⟨rfl, rfl⟩ := Prod.mk.inj (Option.some.inj h)
      exact .here []
    | cons c cs ih =>
      unfold throughFirst at h
      split at h
      · next hp =>
        obtain ⟨rest', hrest⟩ := List.isPrefixOf_iff_prefix.1 hp
        obtain ⟨rfl, rfl⟩ := Prod.mk.inj (Option.some.inj h)
        rw [← hrest, List.drop_left]
        exact .here rest'
      · next hp =>
        obtain ⟨⟨text', rest'⟩, hcut, heq⟩ := Option.map_eq_some_iff.1 h
        obtain ⟨rfl, rfl⟩ := Prod.mk.inj heq
        exact .later (by rwa [List.isPrefixOf_iff_prefix] at hp) (ih hcut)
  · intro h
    induction h with
    | here => exact throughFirst_of_prefix
    | later hp _ ih =>
      rw [throughFirst, if_neg (by rwa [List.isPrefixOf_iff_prefix]), ih]
      rfl

/-- What is cut off ends with the mark. -/
theorem suffix_of_throughFirst {mark cs text rest : List Char} (h : throughFirst mark cs = some (text, rest)) :
    mark <:+ text := by
  rw [throughFirst_eq_some_iff] at h
  induction h with
  | here => exact List.suffix_refl mark
  | later _ _ ih => exact ih.trans (List.suffix_cons _ _)

/-- The first occurrence of a mark is the first one whatever follows it. -/
theorem throughFirst_append_right {mark cs text rest : List Char} (h : throughFirst mark cs = some (text, rest))
    (more : List Char) : throughFirst mark (cs ++ more) = some (text, rest ++ more) := by
  rw [throughFirst_eq_some_iff] at h ⊢
  induction h with
  | here rest =>
    rw [List.append_assoc]
    exact .here _
  | @later c cs text rest hp hcut ih =>
    refine .later (fun hp' : mark <+: (c :: cs) ++ more => hp ?_) ih
    -- the mark is no longer than what it is cut off from
    rw [← throughFirst_eq_some_iff] at hcut
    have hlen := (suffix_of_throughFirst hcut).length_le
    have hall := congrArg List.length (throughFirst_append hcut)
    rw [List.length_append] at hall
    refine List.prefix_of_prefix_length_le hp' (List.prefix_append _ _) ?_
    rw [List.length_cons]
    omega

/-- What is cut off is cut off whole. -/
theorem throughFirst_self {mark cs text rest : List Char} (h : throughFirst mark cs = some (text, rest)) :
    throughFirst mark text = some (text, []) := by
  rw [throughFirst_eq_some_iff] at h ⊢
  induction h with
  | here =>
    have hwhole := @CutAfter.here mark []
    rwa [List.append_nil] at hwhole
  | @later c cs text rest hp hcut ih =>
    refine .later (fun hp' => hp (hp'.trans ?_)) ih
    rw [← throughFirst_append (throughFirst_eq_some_iff.2 hcut), ← List.cons_append]
    exact List.prefix_append _ _

/-- A number goes on no further than its text, if none starts after it. -/
theorem splitNumber_append_right {digits rest : List Char} (h : splitNumber digits = (digits, []))
    (hr : splitNumber rest = ([], rest)) : splitNumber (digits ++ rest) = (digits, rest) := by
  match digits, h with
  | [], _ => exact hr
  | [c], h =>
    have hc : c.isDigit = true := by
      by_cases hc : c.isDigit = true
      · exact hc
      · simp [splitNumber, hc] at h
    cases rest with
    | nil => simpa using h
    | cons d rest =>
      simp [splitNumber, hc, hr]
  | c :: d :: cs, h =>
    by_cases hc : (c.isDigit || (c = '.' && d.isDigit)) = true
    · rw [splitNumber, if_pos hc] at h
      simp only [Prod.mk.injEq, List.cons.injEq, true_and] at h
      have ht : splitNumber (d :: cs) = (d :: cs, []) := Prod.ext h.1 h.2
      have ih := splitNumber_append_right ht hr
      simp only [List.cons_append] at ih ⊢
      rw [splitNumber, if_pos hc, ih]
    · rw [splitNumber, if_neg hc] at h
      simp at h

/-- What is cut off is a number, and no number starts after it. -/
theorem splitNumber_self (cs : List Char) :
    splitNumber (splitNumber cs).1 = ((splitNumber cs).1, []) ∧
      splitNumber (splitNumber cs).2 = ([], (splitNumber cs).2) := by
  match cs with
  | [] => exact ⟨rfl, rfl⟩
  | [c] => by_cases hc : c.isDigit = true <;> simp [splitNumber, hc]
  | c :: d :: cs =>
    by_cases hc : (c.isDigit || (c = '.' && d.isDigit)) = true
    · obtain ⟨h₁, h₂⟩ := splitNumber_self (d :: cs)
      rw [splitNumber, if_pos hc]
      refine ⟨?_, h₂⟩
      generalize hn : splitNumber (d :: cs) = n at h₁
      change splitNumber (c :: n.1) = (c :: n.1, [])
      cases hd : n.1 with
      | nil =>
        -- only a digit ends a number
        have hdd : ¬ d.isDigit = true := by
          intro hdd
          rw [← hn] at hd
          cases cs <;> simp [splitNumber, hdd] at hd
        have hcd : c.isDigit = true := by simpa [hdd] using hc
        simp [splitNumber, hcd]
      | cons e es =>
        have he : d = e := by
          have ha := splitNumber_append (d :: cs)
          rw [hn, hd] at ha
          simpa using (congrArg List.head? ha).symm
        subst he
        rw [hd] at h₁
        rw [splitNumber, if_pos hc, h₁]
    · rw [splitNumber, if_neg hc]
      refine ⟨rfl, ?_⟩
      rw [splitNumber, if_neg hc]

/-- A number has digits and points. -/
theorem isDigit_or_point_of_mem {cs : List Char} {c : Char} (h : c ∈ (splitNumber cs).1) : c.isDigit = true ∨ c = '.' := by
  fun_induction splitNumber cs <;> grind

/-- The end of the text of a string: its closing quote, or a hole. -/
def EndsText (rest : List Char) : Prop :=
  rest.head? = some '\'' ∨ ∃ cs, rest = '$' :: '{' :: cs

/-- The text of a string ends before a quote and before a hole. -/
theorem endsText_cons_iff {c : Char} {cs : List Char} :
    EndsText (c :: cs) ↔ c = '\'' ∨ (c = '$' ∧ cs.head? = some '{') := by
  rw [EndsText, List.head?_cons, Option.some.injEq]
  refine or_congr_right ⟨?_, ?_⟩
  · rintro ⟨cs, h⟩
    obtain ⟨rfl, rfl⟩ := List.cons.inj h
    exact ⟨rfl, rfl⟩
  · rintro ⟨rfl, h⟩
    obtain ⟨cs, rfl⟩ := List.head?_eq_some_iff.1 h
    exact ⟨cs, rfl⟩

/-- The text of a string is cut off where it first ends. A backslash hides the character after it. -/
inductive CutText : List Char → List Char → List Char → Prop where
  | stop {rest : List Char} : EndsText rest → CutText rest [] rest
  | escaped {d : Char} {cs text rest : List Char} : d ≠ '\n' → CutText cs text rest →
      CutText ('\\' :: d :: cs) ('\\' :: d :: text) rest
  | plain {c : Char} {cs text rest : List Char} : ¬ EndsText (c :: cs) → c ≠ '\n' → c ≠ '\\' → CutText cs text rest →
      CutText (c :: cs) (c :: text) rest

/-- Where the text of a string ends, nothing of it is left. -/
theorem splitString_of_endsText {rest : List Char} (h : EndsText rest) : splitString rest = some ([], rest) := by
  rcases h with h | ⟨cs, rfl⟩
  · obtain ⟨cs, rfl⟩ := List.head?_eq_some_iff.1 h
    cases cs <;> simp [splitString]
  · simp [splitString]

/-- A text that is cut off so is read so. -/
theorem CutText.splitString {cs text rest : List Char} (h : CutText cs text rest) :
    splitString cs = some (text, rest) := by
  induction h with
  | stop hends => exact splitString_of_endsText hends
  | escaped hd _ ih => simp [Template.splitString, hd, ih]
  | @plain c cs text rest hends hn hc hcut ih =>
    rw [endsText_cons_iff, not_or] at hends
    cases cs with
    | nil => cases ih
    | cons d cs =>
      rw [Template.splitString, if_neg (by simpa using hends), if_neg hn, if_neg hc, ih]
      rfl

/-- What is read as the text of a string is cut off so. -/
theorem cutText_of_splitString {cs text rest : List Char} (h : splitString cs = some (text, rest)) :
    CutText cs text rest := by
  fun_induction splitString cs generalizing text rest with
  | case1 => cases h
  | case2 =>
    obtain ⟨rfl, rfl⟩ := Prod.mk.inj (Option.some.inj h)
    exact .stop (.inl rfl)
  | case3 => cases h
  | case4 c d cs hends =>
    obtain ⟨rfl, rfl⟩ := Prod.mk.inj (Option.some.inj h)
    exact .stop (endsText_cons_iff.2 (by simpa using hends))
  | case5 => cases h
  | case6 => cases h
  | case7 d cs hd _ _ ih =>
    obtain ⟨⟨text', rest'⟩, hcut, heq⟩ := Option.map_eq_some_iff.1 h
    obtain ⟨rfl, rfl⟩ := Prod.mk.inj heq
    exact .escaped hd (ih hcut)
  | case8 c d cs hends hn hc ih =>
    obtain ⟨⟨text', rest'⟩, hcut, heq⟩ := Option.map_eq_some_iff.1 h
    obtain ⟨rfl, rfl⟩ := Prod.mk.inj heq
    exact .plain (fun h => hends (by simpa using endsText_cons_iff.1 h)) hn hc (ih hcut)

/-- The same text is cut off whatever end it has. -/
theorem CutText.of_endsText {cs text rest rest' : List Char} (h : CutText cs text rest) (hr : EndsText rest') :
    CutText (text ++ rest') text rest' := by
  induction h with
  | stop => exact .stop hr
  | escaped hd _ ih => exact .escaped hd ih
  | @plain c cs text rest hends hn hc hcut ih =>
    refine .plain (fun hends' => hends ?_) hn hc ih
    -- what comes next in the text came next before, and a text that ends here does not go on with a brace
    rw [endsText_cons_iff] at hends' ⊢
    refine hends'.imp_right fun ⟨hdollar, hbrace⟩ => ⟨hdollar, ?_⟩
    have hsplit := splitString_append hcut.splitString
    cases text with
    | nil =>
      rcases hr with hquote | ⟨more, rfl⟩
      · cases hquote.symm.trans hbrace
      · cases hbrace
    | cons d text =>
      rw [← hsplit]
      exact hbrace

/-- The text of a string ends where it is cut off. -/
theorem CutText.endsText {cs text rest : List Char} (h : CutText cs text rest) : EndsText rest := by
  induction h with
  | stop hends => exact hends
  | escaped _ _ ih => exact ih
  | plain _ _ _ _ ih => exact ih

/-- The text of a string goes up to its end, whatever end that is. -/
theorem splitString_append_right {text rest : List Char}
    (h : splitString (text ++ ['\'']) = some (text, ['\''])) (hr : EndsText rest) :
    splitString (text ++ rest) = some (text, rest) :=
  ((cutText_of_splitString h).of_endsText hr).splitString

/-- What is cut off is the text of a string, and its end comes next. -/
theorem splitString_self {cs text rest : List Char} (h : splitString cs = some (text, rest)) :
    splitString (text ++ ['\'']) = some (text, ['\'']) ∧ EndsText rest :=
  ⟨((cutText_of_splitString h).of_endsText (.inl rfl)).splitString, (cutText_of_splitString h).endsText⟩

/-- The text of a string stays on its line. -/
theorem newline_not_mem_of_splitString {cs text rest : List Char} (h : splitString cs = some (text, rest)) :
    '\n' ∉ text := by
  induction cutText_of_splitString h with
  | stop => exact List.not_mem_nil
  | escaped hd hcut ih => simp [hd.symm, ih hcut.splitString]
  | plain _ hn _ hcut ih => simp [hn.symm, ih hcut.splitString]

/-- A newline is a token by itself, or it stands in a string of many lines. -/
theorem newline_cases {kind : TokenKind} {text : List Char} (h : IsSpelled kind text) (hn : '\n' ∈ text) :
    kind = .newline ∧ text = ['\n'] ∨ kind = .multilineString := by
  cases kind with
  | newline => exact .inl ⟨rfl, h⟩
  | multilineString => exact .inr rfl
  | identifier =>
    obtain ⟨c, cs, rfl, hc, hcs⟩ := h
    rcases List.mem_cons.1 hn with rfl | hn
    · exact absurd hc (by decide)
    · exact absurd (hcs _ hn) (by decide)
  | number =>
    obtain ⟨c, cs, rfl, hc, hcs⟩ := h
    rcases List.mem_cons.1 hn with rfl | hn
    · exact absurd hc (by decide)
    · have hmem := (@isDigit_or_point_of_mem cs '\n') (by rwa [hcs])
      exact absurd hmem (by decide)
  | stringText => exact absurd hn (newline_not_mem_of_splitString h.2)
  | colon | comma | dot | question | atSign | assign | operator =>
    obtain ⟨c, hc, ⟨rfl, -⟩ | ⟨d, rfl, hmark⟩⟩ := h
    · exact absurd (List.mem_singleton.1 hn).symm hc.1
    · obtain ⟨kind, -, -, hone | ⟨-, e, he, hde⟩⟩ := markAt_cases c (some d)
      · simp [hone] at hmark
      · obtain rfl := Option.some.inj hde
        rcases List.mem_cons.1 hn with hcn | hn
        · exact absurd hcn.symm hc.1
        · rw [List.mem_singleton.1 hn |>.symm] at he
          exact absurd he (by decide)
  | _ =>
    simp only [IsSpelled] at h
    subst h
    exact absurd hn (by decide)

end BicepMigration.Template
