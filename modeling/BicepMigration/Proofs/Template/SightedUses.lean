import BicepMigration.Proofs.Template.FoundUses
import BicepMigration.Proofs.Template.Sighting

/-!
# Uses among what is seen

The uses that are found among tokens are those that are seen among their spellings, in order and with their members.
Whether the word `resource` comes before a name is seen as well. So a check that depends on nothing else has the same
outcome for tokens that show the same.
-/

namespace BicepMigration.Template

open Text

variable {symbols : List String}

/-- A colon is seen by its kind. -/
theorem startsWithColon_spellings (toks : List Token) : startsWithColon (spellings toks) = startsColon toks := by
  cases toks <;> rfl

/-- Members are seen by their names. -/
theorem membersAfter_spellings (toks : List Token) : membersAfter (spellings toks) = (memberTokens toks).map (·.text) := by
  fun_induction memberTokens toks with
  | case1 point name rest h ih =>
    have hname : name.kind = .identifier := by simpa using (Bool.and_eq_true_iff.1 h).2
    rw [spellings, List.map_cons, List.map_cons, membersAfter, Token.spelling_kind,
      Token.spelling_kind, if_pos h, Token.spelling_name hname, ih]
    rfl
  | case2 point name rest h =>
    rw [spellings, List.map_cons, List.map_cons, membersAfter, Token.spelling_kind,
      Token.spelling_kind, if_neg h]
    rfl
  | case3 toks hne =>
    cases toks with
    | nil => rfl
    | cons t toks =>
      cases toks with
      | nil => rfl
      | cons u toks => exact absurd rfl (hne t u toks)

/-- What a token says about the name after it can be told from its spelling. -/
theorem side_after_spelling (view : View) (t : Token) :
    (view.after t.spelling).side = Side.after false t.kind t.text := by
  by_cases hk : t.kind = .identifier
  · simp [View.after, Token.spelling, Spelling.ofText, hk]
  · simp [View.after, Token.spelling, Spelling.ofText, Side.after, hk]

/-- What a token is seen as can be told from the tokens next to it. -/
theorem sight?_spelling (side : Side) (announced : Bool) (t : Token) (after : List Token) :
    sight? symbols ⟨side, announced⟩ t.spelling (spellings after) =
      if t.kind = .identifier && symbols.contains t.text &&
          (side.admits (startsColon after) || announced && !startsColon after) then
        some ⟨t.text, (memberTokens after).map (·.text), side.admits (startsColon after), announced && !startsColon after⟩
      else none := by
  simp only [sight?, startsWithColon_spellings, membersAfter_spellings, Token.spelling_kind]
  by_cases hk : t.kind = .identifier
  · rw [Token.spelling_name hk]
    rfl
  · simp [hk]

/-- The uses that are found are seen as uses. -/
theorem usesFrom_eq_sights (before toks : List Token) (announced : Bool) :
    (usesFrom symbols before toks).map (fun use => (use.symbol, use.path)) =
      ((sights symbols ⟨sideBefore false before, announced⟩ (spellings toks)).filter (·.used)).map
        fun sight => (sight.symbol, sight.path) := by
  induction toks generalizing before announced with
  | nil => rfl
  | cons t after ih =>
    have hview : View.after ⟨sideBefore false before, announced⟩ t.spelling =
        ⟨sideBefore false (t :: before), (View.after ⟨sideBefore false before, announced⟩ t.spelling).announced⟩ := by
      rw [View.mk.injEq]
      exact ⟨side_after_spelling _ t, rfl⟩
    rw [usesFrom_cons, spellings, List.map_cons, sights_cons, hview, List.map_append, List.filter_append, List.map_append,
      ← ih (t :: before), sight?_spelling, useAt?, isValuePosition_eq]
    refine congrArg (· ++ _) ?_
    cases ha : (sideBefore false before).admits (startsColon after) with
    | true =>
      simp only [Bool.true_or, Bool.and_true]
      split <;> rfl
    | false =>
      simp only [Bool.false_or, Bool.and_false, Bool.false_eq_true, if_false, Option.toList_none, List.map_nil]
      split <;> rfl

/-- The uses that are found in tokens that show the same have the same symbols and members, in order. -/
theorem findUses_eq_of_alike {toks toks' : List Token} (h : Alike symbols (spellings toks) (spellings toks')) :
    (findUses symbols toks).map (fun use => (use.symbol, use.path)) =
      (findUses symbols toks').map fun use => (use.symbol, use.path) := by
  rw [findUses, findUses, usesFrom_eq_sights [] toks false, usesFrom_eq_sights [] toks' false]
  exact congrArg (fun sights => (sights.filter (·.used)).map fun sight => (sight.symbol, sight.path)) (h _).1

/-- The next name, apart from separators, is one of the symbols and no key. -/
def namesNext (symbols : List String) : List Token → Bool
  | [] => false
  | t :: rest =>
    if t.kind.separates then namesNext symbols rest
    else t.kind = .identifier && symbols.contains t.text && !startsColon rest

/-- The word `resource` comes before one of the symbols, apart from separators, that is no key. -/
def announces (symbols : List String) : List Token → Bool
  | [] => false
  | t :: rest => (t.isWord "resource" && namesNext symbols rest) || announces symbols rest

/-- A name is announced behind the keyword of a resource, and separators keep that. -/
theorem announced_after_spelling (view : View) (t : Token) :
    (view.after t.spelling).announced = (t.isWord "resource" || t.kind.separates && view.announced) := by
  by_cases hk : t.kind = .identifier <;>
    simp [View.after, Token.spelling, Spelling.ofText, Token.isWord, hk, TokenKind.separates]

/-- A symbol after the word `resource` is seen. -/
theorem any_announced_sights (view : View) (toks : List Token) :
    (sights symbols view (spellings toks)).any (·.announced) =
      (view.announced && namesNext symbols toks || announces symbols toks) := by
  induction toks generalizing view with
  | nil => simp [namesNext, announces]
  | cons t rest ih =>
    obtain ⟨side, announced⟩ := view
    have hthis : (sight? symbols ⟨side, announced⟩ t.spelling (spellings rest)).toList.any (·.announced) =
        (announced && (t.kind = .identifier && symbols.contains t.text && !startsColon rest)) := by
      rw [sight?_spelling]
      generalize side.admits (startsColon rest) = used
      generalize (decide (t.kind = .identifier) && symbols.contains t.text) = named
      cases named <;> cases used <;> cases announced <;> cases startsColon rest <;> rfl
    rw [spellings, List.map_cons, sights_cons, List.any_append, hthis, ih, announced_after_spelling, namesNext, announces]
    by_cases hs : t.kind.separates = true
    · have hk : t.kind ≠ .identifier := fun hk => by simp [hk, TokenKind.separates] at hs
      simp [hs, hk, Token.isWord]
    · rw [Bool.not_eq_true] at hs
      simp [hs]

/-- The word `resource` comes before a symbol in both of two texts that show the same, or in neither. -/
theorem announces_eq_of_alike {toks toks' : List Token} (h : Alike symbols (spellings toks) (spellings toks')) :
    announces symbols toks = announces symbols toks' := by
  have hany := congrArg (·.any (·.announced)) (h .start).1
  simpa [any_announced_sights, View.start] using hany

end BicepMigration.Template
