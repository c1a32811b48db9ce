import BicepMigration.Proofs.Template.CallReadBack
import BicepMigration.Proofs.Template.UsedText

/-!
# Uses in rendered values

A value is written with its keys, its brackets and its scalars. Keys are no uses, so a symbol is used in what is written
exactly if one of the scalars uses it. A scalar after a key stands where anything may stand, and an element of an array
stands at the start of a line. The same holds of module calls: the symbols that a call uses are used in its decorators,
its condition or its body.
-/

namespace BicepMigration.Template

open Text

/-- A scalar in a value has a property, given what stands before it. -/
inductive Value.Any (leaf : Side → Value → Prop) : Side → Value → Prop where
  | scalar {side : Side} {v : Value} : v.isScalar = true → leaf side v → Any leaf side v
  | entry {side : Side} {entries : ObjectLiteral} {p : Property Value} : p ∈ entries → Any leaf .other p.value →
      Any leaf side (.object entries)
  | item {side : Side} {items : List Value} {v : Value} : v ∈ items → Any leaf .key v → Any leaf side (.array items)

section Any

variable {leaf : Side → Value → Prop} {side : Side}

/-- A scalar has no leaf but itself. -/
theorem any_scalar_iff {v : Value} (h : v.isScalar = true) : v.Any leaf side ↔ leaf side v := by
  refine ⟨fun ha => ?_, .scalar h⟩
  cases ha with
  | scalar _ ha => exact ha
  | entry | item => cases h

/-- The leaves of an object are those of its values. -/
theorem any_object_iff {entries : ObjectLiteral} :
    (Value.object entries).Any leaf side ↔ ∃ p ∈ entries, p.value.Any leaf .other := by
  refine ⟨fun ha => ?_, fun ⟨p, hp, ha⟩ => .entry hp ha⟩
  cases ha with
  | scalar hs => cases hs
  | entry hp ha => exact ⟨_, hp, ha⟩

/-- The leaves of an array are those of its elements. -/
theorem any_array_iff {items : List Value} : (Value.array items).Any leaf side ↔ ∃ v ∈ items, v.Any leaf .key := by
  refine ⟨fun ha => ?_, fun ⟨v, hv, ha⟩ => .item hv ha⟩
  cases ha with
  | scalar hs => cases hs
  | item hv ha => exact ⟨_, hv, ha⟩

end Any

variable {strict : Bool} {symbols : List String} {edited : EditedText} {leaves : Leaves}

/-- One of the symbols is used in what is written for a scalar. -/
def LeafUses (strict : Bool) (symbols : List String) (edited : EditedText) (side : Side) (v : Value) : Prop :=
  TextUses strict symbols side (renderValue edited 0 v)

/-- What is written for a scalar does not depend on the level. -/
theorem renderValue_of_isScalar {v : Value} (h : v.isScalar = true) (depth depth' : Nat) :
    renderValue edited depth v = renderValue edited depth' v := by
  cases v with
  | object | array => cases h
  | _ => simp only [renderValue]

/-- A quoted text holds no identifier. -/
theorem kind_quoteLexemes (inner : List Char) : ∀ l ∈ quoteLexemes inner, l.kind ≠ .identifier := by
  unfold quoteLexemes
  split <;> simp

/-- A key is no use. -/
theorem not_hasUse_key (key : String) (quoted : Bool) : ¬ HasUse strict symbols .key (keyLexemes key quoted) true := by
  cases quoted with
  | false =>
    rw [keyLexemes, if_neg (by simp), hasUse_cons]
    rintro (⟨-, -, ha⟩ | h)
    · cases ha
    · exact h
  | true =>
    rw [keyLexemes, if_pos rfl]
    exact not_hasUse_of_kind (kind_quoteLexemes _)

/-- The uses in properties are those in their values. -/
theorem hasUse_entries_iff {ps : List (Property Value)} {depth : Nat}
    (h : ∀ p ∈ ps, HasUse strict symbols .other (leaves.value depth p.value) false ↔
      p.value.Any (LeafUses strict symbols edited) .other) :
    HasUse strict symbols .key (leaves.entries depth ps) false ↔
      ∃ p ∈ ps, p.value.Any (LeafUses strict symbols edited) .other := by
  induction ps with
  | nil => simp [Leaves.entries]
  | cons p ps ih =>
    obtain ⟨key, quoted, value, line⟩ := p
    have hvalue := h ⟨key, quoted, value, line⟩ (by simp)
    have hrest := ih fun q hq => h q (List.mem_cons_of_mem _ hq)
    rw [Leaves.entries, hasUse_append, hasUse_regap, colonAt_cons]
    refine (or_iff_right (not_hasUse_key key quoted)).trans ?_
    rw [hasUse_cons_of_kind (by simp), hasUse_append, hasUse_regap, colonAt_cons,
      hasUse_cons_of_kind (by simp [newlineLexeme])]
    simp only [List.mem_cons, exists_eq_or_imp]
    exact or_congr hvalue hrest

/-- The uses in elements are those in their values. -/
theorem hasUse_items_iff {vs : List Value} {depth : Nat}
    (h : ∀ v ∈ vs, HasUse strict symbols .key (leaves.value depth v) false ↔
      v.Any (LeafUses strict symbols edited) .key) :
    HasUse strict symbols .key (leaves.items depth vs) false ↔
      ∃ v ∈ vs, v.Any (LeafUses strict symbols edited) .key := by
  induction vs with
  | nil => simp [Leaves.items]
  | cons v vs ih =>
    have hvalue := h v (by simp)
    have hrest := ih fun w hw => h w (List.mem_cons_of_mem _ hw)
    rw [Leaves.items, hasUse_append, hasUse_regap, colonAt_cons, hasUse_cons_of_kind (by simp [newlineLexeme])]
    simp only [List.mem_cons, exists_eq_or_imp]
    exact or_congr hvalue hrest

/-- The uses in a written value are those in its scalars. -/
theorem hasUse_value_iff {v : Value} (h : leaves.Show edited v) (side : Side) (depth : Nat) :
    HasUse strict symbols side (leaves.value depth v) false ↔ v.Any (LeafUses strict symbols edited) side := by
  have hscalar {v : Value} (hs : v.isScalar = true) (h : leaves.Show edited v) (side : Side) (depth : Nat) :
      HasUse strict symbols side (leaves.value depth v) false ↔ v.Any (LeafUses strict symbols edited) side := by
    obtain ⟨helement, htext⟩ := isLeaf_value h depth
    rw [any_scalar_iff hs, LeafUses, renderValue_of_isScalar hs 0 depth, textUses_iff helement.toPart htext]
  induction h generalizing side depth with
  | string h => exact hscalar rfl (.string h) side depth
  | interpolated h => exact hscalar rfl (.interpolated h) side depth
  | expression h => exact hscalar rfl (.expression h) side depth
  | number h => exact hscalar rfl (.number h) side depth
  | bool value => exact hscalar rfl (.bool value) side depth
  | null => exact hscalar rfl .null side depth
  | @object entries hk _ ih =>
    rw [any_object_iff]
    cases entries with
    | nil =>
      rw [Leaves.value]
      simpa using not_hasUse_of_kind (by simp)
    | cons p rest =>
      rw [Leaves.value, hasUse_cons_of_kind (by simp), hasUse_append, hasUse_cons_of_kind (by simp [newlineLexeme])]
      refine (or_iff_left (not_hasUse_of_kind (by simp))).trans (hasUse_entries_iff fun q hq => ih q hq .other (depth + 1))
  | @array items _ ih =>
    rw [any_array_iff]
    cases items with
    | nil =>
      rw [Leaves.value]
      simpa using not_hasUse_of_kind (by simp)
    | cons item rest =>
      rw [Leaves.value, hasUse_cons_of_kind (by simp), hasUse_append, hasUse_cons_of_kind (by simp [newlineLexeme])]
      refine (or_iff_left (not_hasUse_of_kind (by simp))).trans (hasUse_items_iff fun v hv => ih v hv .key (depth + 1))

/-- One of the symbols is used in a module call. -/
def CallUses (strict : Bool) (symbols : List String) (edited : EditedText) (call : ModuleCall) : Prop :=
  (∃ d ∈ call.decorators, TextUses strict symbols .key d) ∨
    (∃ c, call.condition = some c ∧ TextUses strict symbols .other c) ∨
    (Value.object call.body).Any (LeafUses strict symbols edited) .other

/-- The uses in lines of decorators are those in the decorators. -/
theorem hasUse_decorators_iff {line : String → List Lexeme} {decorators : List String}
    (h : ∀ d ∈ decorators, IsDecoratorLine d (line d)) (side : Side) (colon : Bool) :
    HasUse strict symbols side (decoratorLexemes line decorators) colon ↔
      ∃ d ∈ decorators, TextUses strict symbols .key d := by
  induction decorators generalizing side with
  | nil => simp [decoratorLexemes]
  | cons d ds ih =>
    obtain ⟨hline, htext, l, rest, hl, hk⟩ := h d (by simp)
    have hname : l.kind ≠ .identifier := by simp [hk]
    have hcons : decoratorLexemes line (d :: ds) = regap [] (line d) ++ newlineLexeme :: decoratorLexemes line ds := by
      simp [decoratorLexemes]
    have hfirst : HasUse strict symbols side (line d) false ↔ TextUses strict symbols .key d := by
      rw [textUses_iff hline.toPart htext, hl, hasUse_cons_of_kind hname, hasUse_cons_of_kind hname]
    rw [hcons, hasUse_append, hasUse_regap, colonAt_cons, hasUse_cons_of_kind (by simp [newlineLexeme]),
      ih fun e he => h e (List.mem_cons_of_mem _ he)]
    simp only [List.mem_cons, exists_eq_or_imp]
    exact or_congr hfirst Iff.rfl

/-- The head of a module call uses nothing. -/
theorem not_hasUse_head {symbol : String} {locator : List Lexeme} (hm : "module" ∉ symbols)
    (hl : ∀ l ∈ locator, l.kind ≠ .identifier) (side : Side) (colon : Bool) :
    ¬ HasUse strict symbols side (headLexemes symbol locator) colon := by
  have htail : ∀ l ∈ regap [' '] locator ++ [⟨[' '], .assign, ['=']⟩], l.kind ≠ .identifier :=
    List.forall_mem_append.2 ⟨(forall_kind_regap [' ']).2 hl, by simp⟩
  rw [headLexemes, hasUse_cons, hasUse_cons]
  rintro (⟨-, hmem, -⟩ | ⟨-, -, ha⟩ | h)
  · exact hm (by simpa [nameLexeme] using hmem)
  · cases strict <;> cases ha
  · exact not_hasUse_of_kind htail h

/-- A condition uses what its expression uses. -/
theorem hasUse_condition_iff {text : Option String} {condition : Option (List Lexeme)} (hif : "if" ∉ symbols)
    (h : match text, condition with
      | none, none => True
      | some text, some ls => Part ls ∧ text.toList = bare ls
      | _, _ => False) (side : Side) (colon : Bool) :
    HasUse strict symbols side (conditionLexemes condition) colon ↔
      ∃ c, text = some c ∧ TextUses strict symbols .other c := by
  cases condition with
  | none =>
    cases text with
    | none => simp [conditionLexemes]
    | some text => exact h.elim
  | some ls =>
    cases text with
    | none => exact h.elim
    | some text =>
      obtain ⟨hp, htext⟩ := h
      rw [conditionLexemes, hasUse_cons, hasUse_cons_of_kind (by simp), hasUse_append, hasUse_regap, colonAt_cons,
        or_iff_right fun hu => hif (by simpa using hu.2.1)]
      refine (or_iff_left (not_hasUse_of_kind (by simp))).trans ?_
      simp only [Option.some.injEq, exists_eq_left']
      exact (textUses_iff hp htext).symm

/-- The uses in a written module call are those in its head, its decorators, its condition and its body. -/
theorem CallLexemes.Show.exists_hasUse_iff {parts : CallLexemes} {call : ModuleCall} (h : parts.Show edited call)
    (hif : "if" ∉ symbols) (side : Side) : ∃ side' colon, (HasUse strict symbols side (parts.all call) false ↔
      HasUse strict symbols side' (headLexemes call.symbol parts.locator) colon ∨
        CallUses strict symbols edited call) := by
  rw [CallLexemes.all, hasUse_append, hasUse_append, hasUse_append, hasUse_regap, hasUse_decorators_iff h.decorators,
    hasUse_condition_iff hif h.condition, hasUse_value_iff h.body, any_object_iff, CallUses, any_object_iff]
  exact ⟨_, _, or_left_comm⟩

/-- What the parts of a module call use is used in it. -/
theorem CallLexemes.Show.hasUse_of_callUses {parts : CallLexemes} {call : ModuleCall} (h : parts.Show edited call)
    (hif : "if" ∉ symbols) (side : Side) (hu : CallUses strict symbols edited call) :
    HasUse strict symbols side (parts.all call) false := by
  obtain ⟨side', colon, hiff⟩ := @CallLexemes.Show.exists_hasUse_iff strict symbols _ _ _ h hif side
  exact hiff.2 (.inr hu)

/-- A module call with a plain locator uses what its parts use. -/
theorem CallLexemes.Show.callUses_of_hasUse {parts : CallLexemes} {call : ModuleCall} (h : parts.Show edited call)
    (hplain : IsPlain call.locator) (hquote : '\'' ∉ call.locator.toList) (hw : ∀ word ∈ callWords, word ∉ symbols)
    (side : Side) (hu : HasUse strict symbols side (parts.all call) false) : CallUses strict symbols edited call := by
  have hlocator : ∀ l ∈ parts.locator, l.kind ≠ .identifier := by
    obtain ⟨hp, hbare⟩ := h.locator
    rw [← bare_quoteLexemes] at hbare
    have hregap := regap_eq_of_bare hp (element_quote_plain hplain hquote).toPart hbare.symm
    refine (forall_kind_regap []).1 ?_
    rw [hregap]
    exact (forall_kind_regap []).2 (kind_quoteLexemes _)
  obtain ⟨side', colon, hiff⟩ := @CallLexemes.Show.exists_hasUse_iff strict symbols _ _ _ h (hw _ (by decide)) side
  exact (hiff.1 hu).resolve_left (not_hasUse_head (hw _ (by decide)) hlocator _ _)

end BicepMigration.Template
