import BicepMigration.Proofs.Template.Aspect
import BicepMigration.Template.Literal

/-!
# Values without their places

A value is compared with another one apart from the spans of its fragments and the lines of its keys. What a value
is equal to does not depend on these. Main statement: a value whose tokens stand elsewhere is the same.
-/

namespace BicepMigration.Template

namespace Value

mutual

/-- The value with another text for each fragment, and without the places it was read from. -/
def recast (write : Fragment → String) : Value → Value
  | .string f => .string ⟨write f, none⟩
  | .interpolated f => .interpolated ⟨write f, none⟩
  | .expression f => .expression ⟨write f, none⟩
  | .number text => .number text
  | .bool value => .bool value
  | .null => .null
  | .object entries => .object (recastEntries write entries)
  | .array items => .array (recastItems write items)

/-- Entries with another text for each fragment, and without their places. -/
def recastEntries (write : Fragment → String) : List (Property Value) → List (Property Value)
  | [] => []
  | ⟨key, quoted, value, _⟩ :: rest => ⟨key, quoted, value.recast write, 0⟩ :: recastEntries write rest

/-- Elements with another text for each fragment, and without their places. -/
def recastItems (write : Fragment → String) : List Value → List Value
  | [] => []
  | item :: rest => item.recast write :: recastItems write rest

end

/-- The value without the places it was read from. -/
abbrev unplaced (v : Value) : Value := v.recast (·.raw)

end Value

/-- Entries without the places they were read from. -/
abbrev ObjectLiteral.unplaced (entries : ObjectLiteral) : ObjectLiteral := Value.recastEntries (·.raw) entries

/-- The aspect in which a value has no place. -/
def Aspect.recast (write : Fragment → String) : Aspect := ⟨fun f => ⟨write f, none⟩, id, fun _ => ⟨0, 0⟩, fun _ => 0⟩

section Recast

variable {write : Fragment → String}

mutual

/-- Writing fragments anew is an aspect of a value. -/
theorem recast_eq_seen : ∀ v : Value, v.recast write = v.seen (.recast write)
  | .string _ => rfl
  | .interpolated _ => rfl
  | .expression _ => rfl
  | .number _ => rfl
  | .bool _ => rfl
  | .null => rfl
  | .object entries => congrArg Value.object (recastEntries_eq_seen entries)
  | .array items => congrArg Value.array (recastItems_eq_seen items)

theorem recastEntries_eq_seen : ∀ entries : ObjectLiteral,
    Value.recastEntries write entries = Value.seenEntries (.recast write) entries
  | [] => rfl
  | ⟨_, _, value, _⟩ :: rest => by
    simp only [Value.recastEntries, Value.seenEntries, recast_eq_seen value, recastEntries_eq_seen rest]
    rfl

theorem recastItems_eq_seen : ∀ items : List Value,
    Value.recastItems write items = Value.seenItems (.recast write) items
  | [] => rfl
  | item :: rest => by simp only [Value.recastItems, Value.seenItems, recast_eq_seen item, recastItems_eq_seen rest]

end

/-- Each property is written anew by itself. -/
theorem recastEntries_eq_map (entries : ObjectLiteral) :
    Value.recastEntries write entries = entries.map fun p => ⟨p.key, p.quoted, p.value.recast write, 0⟩ := by
  induction entries with
  | nil => rfl
  | cons p rest ih => simp [Value.recastEntries, ih]

/-- Each element is written anew by itself. -/
theorem recastItems_eq_map (items : List Value) :
    Value.recastItems write items = items.map (Value.recast write) := by
  induction items with
  | nil => rfl
  | cons item rest ih => simp [Value.recastItems, ih]

/-- A value that is written anew is found under its key. -/
theorem get?_recastEntries (entries : ObjectLiteral) (key : String) :
    ObjectLiteral.get? (Value.recastEntries write entries) key =
      (ObjectLiteral.get? entries key).map (Value.recast write) := by
  rw [recastEntries_eq_map]
  induction entries with
  | nil => rfl
  | cons p rest ih =>
    unfold ObjectLiteral.get? at ih ⊢
    by_cases hk : p.key = key
    · simp [hk]
    · simpa [hk] using ih

mutual

/-- A literal stays one. -/
theorem isLiteral_recast : ∀ v : Value, (v.recast write).isLiteral = v.isLiteral
  | .string _ => rfl
  | .interpolated _ => rfl
  | .expression _ => rfl
  | .number _ => rfl
  | .bool _ => rfl
  | .null => rfl
  | .object entries => entriesLiteral_recast entries
  | .array items => areLiteral_recast items

theorem entriesLiteral_recast : ∀ entries : ObjectLiteral,
    Value.entriesLiteral (Value.recastEntries write entries) = Value.entriesLiteral entries
  | [] => rfl
  | ⟨_, _, value, _⟩ :: rest => by
    simp only [Value.recastEntries, Value.entriesLiteral, isLiteral_recast value, entriesLiteral_recast rest]

theorem areLiteral_recast : ∀ items : List Value,
    Value.areLiteral (Value.recastItems write items) = Value.areLiteral items
  | [] => rfl
  | item :: rest => by
    simp only [Value.recastItems, Value.areLiteral, isLiteral_recast item, areLiteral_recast rest]

end

mutual

/-- What a value is equal to does not depend on its places. -/
theorem literalEq_unplaced : ∀ (v : Value) (d : Json), v.unplaced.literalEq d = v.literalEq d
  | .string _, d => by cases d <;> rfl
  | .interpolated _, _ => rfl
  | .expression _, _ => rfl
  | .number _, d => by cases d <;> rfl
  | .bool _, d => by cases d <;> rfl
  | .null, d => by cases d <;> rfl
  | .object entries, d => by
    have hl := (@entriesLiteral_recast (·.raw)) entries
    have hn : (Value.recastEntries (·.raw) entries).length = entries.length := by simp [recastEntries_eq_map]
    cases d with
    | object values =>
      have he := entriesEq_unplaced entries values
      simp only [Value.recast, Value.literalEq, hl, hn, he]
    | _ => exact congrArg (fun b : Bool => if b = true then some false else none) hl
  | .array items, d => by
    have hl := (@areLiteral_recast (·.raw)) items
    have hn : (Value.recastItems (·.raw) items).length = items.length := by simp [recastItems_eq_map]
    cases d with
    | array values =>
      have he := itemsEq_unplaced items values
      simp only [Value.recast, Value.literalEq, hl, hn, he]
    | _ => exact congrArg (fun b : Bool => if b = true then some false else none) hl

/-- Properties are compared without regard to places. -/
theorem entriesEq_unplaced : ∀ (entries : ObjectLiteral) (values : List (String × Json)),
    Value.entriesEq entries.unplaced values = Value.entriesEq entries values
  | [], _ => rfl
  | ⟨_, _, value, _⟩ :: rest, values => by
    simp only [ObjectLiteral.unplaced, Value.recastEntries, Value.entriesEq]
    split
    · rfl
    · next expected _ =>
      rw [literalEq_unplaced value expected]
      split
      · exact entriesEq_unplaced rest values
      · rfl

/-- Elements are compared without regard to places. -/
theorem itemsEq_unplaced : ∀ (items : List Value) (values : List Json),
    Value.itemsEq (Value.recastItems (·.raw) items) values = Value.itemsEq items values
  | [], _ => rfl
  | _ :: _, [] => rfl
  | item :: rest, value :: values => by
    simp only [Value.recastItems, Value.itemsEq, itemsEq_unplaced rest values]
    rw [literalEq_unplaced item value]

end

end Recast

/-- Tokens are put in other places with the text between them: fragments keep their text, and tokens that meet
still do. -/
structure Carries (source source' : String) (g : Token → Token) (all : List Token) : Prop extends Relocates g where
  raw : ∀ first others, first :: others <:+: all →
    (Fragment.ofTokens source' (g first) (others.map g)).raw = (Fragment.ofTokens source first others).raw
  meets : ∀ a b, [a, b] <:+: all → ((g a).span.stop = (g b).span.start ↔ a.span.stop = b.span.start)

variable {source source' : String} {g : Token → Token} {all : List Token}

/-- Tokens in other places are seen alike without their places. -/
theorem Carries.seenAlike (h : Carries source source' g all) :
    SeenAlike (.recast (·.raw)) (.recast (·.raw)) source source' g all where
  toResembles := h.toRelocates.resembles
  fragment first others hi := congrArg (fun raw => (⟨raw, none⟩ : Fragment)) (h.raw first others hi)
  number := h.raw
  span _ _ _ _ := rfl
  line _ _ := rfl
  meets a b _ := h.meets a b

/-- A value in another place. -/
theorem unplaced_readValue (first : Token) (others : List Token) (h : Carries source source' g (first :: others)) :
    (readValue source' (g first) (others.map g)).unplaced = (readValue source first others).unplaced := by
  rw [Value.unplaced, Value.unplaced, recast_eq_seen, recast_eq_seen]
  exact seen_readValue first others h.seenAlike

end BicepMigration.Template
