import BicepMigration.Migration.Partition

/-!
# What dividing a body does

Dividing walks over properties. One with an input becomes that input, an object with input paths below it is divided
in turn, and any other stays. What stays is in order and under the keys that it had, and the paths without an input are
paths in it. Where the parts go in the module call is not described here.
-/

namespace BicepMigration.Migration

open Catalog Template

/-- Induction along a walk over properties by the paths of a table. A property with an entry is passed, an object with
paths below it is entered, and any other property is passed too. -/
theorem walk_induction {α : Type} (table : List (String × α)) {motive : String → List (Property Value) → Prop}
    (done : ∀ parent, motive parent [])
    (found : ∀ parent p rest entry, Json.entry? table (childPath parent p.key) = some entry → motive parent rest →
      motive parent (p :: rest))
    (enter : ∀ parent p entries rest, Json.entry? table (childPath parent p.key) = none → p.value = .object entries →
      hasPathBelow table (childPath parent p.key) = true → motive (childPath parent p.key) entries →
      motive parent rest → motive parent (p :: rest))
    (pass : ∀ parent p rest, Json.entry? table (childPath parent p.key) = none →
      (∀ entries, p.value = .object entries → hasPathBelow table (childPath parent p.key) = false) →
      motive parent rest → motive parent (p :: rest)) (parent : String) :
    (ps : List (Property Value)) → motive parent ps
  | [] => done parent
  | ⟨key, quoted, value, line⟩ :: rest => by
    have hrest := walk_induction table done found enter pass parent rest
    cases he : Json.entry? table (childPath parent key) with
    | some entry => exact found parent _ rest entry he hrest
    | none =>
      cases hb : hasPathBelow table (childPath parent key) with
      | false => exact pass parent _ rest he (fun _ _ => hb) hrest
      | true =>
        cases value with
        | object entries =>
          have hinner := walk_induction table done found enter pass (childPath parent key) entries
          exact enter parent ⟨key, quoted, .object entries, line⟩ entries rest he rfl hb hinner hrest
        | _ => exact pass parent _ rest he (fun _ h => by cases h) hrest

variable {mapping : Mapping}

section Equations

variable {parent : String} {p : Property Value}

/-- A property with an input is translated. -/
theorem divide_of_input {input : String} (h : Json.entry? mapping.inputs (childPath parent p.key) = some input)
    (rest : ObjectLiteral) : divide mapping parent (p :: rest) =
      (Division.translate (childPath parent p.key) input p.value).append (divide mapping parent rest) := by
  rw [divide.eq_def]
  simp only [h]

/-- An object with inputs below its path is walked into. -/
theorem divide_of_object (h : Json.entry? mapping.inputs (childPath parent p.key) = none) {entries : ObjectLiteral}
    (hv : p.value = .object entries) (hu : mapping.hasInputsUnder (childPath parent p.key) = true)
    (rest : ObjectLiteral) : divide mapping parent (p :: rest) =
      (Division.enclose p.key p.quoted p.line (divide mapping (childPath parent p.key) entries)).append
        (divide mapping parent rest) := by
  rw [divide.eq_def]
  simp only [h, hv, hu, if_true]

/-- Another property is kept. -/
theorem divide_of_keep (h : Json.entry? mapping.inputs (childPath parent p.key) = none)
    (hu : ∀ entries, p.value = .object entries → mapping.hasInputsUnder (childPath parent p.key) = false)
    (rest : ObjectLiteral) : divide mapping parent (p :: rest) =
      (Division.keep (childPath parent p.key) p).append (divide mapping parent rest) := by
  obtain ⟨key, quoted, value, line⟩ := p
  rw [divide.eq_def]
  simp only at h hu
  simp only [h]
  cases value with
  | object entries => simp only [hu entries rfl, Bool.false_eq_true, if_false]
  | _ => rfl

end Equations

/-- Without input paths every property stays. -/
theorem divide_of_inputs_nil (h : mapping.inputs = []) (parent : String) (ps : ObjectLiteral) :
    divide mapping parent ps = ⟨[], ps, ps.map fun p => ⟨childPath parent p.key, p.line⟩⟩ := by
  induction ps with
  | nil => rw [divide]; rfl
  | cons p rest ih =>
    rw [divide_of_keep (by rw [h]; rfl) fun _ _ => by rw [Mapping.hasInputsUnder, h]; rfl, ih]
    rfl

/-- Properties under a path, and where they go. -/
inductive Divides (mapping : Mapping) : String → ObjectLiteral → Division → Prop where
  | done {parent : String} : Divides mapping parent [] .empty
  /-- A property with an input becomes that input. -/
  | translate {parent input : String} {p : Property Value} {rest : ObjectLiteral} {others : Division} :
      Json.entry? mapping.inputs (childPath parent p.key) = some input → Divides mapping parent rest others →
      Divides mapping parent (p :: rest)
        ((Division.translate (childPath parent p.key) input p.value).append others)
  /-- An object with input paths below it is divided. -/
  | enter {parent : String} {p : Property Value} {entries rest : ObjectLiteral} {inner others : Division} :
      Json.entry? mapping.inputs (childPath parent p.key) = none → p.value = .object entries →
      mapping.hasInputsUnder (childPath parent p.key) = true →
      Divides mapping (childPath parent p.key) entries inner → Divides mapping parent rest others →
      Divides mapping parent (p :: rest) ((Division.enclose p.key p.quoted p.line inner).append others)
  /-- Any other property stays. -/
  | keep {parent : String} {p : Property Value} {rest : ObjectLiteral} {others : Division} :
      Json.entry? mapping.inputs (childPath parent p.key) = none →
      (∀ entries, p.value = .object entries → mapping.hasInputsUnder (childPath parent p.key) = false) →
      Divides mapping parent rest others →
      Divides mapping parent (p :: rest) ((Division.keep (childPath parent p.key) p).append others)

/-- The division of properties is one by these rules. -/
theorem divides_divide (mapping : Mapping) (parent : String) (ps : List (Property Value)) :
    Divides mapping parent ps (divide mapping parent ps) := by
  induction parent, ps using walk_induction mapping.inputs with
  | done parent =>
    rw [divide]
    exact .done
  | found parent p rest input hinput ih =>
    rw [divide_of_input hinput]
    exact .translate hinput ih
  | enter parent p entries rest hinput hv hu ih ih' =>
    rw [divide_of_object hinput hv hu]
    exact .enter hinput hv hu ih ih'
  | pass parent p rest hinput hu ih =>
    rw [divide_of_keep hinput hu]
    exact .keep hinput hu ih

/-- The properties of a body that do not belong to the module call are divided. -/
theorem divides_partition (mapping : Mapping) (body : ObjectLiteral) :
    Divides mapping "" (body.filter fun p => !hoistedKeys.contains p.key) (partition mapping body).toDivision :=
  divides_divide ..

variable {parent : String} {ps : ObjectLiteral} {d : Division}

/-- The keys of what stays are keys of the properties, in their order. -/
theorem Divides.keys_sublist (h : Divides mapping parent ps d) :
    (d.residual.map (·.key)).Sublist (ps.map (·.key)) := by
  induction h with
  | done => exact .slnil
  | translate _ _ ih => exact ih.cons _
  | @enter parent p entries rest inner others _ _ _ _ _ _ ih =>
    simp only [Division.append, Division.enclose, List.map_append]
    split
    · exact ih.cons _
    · exact ih.cons_cons _
  | keep _ _ _ ih => exact ih.cons_cons _

end BicepMigration.Migration
