import BicepMigration.Migration.Elision
import BicepMigration.Proofs.Migration.Names
import BicepMigration.Proofs.Template.RenderedCall

/-!
# Bodies of module calls

The body of a module call is made of parts of the body of the resource, and pruning leaves parts of it. So what holds
of all scalars of the resource holds of those of the module call, and its keys are names where they are not quoted.
Which parts go where is not described here.
-/

namespace BicepMigration.Migration

open Catalog Template

variable {leaf : Value → Prop}

/-- The scalars of a property have a property, and its key is a name if it is not quoted. -/
def PropertyEvery (leaf : Value → Prop) (p : Property Value) : Prop :=
  (p.quoted = false → IsName p.key) ∧ p.value.Every leaf

/-- Every leaf of an object is one of a property of it. -/
theorem every_object_iff {entries : ObjectLiteral} :
    (Value.object entries).Every leaf ↔ ∀ p ∈ entries, PropertyEvery leaf p := by
  constructor
  · intro h
    cases h with
    | scalar hs => cases hs
    | object hk hv => exact fun p hp => ⟨hk p hp, hv p hp⟩
  · exact fun h => .object (fun p hp => (h p hp).1) fun p hp => (h p hp).2

/-- The parts of a division have a property, and its inputs are those of the mapping. -/
structure DivisionEvery (leaf : Value → Prop) (mapping : Mapping) (d : Division) : Prop where
  translated : ∀ t ∈ d.translated, t.value.Every leaf ∧ ∃ path, (path, t.input) ∈ mapping.inputs
  residual : ∀ p ∈ d.residual, PropertyEvery leaf p

/-- Two divisions that hold good leaves do so together. -/
theorem DivisionEvery.append {mapping : Mapping} {a b : Division} (ha : DivisionEvery leaf mapping a)
    (hb : DivisionEvery leaf mapping b) : DivisionEvery leaf mapping (a.append b) := by
  refine ⟨fun t ht => ?_, fun p hp => ?_⟩
  · exact (List.mem_append.1 ht).elim (ha.translated t) (hb.translated t)
  · exact (List.mem_append.1 hp).elim (ha.residual p) (hb.residual p)

/-- A property that is kept brings its own leaves only. -/
theorem divisionEvery_keep {mapping : Mapping} {p : Property Value} (h : PropertyEvery leaf p) (path : String) :
    DivisionEvery leaf mapping (.keep path p) :=
  ⟨by simp [Division.keep], by simpa [Division.keep] using h⟩

/-- Dividing properties keeps their parts, if it does so in the objects that they hold. -/
theorem divisionEvery_of_forall {mapping : Mapping} {parent : String} {ps : List (Property Value)}
    (h : ∀ p ∈ ps, PropertyEvery leaf p)
    (ho : ∀ p ∈ ps, ∀ path entries, p.value = .object entries →
      DivisionEvery leaf mapping (divide mapping path entries)) :
    DivisionEvery leaf mapping (divide mapping parent ps) := by
  induction ps with
  | nil =>
    rw [divide]
    exact ⟨by simp [Division.empty], by simp [Division.empty]⟩
  | cons p rest ih =>
    obtain ⟨key, quoted, value, line⟩ := p
    have hp := h ⟨key, quoted, value, line⟩ (by simp)
    have hop := ho ⟨key, quoted, value, line⟩ (by simp)
    have hrest := ih (fun q hq => h q (List.mem_cons_of_mem _ hq)) fun q hq => ho q (List.mem_cons_of_mem _ hq)
    unfold divide
    refine DivisionEvery.append ?_ hrest
    cases he : Json.entry? mapping.inputs (childPath parent key) with
    | some input =>
      refine ⟨fun t ht => ?_, by simp [Division.translate]⟩
      obtain rfl : t = ⟨childPath parent key, input, value⟩ := by simpa [Division.translate] using ht
      exact ⟨hp.2, _, mem_of_entry? he⟩
    | none =>
      cases value with
      | object entries =>
        simp only
        split
        · have hinner := hop (childPath parent key) entries rfl
          refine ⟨hinner.translated, fun q hq => ?_⟩
          simp only [Division.enclose] at hq
          split at hq
          · simp at hq
          · obtain rfl := List.mem_singleton.1 hq
            exact ⟨hp.1, every_object_iff.2 hinner.residual⟩
        · exact divisionEvery_keep hp _
      | _ => exact divisionEvery_keep hp _

/-- Dividing an object keeps its parts. -/
theorem divisionEvery_divide {mapping : Mapping} {value : Value} (h : value.Every leaf) :
    ∀ parent entries, value = .object entries → DivisionEvery leaf mapping (divide mapping parent entries) := by
  induction h with
  | @object entries hk hv ih =>
    intro parent entries' he
    cases he
    exact divisionEvery_of_forall (fun p hp => ⟨hk p hp, hv p hp⟩) fun p hp path inner => ih p hp path inner
  | scalar hs =>
    rintro _ _ rfl
    cases hs
  | array => simp

/-- The inputs in the body of a module call. -/
theorem get?_moduleBody (newSymbol : String) (parts : Partition) :
    ObjectLiteral.get? (moduleBody newSymbol parts) "params" = some (.object (moduleParams parts)) := by
  have hscope : (parts.hoisted? "scope").toList.find? (fun p => decide (p.key = "params")) = none := by
    refine List.find?_eq_none.2 fun p hp => ?_
    have hkey : p.key = "scope" := by simpa using List.find?_some (Option.mem_toList.1 hp)
    simp [hkey]
  simp [ObjectLiteral.get?, moduleBody, Property.plain, List.find?_append, hscope]

/-- The body of a module call has the parts of the body of the resource. -/
theorem every_moduleBody {mapping : Mapping} {body : ObjectLiteral} {newSymbol : String}
    (h : (Value.object body).Every leaf) (hm : mapping.fault? = none)
    (hq : leaf (.string ⟨quote newSymbol, none⟩)) :
    (Value.object (moduleBody newSymbol (partition mapping body))).Every leaf := by
  have hbody := every_object_iff.1 h
  have hdivision : DivisionEvery leaf mapping (partition mapping body).toDivision :=
    divisionEvery_of_forall (fun p hp => hbody p (List.mem_filter.1 hp).1) fun p hp path entries he =>
      divisionEvery_divide (hbody p (List.mem_filter.1 hp).1).2 path entries he
  have hhoisted (key : String) : ∀ p ∈ ((partition mapping body).hoisted? key).toList, PropertyEvery leaf p := by
    intro p hp
    have hmem := List.mem_of_find?_eq_some (Option.mem_toList.1 hp)
    exact hbody p (List.mem_filter.1 hmem).1
  have hparams : (Value.object (moduleParams (partition mapping body))).Every leaf := by
    refine every_object_iff.2 fun p hp => ?_
    rcases List.mem_append.1 hp with hp | hp
    · obtain ⟨t, ht, rfl⟩ := List.mem_map.1 hp
      obtain ⟨hv, path, hpath⟩ := hdivision.translated t ht
      exact ⟨fun _ => isName_of_isIdentifier ((tables_of_fault hm).1 _ hpath), hv⟩
    · exact hdivision.residual p hp
  have hname : IsName "name" := isName_word rfl rfl (by decide)
  have hparamsName : IsName "params" := isName_word rfl rfl (by decide)
  refine every_object_iff.2 fun p hp => ?_
  rw [moduleBody, List.cons_append, List.mem_cons, List.mem_append, List.mem_cons] at hp
  rcases hp with rfl | hp | rfl | hp
  · exact ⟨fun _ => hname, .scalar rfl hq⟩
  · exact hhoisted _ p hp
  · exact ⟨fun _ => hparamsName, hparams⟩
  · exact hhoisted _ p hp

/-- Pruning properties keeps parts of them, if it does so in the objects that they hold. -/
theorem every_prune_of_forall {defaults : List (String × Json)} {module parent : String} {ps : List (Property Value)}
    (h : ∀ p ∈ ps, PropertyEvery leaf p)
    (ho : ∀ p ∈ ps, ∀ path entries, p.value = .object entries →
      ∀ q ∈ (prune defaults module path entries).kept, PropertyEvery leaf q) :
    ∀ q ∈ (prune defaults module parent ps).kept, PropertyEvery leaf q := by
  induction ps with
  | nil =>
    rw [prune]
    simp [Pruning.empty]
  | cons p rest ih =>
    obtain ⟨key, quoted, value, line⟩ := p
    have hp := h ⟨key, quoted, value, line⟩ (by simp)
    have hop := ho ⟨key, quoted, value, line⟩ (by simp)
    have hrest := ih (fun q hq => h q (List.mem_cons_of_mem _ hq)) fun q hq => ho q (List.mem_cons_of_mem _ hq)
    unfold prune
    intro q hq
    refine (List.mem_append.1 hq).elim (fun hq => ?_) (hrest q)
    have hkeep (hq : q ∈ (Pruning.keep ⟨key, quoted, value, line⟩).kept) : PropertyEvery leaf q := by
      obtain rfl := List.mem_singleton.1 hq
      exact hp
    cases he : Json.entry? defaults (childPath parent key) with
    | some default =>
      simp only [he, pruneAgainst] at hq
      split at hq
      · simp at hq
      · exact hkeep hq
      · exact hkeep hq
    | none =>
      cases value with
      | object entries =>
        simp only [he] at hq
        split at hq
        · have hinner := hop (childPath parent key) entries rfl
          simp only [Pruning.enclose] at hq
          split at hq
          · simp at hq
          · obtain rfl := List.mem_singleton.1 hq
            exact ⟨hp.1, every_object_iff.2 hinner⟩
        · exact hkeep hq
      | _ =>
        simp only [he] at hq
        exact hkeep hq

/-- Pruning an object keeps parts of it. -/
theorem every_prune {defaults : List (String × Json)} {module : String} {value : Value}
    (h : value.Every leaf) : ∀ parent entries, value = .object entries →
      ∀ q ∈ (prune defaults module parent entries).kept, PropertyEvery leaf q := by
  induction h with
  | @object entries hk hv ih =>
    intro parent entries' he
    cases he
    exact every_prune_of_forall (fun p hp => ⟨hk p hp, hv p hp⟩) fun p hp path inner => ih p hp path inner
  | scalar hs =>
    rintro _ _ rfl
    cases hs
  | array => simp

/-- A value that is put in place of another one brings its own leaves only. -/
theorem every_replaceFirst {key : String} {value : Value} {entries : ObjectLiteral} (hv : value.Every leaf)
    (h : ∀ p ∈ entries, PropertyEvery leaf p) :
    ∀ p ∈ replaceFirst key value entries, PropertyEvery leaf p := by
  induction entries with
  | nil => simp [replaceFirst]
  | cons e rest ih =>
    have he := h e (by simp)
    have hrest : ∀ p ∈ rest, PropertyEvery leaf p := fun p hp => h p (List.mem_cons_of_mem _ hp)
    unfold replaceFirst
    split
    · intro p hp
      rcases List.mem_cons.1 hp with rfl | hp
      · exact ⟨he.1, hv⟩
      · exact hrest p hp
    · intro p hp
      rcases List.mem_cons.1 hp with rfl | hp
      · exact he
      · exact ih hrest p hp

end BicepMigration.Migration
