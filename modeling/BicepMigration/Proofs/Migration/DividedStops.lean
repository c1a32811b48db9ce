import BicepMigration.Proofs.Migration.Descent
import BicepMigration.Proofs.Migration.Divided

/-!
# Where the properties of a body go

Partitioning a body decides at each stop of a walk by input paths whether the property becomes an input or stays under
its keys. So no property is lost but objects that are entered and in which nothing remains, and none is there twice.
-/

namespace BicepMigration.Migration

open Catalog Template

/-- The paths of the inputs of a mapping. -/
def inputPaths (mapping : Mapping) : List String := mapping.inputs.map (·.1)

/-- The input that a property becomes. -/
def Site.translation? (mapping : Mapping) (s : Site) : Option Translation :=
  (Json.entry? mapping.inputs s.path).map fun input => ⟨s.path, input, s.property.value⟩

/-- A property without an input, as it is reported. -/
def Site.unmapped (s : Site) : Unmapped := ⟨s.path, s.property.line⟩

/-- The properties that stay: the walk stops there, and their path is no input path. -/
def keptStops (mapping : Mapping) (above : List String) (ps : ObjectLiteral) : List Site :=
  (stopsUnder (inputPaths mapping) above ps).filter fun s => s.path ∉ inputPaths mapping

/-- Properties under keys, and what remains of them. -/
inductive Remains (mapping : Mapping) : List String → ObjectLiteral → ObjectLiteral → Prop where
  | done {above : List String} : Remains mapping above [] []
  /-- A property with an input does not remain. -/
  | translated {above : List String} {p : Property Value} {rest left : ObjectLiteral} :
      keyPath (above ++ [p.key]) ∈ inputPaths mapping → Remains mapping above rest left →
      Remains mapping above (p :: rest) left
  /-- A property that is neither an input nor entered remains as it is. -/
  | kept {above : List String} {p : Property Value} {rest left : ObjectLiteral} :
      keyPath (above ++ [p.key]) ∉ inputPaths mapping →
      ¬ (isObject p.value = true ∧ IsEntered (inputPaths mapping) (keyPath (above ++ [p.key]))) →
      Remains mapping above rest left → Remains mapping above (p :: rest) (p :: left)
  /-- An object that is entered remains with what remains in it. -/
  | entered {above : List String} {p : Property Value} {entries inner rest left : ObjectLiteral} :
      IsEntered (inputPaths mapping) (keyPath (above ++ [p.key])) → p.value = .object entries →
      Remains mapping (above ++ [p.key]) entries inner → inner ≠ [] → Remains mapping above rest left →
      Remains mapping above (p :: rest) ({ p with value := .object inner } :: left)
  /-- An object that is entered and in which nothing remains does not remain. -/
  | emptied {above : List String} {p : Property Value} {entries rest left : ObjectLiteral} :
      IsEntered (inputPaths mapping) (keyPath (above ++ [p.key])) → p.value = .object entries →
      Remains mapping (above ++ [p.key]) entries [] → Remains mapping above rest left →
      Remains mapping above (p :: rest) left

/-- Properties under keys are divided at the stops of the walk. -/
structure DividesStops (mapping : Mapping) (above : List String) (ps : ObjectLiteral) (d : Division) : Prop where
  translated : d.translated = (stopsUnder (inputPaths mapping) above ps).filterMap (Site.translation? mapping)
  unmapped : d.unmapped = (keptStops mapping above ps).map Site.unmapped
  residual : stopsUnder (inputPaths mapping) above d.residual = keptStops mapping above ps
  remains : Remains mapping above ps d.residual

section Division

variable {mapping : Mapping} {above : List String} {parent input : String} {p : Property Value}
  {entries ps rest : ObjectLiteral} {d inner others : Division}

/-- Objects are values with properties. -/
theorem isObject_iff {v : Value} : isObject v = true ↔ ∃ entries : ObjectLiteral, v = .object entries := by
  cases v <;> simp [isObject]

namespace DividesStops

/-- Without properties there is nothing to divide. -/
theorem done : DividesStops mapping above [] .empty := by
  constructor
  case remains => exact .done
  all_goals simp [keptStops, stopsUnder_nil, Division.empty]

/-- A property with an input is the first stop. -/
theorem translate (ho : IsOpen (inputPaths mapping) above)
    (hinput : Json.entry? mapping.inputs (keyPath (above ++ [p.key])) = some input)
    (h : DividesStops mapping above rest others) :
    DividesStops mapping above (p :: rest)
      ((Division.translate (keyPath (above ++ [p.key])) input p.value).append others) := by
  have hmem : keyPath (above ++ [p.key]) ∈ inputPaths mapping := mem_paths_of_eq_some hinput
  have hstops := stopsUnder_of_stop ho (p := p) (fun hp => hp.2.1 hmem) rest
  have hkept : keptStops mapping above (p :: rest) = keptStops mapping above rest := by
    rw [keptStops, hstops, List.filter_cons_of_neg (by rw [decide_eq_true_eq]; exact not_not_intro hmem)]
    rfl
  refine ⟨?_, ?_, ?_, .translated hmem h.remains⟩
  · have htranslation : Site.translation? mapping ⟨above ++ [p.key], p⟩ =
        some ⟨keyPath (above ++ [p.key]), input, p.value⟩ := by rw [Site.translation?, Site.path, hinput]; rfl
    rw [hstops, List.filterMap_cons_some htranslation, ← h.translated]
    rfl
  · rw [hkept, ← h.unmapped]
    rfl
  · rw [hkept, ← h.residual]
    rfl

/-- A property that stays is the first stop. -/
theorem keep (ho : IsOpen (inputPaths mapping) above)
    (hinput : Json.entry? mapping.inputs (keyPath (above ++ [p.key])) = none)
    (hp : ¬ (isObject p.value = true ∧ IsEntered (inputPaths mapping) (keyPath (above ++ [p.key]))))
    (h : DividesStops mapping above rest others) :
    DividesStops mapping above (p :: rest) ((Division.keep (keyPath (above ++ [p.key])) p).append others) := by
  have hmem : keyPath (above ++ [p.key]) ∉ inputPaths mapping := entry?_eq_none_iff.1 hinput
  have hstops := stopsUnder_of_stop ho hp
  have hkept : keptStops mapping above (p :: rest) = ⟨above ++ [p.key], p⟩ :: keptStops mapping above rest := by
    rw [keptStops, hstops, List.filter_cons_of_pos (by rw [decide_eq_true_eq]; exact hmem)]
    rfl
  refine ⟨?_, ?_, ?_, .kept hmem hp h.remains⟩
  · have htranslation : Site.translation? mapping ⟨above ++ [p.key], p⟩ = none := by
      rw [Site.translation?, Site.path, hinput]; rfl
    rw [hstops, List.filterMap_cons_none htranslation, ← h.translated]
    rfl
  · rw [hkept, List.map_cons, ← h.unmapped]
    rfl
  · rw [hkept, ← h.residual, ← hstops others.residual]
    rfl

/-- The stops in an object that is entered come first. -/
theorem enter (he : IsEntered (inputPaths mapping) (keyPath (above ++ [p.key]))) (hv : p.value = .object entries)
    (hin : DividesStops mapping (above ++ [p.key]) entries inner) (h : DividesStops mapping above rest others) :
    DividesStops mapping above (p :: rest) ((Division.enclose p.key p.quoted p.line inner).append others) := by
  have hstops := stopsUnder_of_object hv he rest
  have hkept : keptStops mapping above (p :: rest) =
      keptStops mapping (above ++ [p.key]) entries ++ keptStops mapping above rest := by
    rw [keptStops, hstops, List.filter_append]
    rfl
  have htranslated : ((Division.enclose p.key p.quoted p.line inner).append others).translated =
      (stopsUnder (inputPaths mapping) above (p :: rest)).filterMap (Site.translation? mapping) := by
    rw [hstops, List.filterMap_append, ← hin.translated, ← h.translated]
    rfl
  have hunmapped : ((Division.enclose p.key p.quoted p.line inner).append others).unmapped =
      (keptStops mapping above (p :: rest)).map Site.unmapped := by
    rw [hkept, List.map_append, ← hin.unmapped, ← h.unmapped]
    rfl
  by_cases hempty : inner.residual = []
  · -- nothing remains in the object, so no stop in it is kept
    have hleft : ((Division.enclose p.key p.quoted p.line inner).append others).residual = others.residual := by
      simp [Division.append, Division.enclose, hempty]
    have hnone : keptStops mapping (above ++ [p.key]) entries = [] := by
      rw [← hin.residual, hempty, stopsUnder_nil]
    refine ⟨htranslated, hunmapped, ?_, ?_⟩
    · rw [hleft, hkept, hnone, List.nil_append, h.residual]
    · rw [hleft]
      exact .emptied he hv (hempty ▸ hin.remains) h.remains
  · have hleft : ((Division.enclose p.key p.quoted p.line inner).append others).residual =
        { p with value := .object inner.residual } :: others.residual := by
      simp [Division.append, Division.enclose, hempty]
    refine ⟨htranslated, hunmapped, ?_, ?_⟩
    · have hsame := @stopsUnder_of_object (inputPaths mapping) above { p with value := .object inner.residual } _ rfl he
        others.residual
      rw [hleft, hsame, hin.residual, h.residual, hkept]
    · rw [hleft]
      exact .entered he hv hin.remains hempty h.remains

end DividesStops

/-- Dividing properties divides them at the stops of the walk. -/
theorem Divides.dividesStops (h : Divides mapping parent ps d) (hparent : parent = keyPath above)
    (ho : IsOpen (inputPaths mapping) above) : DividesStops mapping above ps d := by
  induction h generalizing above with
  | done => exact .done
  | translate hinput _ ih =>
    rw [hparent, ← keyPath_concat] at hinput ⊢
    exact .translate ho hinput (ih hparent ho)
  | keep hinput hu _ ih =>
    rw [hparent, ← keyPath_concat] at hinput hu ⊢
    refine .keep ho hinput ?_ (ih hparent ho)
    rintro ⟨hobject, he⟩
    obtain ⟨entries, hv⟩ := isObject_iff.1 hobject
    exact Bool.false_ne_true ((hu entries hv).symm.trans (isEntered_iff.1 he).2)
  | @enter parent p entries rest inner others hinput hv hu _ _ ih ih' =>
    rw [hparent, ← keyPath_concat] at hinput hu
    have he : IsEntered (inputPaths mapping) (keyPath (above ++ [p.key])) := isEntered_iff.2 ⟨hinput, hu⟩
    exact .enter he hv (ih (by rw [hparent, keyPath_concat]) (ho.concat he)) (ih' hparent ho)

end Division

/-- The properties of a body that do not belong to the module call. -/
def ownProperties (body : ObjectLiteral) : ObjectLiteral := body.filter fun p => ¬ (p.key = "dependsOn" ∨ p.key = "scope")

/-- The parts of a body. Properties that belong to the module call are taken as they are, and the others are divided at
the stops of the walk. -/
structure PartitionsStops (mapping : Mapping) (body : ObjectLiteral) (parts : Partition) : Prop extends
    DividesStops mapping [] (ownProperties body) parts.toDivision where
  hoisted : parts.hoisted = body.filter fun p => p.key = "dependsOn" ∨ p.key = "scope"
  /-- Paths are keys joined with points. -/
  paths : ∀ s ∈ sites [] body, s.keys.head? ≠ some "" → s.path = ".".intercalate s.keys

/-- Two keys are hoisted. -/
theorem contains_hoistedKeys (key : String) : hoistedKeys.contains key = decide (key = "dependsOn" ∨ key = "scope") := by
  simp [hoistedKeys, Bool.decide_or]

/-- The partition of a body divides its own properties by the stops of the descent. -/
theorem dividesStops_partition (mapping : Mapping) (body : ObjectLiteral) :
    DividesStops mapping [] (ownProperties body) (partition mapping body).toDivision := by
  have hdivides := divides_partition mapping body
  simp only [contains_hoistedKeys, ← decide_not] at hdivides
  exact hdivides.dividesStops rfl .nil

/-- Partitioning a body loses no property and doubles none, but for objects that are entered and in which nothing
remains. -/
theorem partitionsStops_partition (mapping : Mapping) (body : ObjectLiteral) :
    PartitionsStops mapping body (partition mapping body) :=
  { toDividesStops := dividesStops_partition mapping body
    hoisted := by simp only [partition, contains_hoistedKeys]
    paths := fun _ _ hs => keyPath_eq_intercalate hs }

end BicepMigration.Migration
