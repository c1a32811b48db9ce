import BicepMigration.Migration.Plan
import BicepMigration.Proofs.Migration.Divided
import BicepMigration.Proofs.Template.SeenStatements

/-!
# What a plan is made from

A plan is made from the symbols, targets and lines of statements, and from the keys and lines of the properties of their
bodies. The text of a value is not looked at, nor are spans. Main statement: statements that are seen alike without these
get the same plan.
-/

namespace BicepMigration.Migration

open Catalog Template

variable {aspect : Aspect} {mapping : Mapping} {catalog : ModuleCatalog}

/-- Without texts and spans, and on the same lines, properties get the same inputs, and the same ones of them stay. -/
theorem divide_seen (hline : ∀ n, aspect.line n = n) (parent : String) (ps : ObjectLiteral) :
    (divide mapping parent (ps.map (Property.seen aspect))).translated.map (fun t => (t.path, t.input)) =
        (divide mapping parent ps).translated.map (fun t => (t.path, t.input)) ∧
      (divide mapping parent (ps.map (Property.seen aspect))).unmapped = (divide mapping parent ps).unmapped := by
  induction parent, ps using walk_induction mapping.inputs with
  | done parent => exact ⟨rfl, rfl⟩
  | found parent p rest input hinput ih =>
    rw [List.map_cons, divide_of_input (p := p.seen aspect) hinput, divide_of_input hinput]
    simp only [Division.append, Division.translate, Property.seen_key, List.map_append, List.map_cons, ih.1, ih.2,
      and_self]
  | enter parent p entries rest hinput hv hu ih ih' =>
    have hv' : (p.seen aspect).value = .object (entries.map (Property.seen aspect)) := by
      rw [Property.seen, hv, Value.seen, Value.seenEntries_eq_map]
    rw [List.map_cons, divide_of_object (p := p.seen aspect) hinput hv' hu, divide_of_object hinput hv hu]
    simp only [Division.append, Division.enclose, Property.seen_key, List.map_append, ih.1, ih.2, ih'.1, ih'.2, and_self]
  | pass parent p rest hinput hu ih =>
    have hu' (entries : ObjectLiteral) (h : (p.seen aspect).value = .object entries) :
        mapping.hasInputsUnder (childPath parent p.key) = false := by
      cases hv : p.value with
      | object entries => exact hu entries hv
      | _ => simp [Property.seen, hv, Value.seen] at h
    have hplace : (p.seen aspect).line = p.line := hline p.line
    rw [List.map_cons, divide_of_keep (p := p.seen aspect) hinput hu', divide_of_keep hinput hu]
    simp only [Division.append, Division.keep, Property.seen_key, List.map_append, ih.1, ih.2, hplace, and_self]

/-- A body is split in the same way. -/
theorem partition_seen (hline : ∀ n, aspect.line n = n) (body : ObjectLiteral) :
    (partition mapping (Value.seenEntries aspect body)).translated.map (fun t => (t.path, t.input)) =
        (partition mapping body).translated.map (fun t => (t.path, t.input)) ∧
      (partition mapping (Value.seenEntries aspect body)).unmapped = (partition mapping body).unmapped := by
  unfold partition
  rw [Value.seenEntries_eq_map, List.filter_map]
  exact divide_seen hline "" _

/-- What a catalog makes of a statement, with the body under an aspect. -/
def Verdict.seen (aspect : Aspect) : Verdict → Verdict
  | .replaced symbol type version body index mapping =>
    .replaced symbol type version (Value.seenEntries aspect body) index mapping
  | verdict => verdict

/-- What becomes of a statement does not depend on the aspect under which it is seen, if lines stay. -/
theorem judge_seen (hline : ∀ n, aspect.line n = n) (catalog : ModuleCatalog) (s : Statement) :
    judge catalog (s.seen aspect) = (judge catalog s).seen aspect := by
  have hhead : resourceHead? (s.seen aspect) = resourceHead? s := rfl
  have hexisting : (s.seen aspect).existing = s.existing := rfl
  have hlooped : (s.seen aspect).looped = s.looped := rfl
  have hbody : (s.seen aspect).body = s.body.map (Value.seenEntries aspect) := rfl
  have hplace : (s.seen aspect).line = s.line := hline s.line
  unfold judge
  simp only [hhead, hexisting, hlooped, hbody, hplace]
  cases resourceHead? s with
  | none => rfl
  | some head =>
    simp only
    cases catalog.findIndex? head.2.1 head.2.2 with
    | none => rfl
    | some index =>
      simp only
      cases s.existing <;> cases s.looped <;> cases s.body <;> cases catalog.mapping? index <;> rfl

/-- The plan of statements is that of the statements without texts and spans. -/
theorem planFrom_seen (hline : ∀ n, aspect.line n = n) (taken : List String) (index : Nat) (ss : List Statement) :
    planFrom catalog taken index (ss.map (Statement.seen aspect)) = planFrom catalog taken index ss := by
  induction ss generalizing taken index with
  | nil => rfl
  | cons s ss ih =>
    simp only [List.map_cons, planFrom, judge_seen hline]
    cases judge catalog s with
    | untouched => exact ih taken (index + 1)
    | passedThrough warning => simp only [Verdict.seen, ih]
    | replaced symbol type version body mappingIndex mapping =>
      obtain ⟨htranslated, hunmapped⟩ := @partition_seen aspect mapping hline body
      simp only [Verdict.seen, ih, htranslated, hunmapped]

/-- Statements that are seen alike have the same plan, if lines are looked at. -/
theorem planFrom_eq_of_seen {aspect' : Aspect} (hline : ∀ n, aspect.line n = n) (hline' : ∀ n, aspect'.line n = n)
    {ss ss' : List Statement} (h : ss'.map (Statement.seen aspect') = ss.map (Statement.seen aspect)) :
    planFrom catalog (ss'.filterMap (·.symbol)) 0 ss' = planFrom catalog (ss.filterMap (·.symbol)) 0 ss := by
  have hsymbols (aspect : Aspect) (ss : List Statement) :
      (ss.map (Statement.seen aspect)).filterMap (·.symbol) = ss.filterMap (·.symbol) := by
    rw [List.filterMap_map]
    rfl
  rw [← planFrom_seen hline', ← hsymbols aspect', h, hsymbols, planFrom_seen hline]

end BicepMigration.Migration
