import Mathlib.Data.List.Forall2
import BicepMigration.Migration.Resolution
import BicepMigration.Proofs.Migration.RepairedText

/-!
# What the transformation replaces

The text of a migrated template is its source with some spans replaced: the statement of each plan entry by one
module call, and each reference outside these statements that can be repaired by its repair. Nothing else is
touched, nothing is replaced twice, and no two of the spans overlap. Whether the result can be read again is not
spoken about.
-/

namespace BicepMigration.Migration

open Catalog Template

/-- A use stands outside all statements of the plan. -/
def standsOutside (template : ScannedTemplate) (analysis : Analysis) (use : SymbolUse) : Bool :=
  analysis.plan.all fun entry => (template.statements[entry.statementIndex]?).all fun s =>
    use.span.stop ≤ s.span.start || s.span.stop ≤ use.span.start

/-- The edits that repair references outside the statements of the plan. -/
def outsideEdits (catalog : ModuleCatalog) (template : ScannedTemplate) (analysis : Analysis) : List Edit :=
  ((analysis.references.filter (standsOutside template analysis)).filterMap (repairEdit? catalog analysis)).filterMap
    edit?

/-- The edit puts the module call of a plan entry in place of its statement. The references in the call are
repaired. -/
def IsCallEdit (catalog : ModuleCatalog) (template : ScannedTemplate) (analysis : Analysis) (entry : PlanEntry)
    (edit : Edit) : Prop :=
  ∃ s body mapping, template.statements[entry.statementIndex]? = some s ∧ s.body = some body ∧
    catalog.mapping? entry.mappingIndex = some mapping ∧
    edit = ⟨s.span, (moduleCall (.ofEdits template.source (referenceEdits catalog analysis)) entry mapping s
      body).render (.ofEdits template.source (referenceEdits catalog analysis))⟩

/-- A mapping with one output. -/
def accountMapping : Mapping :=
  { resourceType := "T/a"
    versions := .all
    module := "br:m/a"
    description := none
    inputs := []
    outputs := [("id", "id")]
    defaults := [] }

/-- A catalog with one entry. -/
def accountCatalog : ModuleCatalog := ⟨[⟨accountMapping, .exact "t/a", .any⟩], ""⟩

/-- A template with a resource of the mapped type and a reference to it. -/
def accountSource : String := "resource sa 'T/a@2020-01-01' = \x7b\n\x7d\noutput id string = sa.id\n"

variable {catalog : ModuleCatalog} {template : ScannedTemplate}

/-- Every plan entry has its edit. -/
theorem exists_callEdit {entry : PlanEntry} (h : entry ∈ (analyze catalog template).plan) :
    ∃ edit, replacementEdit? catalog template
        (.ofEdits template.source (referenceEdits catalog (analyze catalog template))) entry = some edit ∧
      IsCallEdit catalog template (analyze catalog template) entry edit := by
  obtain ⟨s, body, mapping, -, hs, hj, -⟩ := (planned_analyze catalog template).exists_judged h
  rw [Nat.sub_zero] at hs
  refine ⟨_, ?_, s, body, mapping, hs, hj.body, hj.mapping, rfl⟩
  rw [replacementEdit?, hs]
  simp only [Option.bind_eq_bind, Option.bind_some, hj.body, hj.mapping]

/-- If all elements are mapped to related ones, so is the list. -/
theorem forall₂_filterMap {α β : Type} {f : α → Option β} {r : α → β → Prop} {xs : List α}
    (h : ∀ x ∈ xs, ∃ y, f x = some y ∧ r x y) : List.Forall₂ r xs (xs.filterMap f) := by
  induction xs with
  | nil => exact .nil
  | cons x xs ih =>
    obtain ⟨y, hy, hr⟩ := h x (by simp)
    rw [List.filterMap_cons, hy]
    exact .cons hr (ih fun z hz => h z (List.mem_cons_of_mem _ hz))

/-- An edit stands outside the edits of the plan if its span stands outside the statements of the plan. -/
theorem outside_callEdits (use : SymbolUse) (text : String) :
    outside (callEdits catalog template (analyze catalog template)) ⟨use.span, text⟩ =
      standsOutside template (analyze catalog template) use := by
  rw [Bool.eq_iff_iff]
  simp only [outside, standsOutside, List.all_eq_true, callEdits, List.mem_filterMap]
  constructor
  · intro h entry he
    obtain ⟨edit, hedit, s, body, mapping, hs, -, -, rfl⟩ := exists_callEdit he
    rw [hs]
    exact h _ ⟨entry, he, hedit⟩
  · rintro h b ⟨entry, he, hb⟩
    obtain ⟨edit, hedit, s, body, mapping, hs, -, -, rfl⟩ := exists_callEdit he
    rw [hedit] at hb
    have hout := h entry he
    rw [hs] at hout
    rw [← Option.some.inj hb]
    exact hout

/-- A repair replaces the span of the use. -/
theorem exists_replacement {analysis : Analysis} {use : SymbolUse} {e : Edit}
    (h : (repairEdit? catalog analysis use).bind edit? = some e) : ∃ text, e = ⟨use.span, text⟩ := by
  obtain ⟨outcome, houtcome, he⟩ := Option.bind_eq_some_iff.1 h
  obtain ⟨_, _, -, -, ⟨text, -, rfl⟩ | ⟨-, rfl⟩⟩ := repairEdit?_cases houtcome
  · exact ⟨text, (Option.some.inj he).symm⟩
  · cases he

/-- The edits of references outside the calls are those of the references outside. -/
theorem filter_referenceEdits :
    (referenceEdits catalog (analyze catalog template)).filter
        (outside (callEdits catalog template (analyze catalog template))) =
      outsideEdits catalog template (analyze catalog template) := by
  rw [referenceEdits, outsideEdits, List.filterMap_filterMap, List.filterMap_filterMap, List.filter_filterMap,
    List.filterMap_filter]
  refine congrArg (List.filterMap · _) (funext fun use => ?_)
  cases hr : (repairEdit? catalog (analyze catalog template) use).bind edit? with
  | none => simp
  | some e =>
    obtain ⟨text, rfl⟩ := exists_replacement hr
    simp [outside_callEdits, Option.filter]

/-- With an empty plan nothing changes. -/
theorem unchanged_of_plan_nil (catalog : ModuleCatalog) (name : String) {source : String} {template : ScannedTemplate}
    (h : scan source = .ok template) (hplan : (analyze catalog template).plan = []) :
    (resolveScanned catalog name template).transformation.text = source ∧
      (resolveScanned catalog name template).output = source := by
  have hrefs : referenceEdits catalog (analyze catalog template) = [] := by
    have hnone (use : SymbolUse) : repairEdit? catalog (analyze catalog template) use = none := by
      simp [repairEdit?, Analysis.entry?, hplan]
    simp [referenceEdits, hnone]
  have hcalls : callEdits catalog template (analyze catalog template) = [] := by
    rw [callEdits, hplan]
    rfl
  have hunchanged : (transform catalog template (analyze catalog template)).text = source := by
    obtain ⟨-, hs, -⟩ := exists_layout h
    rw [transform_text, hrefs, hcalls, ← hs]
    exact EditedText.apply_ofEdits_nil _
  refine ⟨hunchanged, ?_⟩
  have houtput : (resolveScanned catalog name template).output =
      (optimize catalog (analyze catalog template).plan source).text := by
    rw [← hunchanged]
    rfl
  rw [houtput, hplan, optimize, h]
  exact EditedText.apply_ofEdits_nil _

/-- The text of a migrated template is the source with the planned statements and the references outside them
replaced. With an empty plan nothing changes. -/
theorem transform_replaces (catalog : ModuleCatalog) (name : String) {source : String} {template : ScannedTemplate}
    (h : scan source = .ok template) :
    (∃ calls edits, List.Forall₂ (IsCallEdit catalog template (analyze catalog template))
        (analyze catalog template).plan calls ∧
      edits.Perm (calls ++ outsideEdits catalog template (analyze catalog template)) ∧
      Replaced 0 source.toList edits
        (resolveScanned catalog name template).transformation.text.toList) ∧
    ((analyze catalog template).plan = [] →
      (resolveScanned catalog name template).transformation.text = source ∧
        (resolveScanned catalog name template).output = source) := by
  have htext : (resolveScanned catalog name template).transformation.text =
      (transform catalog template (analyze catalog template)).text := rfl
  obtain ⟨block, hblock⟩ := exists_block catalog template
  obtain ⟨l, cs, hm⟩ := exists_migrates h block hblock
  have hsource : source.toList = l.mark ++ (written (olds cs) ++ l.tail) := by
    obtain ⟨-, hs, -⟩ := exists_layout h
    rw [← hs, hm.source, hm.rewrites.olds_eq]
    rfl
  constructor
  · refine ⟨callEdits catalog template (analyze catalog template), editsFrom l.start.offset cs,
      forall₂_filterMap fun e he => exists_callEdit he, ?_, ?_⟩
    · rw [← filter_referenceEdits]
      exact hm.frames.perm
    · rw [htext, hm.text, hsource]
      refine Replaced.keep ?_
      rw [Nat.zero_add]
      exact replaced_of_changes l.start.offset cs l.tail
  · exact unchanged_of_plan_nil catalog name h

/-- The template that is scanned from a source, if it can be. -/
def templateOf (source : String) : ScannedTemplate := (scan source).toOption.getD ⟨source, [], []⟩

/-- A template that can be scanned is known by its text. -/
theorem scan_eq {source : String} (h : (scan source).isOk = true) : scan source = .ok (templateOf source) := by
  unfold templateOf
  cases hs : scan source with
  | error e =>
    rw [hs] at h
    cases h
  | ok template => rfl

/-- The template of a text is what its scan gives. -/
theorem templateOf_eq {source : String} {template : ScannedTemplate} (h : scan source = .ok template) :
    templateOf source = template := by
  rw [templateOf, h]
  rfl

/-- A template with a statement was scanned. -/
theorem scan_of_mem_templateOf {source : String} {s : Statement} (hs : s ∈ (templateOf source).statements) :
    scan source = .ok (templateOf source) := by
  unfold templateOf at hs ⊢
  cases h : scan source with
  | error e =>
    rw [h] at hs
    cases hs
  | ok template => rfl

theorem transform_replaces_account :
    ∃ template, scan accountSource = .ok template ∧
      (∃ calls edits, List.Forall₂ (IsCallEdit accountCatalog template (analyze accountCatalog template))
          (analyze accountCatalog template).plan calls ∧
        edits.Perm (calls ++ outsideEdits accountCatalog template (analyze accountCatalog template)) ∧
        Replaced 0 accountSource.toList edits
          (resolveScanned accountCatalog "main" template).transformation.text.toList) := by
  have h : scan accountSource = .ok (templateOf accountSource) := scan_eq (by decide +kernel)
  exact ⟨templateOf accountSource, h, (transform_replaces accountCatalog "main" h).1⟩

end BicepMigration.Migration
