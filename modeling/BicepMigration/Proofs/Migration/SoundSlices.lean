import BicepMigration.Migration.Validation
import BicepMigration.Proofs.Migration.BodyUses
import BicepMigration.Proofs.Migration.ElidedText
import BicepMigration.Proofs.Migration.Frame
import BicepMigration.Proofs.Template.SoundSpans

/-!
# Slices of a migration

No stage of a migration takes a slice that its text does not have, or looks for a statement or a mapping that is not
there. Reading a text does not, whether or not it succeeds; planning and transforming a template do not; and checking
and optimizing the texts that come of it do not. Main statement: this holds of every text and every catalog.
-/

namespace BicepMigration.Migration

open Catalog Template Text

variable {catalog : ModuleCatalog} {template : ScannedTemplate} {source : String}

section Check

/-- A declaration is found where a token starts. -/
theorem startsToken_of_declarationFrom {startsToken : Nat → Bool} {entry : PlanEntry} {offset seen n : Nat}
    {previous : Option Char} {cs : List Char}
    (h : declarationFrom startsToken entry offset previous seen cs = some n) : startsToken n = true := by
  induction cs generalizing offset previous seen with
  | nil => cases h
  | cons c cs ih =>
    unfold declarationFrom at h
    simp only at h
    split at h
    · exact ih h
    · split at h
      · exact ih h
      · split at h
        · exact ih h
        · split at h
          · next ht =>
            obtain rfl := Option.some.inj h
            exact ht
          · exact ih h

/-- Checking an artifact takes slices that it has: of its tokens and statements, and of the text up to a declaration
that remains. -/
structure SoundCheck (plan : List PlanEntry) (text : String) : Prop where
  /-- Reading the artifact. -/
  reading : SoundReading text
  /-- Scanning it. -/
  scanned : ∀ template, scan text = .ok template → SoundScan template
  /-- Lines and columns are counted up to a place between characters. -/
  residuals : ∀ template, scan text = .ok template → ∀ r ∈ residuals template plan, IsSpan text ⟨0, r.2⟩

/-- The checks read every text at boundaries of characters. -/
theorem soundCheck (plan : List PlanEntry) (text : String) : SoundCheck plan text where
  reading := soundReading text
  scanned _ h := soundScan h
  residuals template h r hr := by
    obtain ⟨entry, -, hd⟩ := List.mem_filterMap.1 hr
    obtain ⟨n, hn, rfl⟩ := Option.map_eq_some_iff.1 hd
    have hstart := startsToken_of_declarationFrom hn
    obtain ⟨t, ht, rfl⟩ := List.mem_map.1 (List.contains_iff_mem.1 hstart)
    have htext := (soundScan h).tokens.text t (List.mem_filter.1 ht).1
    rw [source_of_scan h] at htext
    exact isSpan_of_boundaries (isBoundary_zero _) (isSpan_of_slice? htext).start_boundary (Nat.zero_le _)

end Check

section Stages

/-- Planning and transforming a template take slices that it has, and find what the plan points at. -/
structure SoundTransform (catalog : ModuleCatalog) (template : ScannedTemplate) : Prop where
  /-- A plan entry points at a statement of the template and at a mapping of the catalog. -/
  indices : ∀ entry ∈ (analyze catalog template).plan,
    entry.statementIndex < template.statements.length ∧ entry.mappingIndex < catalog.entries.length
  /-- References are cut from the tokens. -/
  references : ∀ use ∈ (analyze catalog template).references, Cuts template.tokens use.span
  /-- Edits replace spans of the text. -/
  edits : ∀ e ∈ referenceEdits catalog (analyze catalog template) ++
    callEdits catalog template (analyze catalog template), IsSpan template.source e.span
  /-- Fragments in the module call of an entry are taken with their references repaired. -/
  fragments : ∀ entry ∈ (analyze catalog template).plan, ∀ s body mapping,
    template.statements[entry.statementIndex]? = some s → s.body = some body →
    ∀ f ∈ s.decorators ++ s.condition.toList ++
        (Value.object (moduleBody entry.newSymbol (partition mapping body))).fragments,
      (repairedText catalog template).fragment? f = some ((repairedText catalog template).fragment f)
  /-- The text is put together from slices. -/
  text : (EditedText.ofEdits template.source (referenceEdits catalog (analyze catalog template) ++
    callEdits catalog template (analyze catalog template))).applied? =
      some (transform catalog template (analyze catalog template)).text

/-- Optimizing an artifact takes slices that it has. -/
structure SoundOptimize (catalog : ModuleCatalog) (plan : List PlanEntry) (template : ScannedTemplate) : Prop where
  /-- Edits replace spans of the text. -/
  edits : ∀ e ∈ plan.filterMap (elisionEdit? catalog template), IsSpan template.source e.span
  /-- Fragments in what is left of a module call are taken as they are. -/
  fragments : ∀ entry ∈ plan, ∀ (s : Statement) (body params : ObjectLiteral) mapping,
    template.find? .module entry.newSymbol = some s → s.body = some body →
    ObjectLiteral.get? body "params" = some (.object params) →
    ∀ f ∈ (Value.object (elidedCall entry mapping s body params).body).fragments,
      (EditedText.unedited template.source).fragment? f = some ((EditedText.unedited template.source).fragment f)
  /-- The text is put together from slices. -/
  text : (EditedText.ofEdits template.source (plan.filterMap (elisionEdit? catalog template))).applied? =
    some (optimize catalog plan template.source).text

/-- The fragments of the body of a module call are the name of the module and fragments of the resource. -/
theorem mem_fragments_moduleBody {mapping : Mapping} {body : ObjectLiteral} {newSymbol : String} {f : Fragment}
    (h : f ∈ (Value.object (moduleBody newSymbol (partition mapping body))).fragments) :
    f.span = none ∨ f ∈ (Value.object body).fragments := by
  have hany := any_object_iff.1 ((mem_fragments_iff .other).1 h)
  rcases anyEntry_of_moduleBody hany with hname | hbody
  · obtain rfl := List.mem_singleton.1 hname
    exact .inl rfl
  · exact .inr ((mem_fragments_iff .other).2 (any_object_iff.2 hbody))

/-- The fragments of what is left of a module call are fragments of it. -/
theorem mem_fragments_elidedCall {entry : PlanEntry} {mapping : Mapping} {s : Statement}
    {body params : ObjectLiteral} (hp : ObjectLiteral.get? body "params" = some (.object params)) {f : Fragment}
    (h : f ∈ (Value.object (elidedCall entry mapping s body params).body).fragments) :
    f ∈ (Value.object body).fragments := by
  have hany := any_object_iff.1 ((mem_fragments_iff .other).1 h)
  refine (mem_fragments_iff .other).2 (any_object_iff.2 ?_)
  rcases anyEntry_of_replaceFirst hany with hkept | hbody
  · have hparams := (prunes_prune entry.newSymbol "" params).anyEntry_of_kept (any_object_iff.1 hkept)
    obtain ⟨p, hfind, hvalue⟩ := Option.map_eq_some_iff.1 hp
    refine ⟨p, List.mem_of_find?_eq_some hfind, ?_⟩
    rw [hvalue]
    exact any_object_iff.2 hparams
  · exact hbody

/-- A reference is repaired where it stands. -/
theorem span_of_mem_referenceEdits {analysis : Analysis} {e : Edit} (h : e ∈ referenceEdits catalog analysis) :
    ∃ use ∈ analysis.references, e.span = use.span := by
  obtain ⟨outcome, houtcome, he⟩ := List.mem_filterMap.1 h
  obtain ⟨use, huse, hrepair⟩ := List.mem_filterMap.1 houtcome
  obtain ⟨text, rfl⟩ := exists_replacement (Option.bind_eq_some_iff.2 ⟨outcome, hrepair, he⟩)
  exact ⟨use, huse, rfl⟩

/-- A module call is written in place of a statement. -/
theorem span_of_mem_callEdits {analysis : Analysis} {e : Edit} (h : e ∈ callEdits catalog template analysis) :
    ∃ s ∈ template.statements, e.span = s.span := by
  obtain ⟨entry, -, he⟩ := List.mem_filterMap.1 h
  unfold replacementEdit? at he
  obtain ⟨s, hs, he⟩ := Option.bind_eq_some_iff.1 he
  obtain ⟨body, -, he⟩ := Option.bind_eq_some_iff.1 he
  obtain ⟨mapping, -, he⟩ := Option.bind_eq_some_iff.1 he
  obtain rfl := Option.some.inj he
  exact ⟨s, List.mem_of_getElem? hs, rfl⟩

/-- The fragments of a statement are spans of the text. -/
theorem isSpan_of_mem_fragments (h : SoundScan template) {s : Statement} (hs : s ∈ template.statements)
    {f : Fragment} (hf : f ∈ s.fragments) : ∀ span, f.span = some span → IsSpan template.source span := by
  intro span hspan
  obtain ⟨span', hspan', hcuts, -⟩ := h.fragments s hs f hf
  obtain rfl := Option.some.inj (hspan.symm.trans hspan')
  exact h.spans span hcuts

/-- The migration cuts a scanned template at boundaries of characters, and its plan counts statements that are there. -/
theorem soundTransform (h : scan source = .ok template) : SoundTransform catalog template := by
  have hscan := soundScan h
  have hreferences : ∀ use ∈ (analyze catalog template).references, Cuts template.tokens use.span :=
    fun use huse => hscan.uses _ use (List.mem_filter.1 huse).1
  have hrepairs : ∀ e ∈ referenceEdits catalog (analyze catalog template), IsSpan template.source e.span := by
    intro e he
    obtain ⟨use, huse, hspan⟩ := span_of_mem_referenceEdits he
    rw [hspan]
    exact hscan.spans _ (hreferences use huse)
  have hedits : ∀ e ∈ referenceEdits catalog (analyze catalog template) ++
      callEdits catalog template (analyze catalog template), IsSpan template.source e.span := by
    intro e he
    rcases List.mem_append.1 he with he | he
    · exact hrepairs e he
    · obtain ⟨s, hs, hspan⟩ := span_of_mem_callEdits he
      rw [hspan]
      exact hscan.spans _ (hscan.statements s hs)
  refine ⟨fun entry he => ?_, hreferences, hedits, fun entry he s body mapping hs hbody f hf => ?_, ?_⟩
  · obtain ⟨s, body, mapping, -, hs, hj, -⟩ := (planned_analyze catalog template).exists_judged he
    obtain ⟨hlt, -⟩ := List.getElem?_eq_some_iff.1 hs
    obtain ⟨found, hfound, -⟩ := Option.map_eq_some_iff.1 hj.mapping
    exact ⟨hlt, (List.getElem?_eq_some_iff.1 hfound).1⟩
  · refine EditedText.fragment?_eq (fun e he => hrepairs e (EditedText.mem_ofEdits.1 he)) fun span hspan => ?_
    have hmem : f ∈ s.fragments := by
      unfold Statement.fragments
      rw [hbody]
      rw [List.mem_append] at hf ⊢
      refine hf.imp_right fun hf => (mem_fragments_moduleBody hf).resolve_left fun hnone => ?_
      rw [hnone] at hspan
      cases hspan
    exact isSpan_of_mem_fragments hscan (List.mem_of_getElem? hs) hmem span hspan
  · rw [transform_text]
    exact EditedText.applied?_eq fun e he => hedits e (EditedText.mem_ofEdits.1 he)

/-- The removal of defaults cuts a scanned template at boundaries of characters. -/
theorem soundOptimize (h : scan source = .ok template) (plan : List PlanEntry) :
    SoundOptimize catalog plan template := by
  have hscan := soundScan h
  have hedits : ∀ e ∈ plan.filterMap (elisionEdit? catalog template), IsSpan template.source e.span := by
    intro e he
    obtain ⟨entry, -, hedit⟩ := List.mem_filterMap.1 he
    obtain ⟨s, mapping, body, params, -, hs, -, -, rfl⟩ := elisionEdit?_cases hedit
    exact hscan.spans _ (hscan.statements s (ScannedTemplate.mem_of_find? hs).1)
  refine ⟨hedits, fun entry _ s body params mapping hs hbody hparams f hf => ?_, ?_⟩
  · have hmem : f ∈ s.fragments := by
      unfold Statement.fragments
      rw [hbody]
      exact List.mem_append_right _ (mem_fragments_elidedCall hparams hf)
    refine EditedText.fragment?_eq (fun e he => by cases he) ?_
    exact isSpan_of_mem_fragments hscan (ScannedTemplate.mem_of_find? hs).1 hmem
  · obtain rfl := source_of_scan h
    rw [optimize_text h]
    exact EditedText.applied?_eq fun e he => hedits e (EditedText.mem_ofEdits.1 he)

/-- All stages take slices that their texts have. -/
structure SoundStages (catalog : ModuleCatalog) (source : String) : Prop where
  /-- Reading the template, whether or not it can be scanned. -/
  reading : SoundReading source
  /-- Scanning it. -/
  scanned : ∀ template, scan source = .ok template → SoundScan template
  /-- Planning and transforming it. -/
  transformed : ∀ template, scan source = .ok template → SoundTransform catalog template
  /-- Checking the migrated template. -/
  checked : ∀ template, scan source = .ok template →
    SoundCheck (analyze catalog template).plan (transform catalog template (analyze catalog template)).text
  /-- Optimizing it, if it can be scanned. -/
  optimized : ∀ template migrated, scan source = .ok template →
    scan (transform catalog template (analyze catalog template)).text = .ok migrated →
    SoundOptimize catalog (analyze catalog template).plan migrated
  /-- Checking the optimized template. -/
  rechecked : ∀ template, scan source = .ok template →
    SoundCheck (analyze catalog template).plan (optimize catalog (analyze catalog template).plan
      (transform catalog template (analyze catalog template)).text).text

/-- No text and no catalog lets a stage take a slice that its text does not have. -/
theorem soundStages (catalog : ModuleCatalog) (source : String) : SoundStages catalog source where
  reading := soundReading source
  scanned _ h := soundScan h
  transformed _ h := soundTransform h
  checked _ _ := soundCheck ..
  optimized _ _ _ hm := soundOptimize hm _
  rechecked _ _ := soundCheck ..

/-- A template with characters of several bytes in a comment, after a backslash, and next to a hole. -/
def accentedSource : String :=
  "// é\nresource sa 'T/a@2020-01-01' = \x7b\n  n: 'ß\\é$\x7bx\x7dü'\n\x7d\noutput é string = sa.id\n"

/-- A template with characters of several bytes is read and cut. -/
theorem soundStages_accented :
    scan accentedSource = .ok (templateOf accentedSource) ∧
      ((templateOf accentedSource).tokens.map (·.span.stop)).getLast? = some accentedSource.utf8ByteSize ∧
      SoundTransform accountCatalog (templateOf accentedSource) := by
  have h : scan accentedSource = .ok (templateOf accentedSource) := scan_eq (by decide +kernel)
  exact ⟨h, by decide +kernel, (soundStages accountCatalog accentedSource).transformed _ h⟩

end Stages

end BicepMigration.Migration
