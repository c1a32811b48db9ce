import Mathlib.Tactic.MkIffOfInductiveProp
import BicepMigration.Proofs.Migration.CompleteRepair

/-!
# Errors are counted

A summary counts what the check of the optimized text finds. A reference that cannot be repaired is left as it stands, so
the check should find it again. It does not if the reference is lost on the way: the module call does not take over a
decorator that it stands in, or not the property. Main statement: if nothing that is left of the uses is lost, then a
result with an error of the transformation has an error in its summary.
-/

namespace BicepMigration.Template

open Text

variable {strict : Bool} {source : String} {l : Layout} {symbols : List String} {replace : Replacements}

/-- What is used in the text that is written for a decorator is a use in the decorator that stays. -/
theorem Replacing.exists_use_of_decorator (h : Replacing strict source l symbols replace) {ss : List Statement}
    (hp : Pieces source l.start l.lexemes ss) {s : Statement} (hs : s ∈ ss) {f : Fragment} (hf : f ∈ s.decorators)
    (hu : TextUses strict symbols .key ((replacedText source l symbols replace).fragment f)) :
    ∃ use ∈ findUses symbols l.tokens, replace use = none ∧ f.span.any (·.contains use.span.start) = true := by
  obtain ⟨x, first, body, rest, hls, hpiece, hb⟩ := hp.exists_piece l.balanced hs
  have hds : s.decorators = (readDecorators source
      (tokensAt (l.start.advance (written x)) (first :: (body ++ rest)))).1 :=
    (congrArg (·.1.decorators) hpiece.reads).symm
  rw [hds] at hf
  obtain ⟨a, t, ts, b, htoks, rfl, ht, hline, -, hafter⟩ := exists_line_of_mem (by rw [kinds_tokensAt]; exact hb) hf
  have hall : l.tokens = (a.reverse ++ (tokensAt l.start x).reverse).reverse ++ (t :: ts ++ b) := by
    rw [Layout.tokens, hls, tokensAt_append, htoks]
    simp
  obtain ⟨c, u, d, hplace, hk⟩ := ((h.textUses_line_iff ht hall hline hafter).1 hu).exists_place
  obtain ⟨use, huse, hnone⟩ := hk.exists_use
  refine ⟨use, mem_usesFrom_iff.2 ?_, hnone, ?_⟩
  · rw [hall, hplace, List.append_assoc, List.cons_append, ← List.append_assoc]
    refine .of_place ?_
    simpa using huse
  · -- the token of the use is one of those of the decorator, which are written in its span
    obtain ⟨y, z, hyz, -, hz⟩ := tokensAt_eq_append htoks
    obtain ⟨line, others, rfl, hrun, -⟩ := tokensAt_eq_append hz.symm
    obtain ⟨m, ms, rfl, rfl, rfl⟩ := tokensAt_eq_cons hrun.symm
    have hne : ∀ n ∈ m :: ms, n.text ≠ [] := fun n hn => l.legible.forall_ne_nil n (by
      rw [hls, hyz]
      simp only [List.mem_append]
      exact .inr (.inr (.inl hn)))
    have hu : u ∈ tokensAt ((l.start.advance (written x)).advance (written y)) (m :: ms) := by
      rw [tokensAt, hplace]
      simp
    have hstart : use.span.start = u.span.start := by
      obtain ⟨-, -, -, rfl⟩ := useAt?_eq_some_iff.1 huse
      rfl
    have hspan := contains_start_tokensAt hne _ u hu
    rw [hstart]
    simp only [Fragment.ofTokens, Option.any_some]
    rw [stop_getLast_tokensAt]
    simpa [runSpan, Cursor.advance_offset] using hspan

end BicepMigration.Template

namespace BicepMigration.Migration

open Catalog Template Text

variable {catalog : ModuleCatalog} {template : ScannedTemplate}

section Layouts

variable {source : String} {l : Layout}

/-- The tokens of a template are those of any layout of its text. -/
theorem tokens_of_layout (h : scan source = .ok template) (hl : source.toList = l.chars) :
    template.tokens = l.tokens := by
  rw [scan_of_layout hl] at h
  rw [← Except.ok.inj h]

/-- The statements of a template are read from any layout of its text. -/
theorem pieces_of_layout (h : scan source = .ok template) (hl : source.toList = l.chars) :
    Pieces source l.start l.lexemes template.statements := by
  rw [scan_of_layout hl] at h
  rw [← Except.ok.inj h]
  exact pieces_readStatements source l.balanced

end Layouts

section Reports

/-- Planning reports no errors. -/
theorem severity_analyze (catalog : ModuleCatalog) (template : ScannedTemplate) :
    ∀ d ∈ (analyze catalog template).diagnostics, d.severity = .warning :=
  fun d hd => (isPlanWarning_analyze catalog template d hd).severity_eq

/-- A use that the transformation reports is not repaired. -/
theorem exists_use_of_transform {d : Diagnostic}
    (h : d ∈ (transform catalog template (analyze catalog template)).diagnostics) :
    ∃ use ∈ findUses (plannedSymbols catalog template) template.tokens, repair catalog template use = none := by
  obtain ⟨outcome, houtcome, hd⟩ := List.mem_filterMap.1 h
  obtain ⟨use, huse, hrepair⟩ := List.mem_filterMap.1 houtcome
  obtain ⟨hfound, hdeclares⟩ : use ∈ findUses (plannedSymbols catalog template) template.tokens ∧
      (!(analyze catalog template).plan.any fun e => e.declares template.statements use) = true :=
    List.mem_filter.1 huse
  rw [Bool.not_eq_true'] at hdeclares
  refine ⟨use, hfound, ?_⟩
  obtain ⟨e, mapping, he, hmapping, ⟨text, -, rfl⟩ | ⟨hnone, -⟩⟩ := repairEdit?_cases hrepair
  · cases hd
  · rw [repair?_eq, Option.map_eq_none_iff] at hnone
    rw [repair, repairLexemes?, hdeclares, if_neg Bool.false_ne_true]
    simp [he, hmapping, hnone]

/-- The check of a text in which a planned symbol is used finds an error. -/
theorem exists_error_of_findUses {plan : List PlanEntry} {text : String} (h : scan text = .ok template)
    (hu : findUses (plan.map (·.symbol)) template.tokens ≠ []) :
    ∃ d ∈ (validate plan text).diagnostics, d.severity = .error := by
  rw [validate, h]
  cases hr : residuals template plan with
  | nil =>
    have hall : ((plan.map (·.symbol)).filter fun symbol =>
        !(residuals template plan).any (·.1.symbol = symbol)) = plan.map (·.symbol) := by simp [hr]
    obtain ⟨use, others, huses⟩ := List.exists_cons_of_ne_nil hu
    refine ⟨danglingError use, List.mem_append_right _ (List.mem_map_of_mem ?_), rfl⟩
    rw [hall, huses]
    exact List.mem_cons_self
  | cons r others =>
    refine ⟨residualError template r.1 r.2, List.mem_append_left _ (List.mem_append_left _ ?_), rfl⟩
    rw [hr]
    exact List.mem_cons_self

/-- A report with an error counts it. -/
theorem errors_pos {report : Report} {d : Diagnostic} (h : d ∈ report.diagnostics) (hs : d.severity = .error) :
    0 < report.errors :=
  List.countP_pos_iff.2 ⟨d, h, by simp [hs]⟩

end Reports

/-- What keeps a use that is not repaired until the optimized text is checked. -/
@[mk_iff]
structure KeepsUses (catalog : ModuleCatalog) (template : ScannedTemplate) : Prop where
  /-- No planned symbol is a word that declarations and literals are written with. -/
  words : ∀ word ∈ callWords, word ∉ plannedSymbols catalog template
  /-- None follows a member directly. -/
  members : anyTriple (followsMember (fun _ => true) (plannedSymbols catalog template)) template.tokens = false
  /-- None stands between an opening bracket and a colon. -/
  keys : anyTriple (opensKey (plannedSymbols catalog template)) template.tokens = false
  /-- None is used, and not repaired, in a decorator of a planned resource that its module call does not take over. -/
  decorators : ∀ use ∈ findUses (plannedSymbols catalog template) template.tokens,
    repair catalog template use = none → ∀ e ∈ (analyze catalog template).plan,
      ∀ s ∈ template.statements[e.statementIndex]?, ∀ f ∈ s.decorators, isCarried f = false →
        f.span.any (·.contains use.span.start) = false
  /-- No property that belongs to a module call itself is repeated. -/
  hoisted : ∀ e ∈ (analyze catalog template).plan, ∀ s ∈ template.statements[e.statementIndex]?, ∀ body ∈ s.body,
    ((hoistedOf body).map (·.key)).Nodup

instance : Decidable (KeepsUses catalog template) := decidable_of_iff _ (keepsUses_iff catalog template).symm

/-- A use that is not repaired is found again in the optimized text. -/
theorem KeepsUses.findUses_ne_nil {document : Document} (hk : KeepsUses catalog template)
    (hd : ModuleCatalog.ofDocument document = .ok catalog) {source : String} (h : scan source = .ok template)
    (hr : ReadableLocators catalog template) {use : SymbolUse}
    (hu : use ∈ findUses (plannedSymbols catalog template) template.tokens) (hnone : repair catalog template use = none)
    {text : String} (ht : (transform catalog template (analyze catalog template)).text = text)
    {migrated optimized : ScannedTemplate} (hmigrated : scan text = .ok migrated)
    (hoptimized : scan (optimize catalog (analyze catalog template).plan text).text = .ok optimized) :
    findUses (plannedSymbols catalog template) optimized.tokens ≠ [] := by
  have hc := isChecked_ofDocument hd
  obtain ⟨parts, block, l, cs, l', hm⟩ := exists_isMigration h hc hr
  have hreplacing : Replacing true template.source l (plannedSymbols catalog template) (repair catalog template) := by
    refine replacing_repair hc hm.migrates.source hm.migrates.tokens hk.words ?_ (.inl rfl)
    refine sparesNext_useChanges (fun use r hr hp => dependsOn_of_repair hr hp) ?_
    intro before point name t after htokens hp hn ht hmem
    have hfalse := eq_false_of_anyTriple hk.members (hm.migrates.tokens.trans htokens)
    simp [followsMember, hp, hn, ht, hmem] at hfalse
  have hpieces := pieces_of_layout (source_of_scan h ▸ h) hm.migrates.source
  have hleft := hm.hasUse_of_occurs hreplacing (fun e he s hs f hf hcarried hused => by
    obtain ⟨use, huse, hstays, hspan⟩ := hreplacing.exists_use_of_decorator hpieces (List.mem_of_getElem? hs) hf hused
    rw [← hm.migrates.tokens] at huse
    rw [hk.decorators use huse hstays e he s hs f hf hcarried] at hspan
    cases hspan) (fun e he s body hs hbody => hk.hoisted e he s hs body hbody)
    (occurs_keptUse hk.keys hu hnone)
  obtain ⟨parts', block', k, cs', k', he, -, huses⟩ :=
    exists_elision_uses (isWritable_of_mem_plan h hc hr) hmigrated hoptimized
  -- both layouts of the migrated text have its tokens
  have hchars := hm.chars
  rw [ht] at hchars
  rw [hasUse_lexemes_iff, ← tokens_of_layout hmigrated hchars, he.tokens, ← hasUse_lexemes_iff] at hleft
  refine fun hnil => (huses _).1 hnil ?_
  exact (he.hasUse_optimized hmigrated hk.words hleft).of_strict fun _ => id

/-- No unresolved reference goes uncounted: if the transformation of a template reports an error then the summary counts
one. The locators of the plan must be readable, and what is left of the uses must be kept. -/
theorem unresolved_counted {document : Document} (hd : ModuleCatalog.ofDocument document = .ok catalog)
    {source : String} (h : scan source = .ok template) (hr : ReadableLocators catalog template)
    (hk : KeepsUses catalog template) {name : String} {r : Resolution} (hres : resolve catalog name source = .ok r)
    {d : Diagnostic} (hmem : d ∈ r.transformation.diagnostics) (hs : d.severity = .error) : 0 < r.errors := by
  rw [resolve, h] at hres
  obtain rfl := Except.ok.inj hres
  rcases List.mem_append.1 hmem with hmem | hmem
  · cases (severity_analyze catalog template d hmem).symm.trans hs
  · obtain ⟨use, hu, hnone⟩ := exists_use_of_transform hmem
    obtain ⟨migrated, hmigrated⟩ := scan_transform h (isChecked_ofDocument hd) hr
    obtain ⟨optimized, hoptimized⟩ := scan_optimize h (isChecked_ofDocument hd) hr hmigrated
    obtain ⟨d', hd', hs'⟩ := exists_error_of_findUses hoptimized
      (hk.findUses_ne_nil hd h hr hu hnone rfl hmigrated hoptimized)
    exact errors_pos (List.mem_append_left _ (List.mem_append_right _ hd')) hs'

/-- A template in which a resource without an output is used in the condition and the body of another one. -/
def unresolvedSource : String :=
  "resource sa 'T/a@2020-01-01' = \x7b\n\x7d\n@description('kv')\nresource kv 'T/a@2020-01-01' = if (sa.kind == 'p') \x7b\n" ++
    "  tier: sa\n\x7d\n"

theorem unresolved_counted_twice :
    ModuleCatalog.ofDocument accountDocument = .ok (catalogOf accountDocument) ∧
      scan unresolvedSource = .ok (templateOf unresolvedSource) ∧
      ReadableLocators (catalogOf accountDocument) (templateOf unresolvedSource) ∧
      KeepsUses (catalogOf accountDocument) (templateOf unresolvedSource) ∧
      ∃ r, resolve (catalogOf accountDocument) "main" unresolvedSource = .ok r ∧
        (∃ d ∈ r.transformation.diagnostics, d.severity = .error) ∧ 0 < r.errors := by
  have hd : ModuleCatalog.ofDocument accountDocument = .ok (catalogOf accountDocument) :=
    ofDocument_eq (by decide +kernel)
  have h : scan unresolvedSource = .ok (templateOf unresolvedSource) := scan_eq (by decide +kernel)
  have hr : ReadableLocators (catalogOf accountDocument) (templateOf unresolvedSource) := fun e he =>
    ((writable_plan hd (plainLocators_ofDocument hd (by decide +kernel)) h).1 e he).readable
  obtain ⟨hk, d, hmem, hs⟩ : KeepsUses (catalogOf accountDocument) (templateOf unresolvedSource) ∧
      ∃ d ∈ (transform (catalogOf accountDocument) (templateOf unresolvedSource)
        (analyze (catalogOf accountDocument) (templateOf unresolvedSource))).diagnostics, d.severity = .error := by
    decide +kernel
  have hres : resolve (catalogOf accountDocument) "main" unresolvedSource =
      .ok (resolveScanned (catalogOf accountDocument) "main" (templateOf unresolvedSource)) := by
    rw [resolve, h]
    rfl
  have hmem' : d ∈ (resolveScanned (catalogOf accountDocument) "main"
      (templateOf unresolvedSource)).transformation.diagnostics := List.mem_append_right _ hmem
  exact ⟨hd, h, hr, hk, _, hres, ⟨d, hmem', hs⟩, unresolved_counted hd h hr hk hres hmem' hs⟩

/-- Without defaults nothing is optimized. -/
theorem optimize_of_noDefaults {plan : List PlanEntry}
    (h : ∀ e ∈ plan, (catalog.mapping? e.mappingIndex).all (·.defaults.isEmpty) = true)
    (text : String) : (optimize catalog plan text).text = text ∧ (optimize catalog plan text).diagnostics = [] := by
  unfold optimize
  split
  · exact ⟨rfl, rfl⟩
  · have hnone : plan.filterMap (elide? catalog ‹_›) = [] := List.filterMap_eq_nil_iff.2 fun e he => by
      rw [elide?]
      have hnone := h e he
      cases hm : catalog.mapping? e.mappingIndex with
      | none => rfl
      | some mapping =>
        rw [hm, Option.all_some] at hnone
        simp only [Option.bind_eq_bind, Option.bind_some, if_pos hnone]
        rfl
    rw [hnone]
    exact ⟨EditedText.apply_ofEdits_nil text, rfl⟩

/-- A template in which a resource is used in a decorator that module calls do not take over. -/
def lostSource : String :=
  "resource sb 'T/a@2020-01-01' = \x7b\n\x7d\n@metadata(sb)\nresource sa 'T/a@2020-01-01' = \x7b\n\x7d\n"

/-- A reference in a decorator is lost with it: the transformation reports an error, and the summary counts none. -/
theorem unresolved_lost :
    ModuleCatalog.ofDocument accountDocument = .ok (catalogOf accountDocument) ∧
      scan lostSource = .ok (templateOf lostSource) ∧
      ∃ r, resolve (catalogOf accountDocument) "main" lostSource = .ok r ∧
        (∃ d ∈ r.transformation.diagnostics, d.severity = .error ∧ d.code = .referenceResolution) ∧ r.errors = 0 := by
  have h : scan lostSource = .ok (templateOf lostSource) := scan_eq (by decide +kernel)
  obtain ⟨hbodies, hdefaults, hedits, d, hmem, hs⟩ : EmptyBodies (templateOf lostSource) ∧
      (∀ e ∈ (analyze (catalogOf accountDocument) (templateOf lostSource)).plan,
        ((catalogOf accountDocument).mapping? e.mappingIndex).all (·.defaults.isEmpty) = true) ∧
      (referenceEdits (catalogOf accountDocument) (analyze (catalogOf accountDocument) (templateOf lostSource)) ++
        (analyze (catalogOf accountDocument) (templateOf lostSource)).plan.filterMap (emptyEdit?
          (catalogOf accountDocument) (templateOf lostSource) (.ofEdits (templateOf lostSource).source
            (referenceEdits (catalogOf accountDocument)
              (analyze (catalogOf accountDocument) (templateOf lostSource)))))).Pairwise
        (fun a b => a.precedes b = true) ∧
      ∃ d ∈ (transform (catalogOf accountDocument) (templateOf lostSource)
        (analyze (catalogOf accountDocument) (templateOf lostSource))).diagnostics,
        d.severity = .error ∧ d.code = .referenceResolution := by
    decide +kernel
  refine ⟨ofDocument_eq (by decide +kernel), h, _, by rw [resolve, h]; rfl, ⟨d, List.mem_append_right _ hmem, hs⟩, ?_⟩
  obtain ⟨htext, hdiagnostics⟩ := optimize_of_noDefaults hdefaults (transform (catalogOf accountDocument)
    (templateOf lostSource) (analyze (catalogOf accountDocument) (templateOf lostSource))).text
  change Report.count ⟨_ ++ (validate _ (optimize _ _ (transform _ _ _).text).text).diagnostics ++
    (optimize _ _ (transform _ _ _).text).diagnostics⟩ .error = 0
  rw [htext, hdiagnostics, List.append_nil, Report.count_append, transform_of_emptyBodies hbodies,
    EditedText.ofEdits_of_pairwise hedits, Nat.add_eq_zero_iff]
  refine ⟨List.countP_eq_zero.2 fun d hd => ?_, by decide +kernel⟩
  simp [severity_analyze _ _ d hd]

end BicepMigration.Migration
