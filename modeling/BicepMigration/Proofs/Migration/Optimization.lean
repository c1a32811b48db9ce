import BicepMigration.Proofs.Migration.KeptInputs
import BicepMigration.Proofs.Migration.ScannableArtifacts

/-!
# What removing defaults does

An optimized text differs from its template in module calls from which inputs were removed, and nowhere else. Such a
call has the inputs that are left, in order; all else in it stays. None of the inputs that are left equals its default,
so removing defaults again changes nothing. The locators of the catalog must be plain, because they are not encoded.
-/

namespace BicepMigration.Migration

open Catalog Template

/-- The locators of a catalog hold no backslash, no dollar sign and no newline. -/
def PlainLocators (catalog : ModuleCatalog) : Prop := ∀ entry ∈ catalog.entries, IsPlain entry.mapping.module

/-- The locator of a mapping is plain. -/
theorem PlainLocators.mapping {catalog : ModuleCatalog} (h : PlainLocators catalog) {i : Nat} {mapping : Mapping}
    (hm : catalog.mapping? i = some mapping) : IsPlain mapping.module := by
  obtain ⟨entry, he, rfl⟩ := Option.map_eq_some_iff.1 hm
  exact h entry (List.mem_of_getElem? he)

/-- The locators of a catalog are those of its document. -/
theorem plainLocators_ofDocument {document : Document} {catalog : ModuleCatalog}
    (h : ModuleCatalog.ofDocument document = .ok catalog) (hplain : ∀ mapping ∈ document.modules, IsPlain mapping.module) :
    PlainLocators catalog := fun entry he => hplain _ (mapping_of_ofDocument h entry he).1

variable {catalog : ModuleCatalog} {template : ScannedTemplate} {plan : List PlanEntry}

/-- A plan of a catalog whose locators are plain writes module calls that can be read again. -/
theorem writable_plan {document : Document} (hd : ModuleCatalog.ofDocument document = .ok catalog)
    (hplain : PlainLocators catalog) {source : String} (h : scan source = .ok template) :
    (∀ e ∈ (analyze catalog template).plan, IsWritable e) ∧ ∀ e ∈ (analyze catalog template).plan, IsPlain e.module := by
  have hc := isChecked_ofDocument hd
  have hmodule : ∀ e ∈ (analyze catalog template).plan, IsPlain e.module ∧ '\'' ∉ e.module.toList := by
    intro e he
    obtain ⟨_, _, mapping, -, -, hj, hmodule, -⟩ := (planned_analyze catalog template).exists_judged he
    rw [hmodule]
    exact ⟨hplain.mapping hj.mapping, (tables_of_fault (hc _ _ hj.mapping)).2.2.1⟩
  refine ⟨isWritable_of_mem_plan h hc fun e he => ?_, fun e he => (hmodule e he).1⟩
  exact isReadable_of_isPlain (hmodule e he).1 (hmodule e he).2

/-- A document with a mapping that has defaults. -/
def sizedDocument : Document :=
  ⟨defaultSchemaVersion, [{ accountMapping with defaults := [("kind", .string "x"), ("sku.tier", .string "std")] }]⟩

/-- A module call with two inputs that equal their defaults and one without a default. -/
def sizedSource : String :=
  "module saModule 'br:m/a' = \x7b\n  params: \x7b\n    kind: 'x'\n    sku: \x7b\n      tier: 'std'\n    \x7d\n" ++
    "    size: 2\n  \x7d\n\x7d\n"

theorem ofDocument_sized : ModuleCatalog.ofDocument sizedDocument = .ok (catalogOf sizedDocument) :=
  ofDocument_eq (by decide +kernel)

theorem plainLocators_sized : PlainLocators (catalogOf sizedDocument) :=
  plainLocators_ofDocument ofDocument_sized (by decide +kernel)

theorem scan_account : scan accountSource = .ok (templateOf accountSource) := scan_eq (by decide +kernel)

/-- Removing defaults once more changes nothing and removes nothing. -/
theorem optimize_optimize {document : Document} (hd : ModuleCatalog.ofDocument document = .ok catalog)
    (hplain : PlainLocators catalog) {source : String} (h : scan source = .ok template) (text : String) :
    (optimize catalog (analyze catalog template).plan
        (optimize catalog (analyze catalog template).plan text).text).text =
      (optimize catalog (analyze catalog template).plan text).text ∧
    (optimize catalog (analyze catalog template).plan
        (optimize catalog (analyze catalog template).plan text).text).removed = [] := by
  have hplan := (planned_analyze catalog template).newSymbol_not_mem.2
  obtain ⟨hw, hlocators⟩ := writable_plan hd hplain h
  generalize (analyze catalog template).plan = plan at hplan hw hlocators ⊢
  cases hs : scan text with
  | error error =>
    have honce : optimize catalog plan text = ⟨⟨text, []⟩, []⟩ := by rw [optimize, hs]
    rw [honce, honce]
    exact ⟨rfl, rfl⟩
  | ok migrated =>
    obtain ⟨optimized, ho, hall⟩ := (@exists_elides catalog) hs hplan hw hlocators
    -- the walk over what is left of the inputs makes no comparison that holds
    have hnone : ∀ e ∈ plan, ∀ elision, elide? catalog optimized e = some elision →
        elision.removed = [] ∧ elision.edit = none := by
      intro e he elision helision
      obtain ⟨mapping, s', body', left, hleft⟩ := hasInputs_of_elide? helision
      obtain ⟨s, body, params, hinputs⟩ := exists_hasInputs hall hleft
      have hremoved : removedInputs catalog optimized e = [] := by
        rw [hleft.removedInputs_eq, removed_eq_of_unplaced (hinputs.left_eq he hplan hall hleft), removed_prune_kept]
      rcases hleft.elide?_eq with ⟨-, hno⟩ | ⟨elision', helision', hpaths, hedit⟩
      · rw [helision] at hno
        cases hno
      · obtain rfl := Option.some.inj (helision.symm.trans helision')
        exact ⟨by rw [hpaths, hremoved]; rfl, hedit.2 hremoved⟩
    have hedits : (plan.filterMap (elide? catalog optimized)).filterMap (·.edit) = [] := by
      refine List.filterMap_eq_nil_iff.2 fun elision hmem => ?_
      obtain ⟨e, he, helision⟩ := List.mem_filterMap.1 hmem
      exact (hnone e he elision helision).2
    have hpaths : (plan.filterMap (elide? catalog optimized)).flatMap (·.removed) = [] := by
      refine List.flatMap_eq_nil_iff.2 fun elision hmem => ?_
      obtain ⟨e, he, helision⟩ := List.mem_filterMap.1 hmem
      exact (hnone e he elision helision).1
    generalize (optimize catalog plan text).text = once at ho
    rw [optimize, ho]
    simp only [hedits, hpaths]
    exact ⟨EditedText.apply_ofEdits_nil _, trivial⟩

/-- A call with one input that equals a default: a second removal leaves its text as it is. -/
theorem optimize_optimize_sized :
    ModuleCatalog.ofDocument sizedDocument = .ok (catalogOf sizedDocument) ∧ PlainLocators (catalogOf sizedDocument) ∧
      ∃ template, scan accountSource = .ok template ∧
        (optimize (catalogOf sizedDocument) (analyze (catalogOf sizedDocument) template).plan
            (optimize (catalogOf sizedDocument) (analyze (catalogOf sizedDocument) template).plan
              sizedSource).text).text =
          (optimize (catalogOf sizedDocument) (analyze (catalogOf sizedDocument) template).plan sizedSource).text :=
  ⟨ofDocument_sized, plainLocators_sized, templateOf accountSource, scan_account,
    (optimize_optimize ofDocument_sized plainLocators_sized scan_account sizedSource).1⟩

/-- The text of an optimized template is that of the template with the edits of entries made, and nothing else. -/
theorem exists_replaced {text : String} (h : scan text = .ok template)
    (hplan : plan.Pairwise fun a b => a.newSymbol ≠ b.newSymbol) (hw : ∀ e ∈ plan, IsWritable e) :
    ∃ edits, Replaced 0 text.toList edits (optimize catalog plan text).text.toList ∧
      ∀ edit ∈ edits, ∃ e ∈ plan, elisionEdit? catalog template e = some edit := by
  obtain ⟨parts, block, l, cs, l', he⟩ := (@exists_isElision catalog) h hplan hw
  obtain ⟨-, hsource, -⟩ := exists_layout h
  have hchars := he.chars
  have hchars' := he.source
  rw [hsource] at hchars hchars'
  refine ⟨editsFrom l.start.offset cs, ?_, fun edit hmem => ?_⟩
  · rw [hchars, hchars', Layout.chars, Layout.chars, he.mark, he.lexemes, he.tail, ← he.rewrites.olds_eq]
    refine Replaced.keep ?_
    rw [Nat.zero_add]
    exact replaced_of_changes l.start.offset cs l.tail
  · have hperm := (he.rewrites.frames l.legible.forall_ne_nil).perm.mem_iff.1 hmem
    rw [useChanges_nil, editsFrom_kept, List.filter_nil, List.append_nil, ← (@mem_elisionEdits catalog) hplan
      fun e hmem edit hedit => by
        obtain ⟨s, -, -, -, -, -, -, -, -, -, -, hedit'⟩ := he.blocks e hmem edit hedit
        rw [hedit] at hedit'
        rw [Option.some.inj hedit']] at hperm
    exact List.mem_filterMap.1 hperm

/-- An edit of an entry stands for its module call, from which something is removed. -/
theorem span_of_elisionEdit? {entry : PlanEntry} {edit : Edit} (h : elisionEdit? catalog template entry = some edit) :
    removedInputs catalog template entry ≠ [] ∧
      ∃ s, template.find? .module entry.newSymbol = some s ∧ edit.span = s.span := by
  obtain ⟨s, mapping, body, params, hmapping, hfind, hbody, hparams, rfl⟩ := elisionEdit?_cases h
  have hinputs : HasInputs catalog template entry mapping s body params := ⟨hmapping, hfind, hbody, hparams⟩
  refine ⟨fun hnil => ?_, s, hfind, rfl⟩
  obtain ⟨elision, helision, hedit⟩ := Option.bind_eq_some_iff.1 h
  rcases hinputs.elide?_eq with ⟨-, hnone⟩ | ⟨elision', hsome, -, hiff⟩
  · rw [helision] at hnone
    cases hnone
  · obtain rfl := Option.some.inj (helision.symm.trans hsome)
    rw [hiff.2 hnil] at hedit
    cases hedit

/-- What becomes of a text when the defaults of a plan are removed. The inputs that equal their defaults are those of
the walks over the module calls of the plan. -/
structure RemovesDefaults (catalog : ModuleCatalog) (plan : List PlanEntry) (template optimized : ScannedTemplate)
    (removed : List (String × String)) : Prop where
  /-- The text differs only in module calls in which an input equals its default. -/
  text : ∃ edits, Replaced 0 template.source.toList edits optimized.source.toList ∧
    ∀ edit ∈ edits, ∃ e ∈ plan, removedInputs catalog template e ≠ [] ∧
      ∃ s, template.find? .module e.newSymbol = some s ∧ edit.span = s.span
  /-- What is removed is what equals its default, in the order of the plan and then of the walks. -/
  removed : removed = plan.flatMap fun e => (removedInputs catalog template e).map (e.newSymbol, ·)
  /-- Every other statement says the same. -/
  statements : List.Forall₂ (fun s s' => s'.sense = s.sense ∨ ∃ e ∈ plan, removedInputs catalog template e ≠ [] ∧
    template.find? .module e.newSymbol = some s) template.statements optimized.statements
  /-- A module call says the same with the inputs that are left, and none of these equals its default. -/
  calls : ∀ e ∈ plan, ∀ mapping s body params, HasInputs catalog template e mapping s body params →
    ∃ s' kept body' left, Prunes mapping.defaults "" params kept (removedInputs catalog template e) ∧
      s'.sense = Statement.sense
        { s with
          body := some (replaceFirst "params" (.object kept) body)
          existing := s'.existing
          looped := s'.looped } ∧
      HasInputs catalog optimized e mapping s' body' left ∧ left.unplaced = kept.unplaced ∧
      ∀ c ∈ comparisons mapping.defaults "" left, c.holds = false

/-- What is removed from a text is what equals its default in the module calls of the plan. -/
theorem removed_optimize {text : String} (h : scan text = .ok template) (plan : List PlanEntry) :
    (optimize catalog plan text).removed =
      plan.flatMap fun e => (removedInputs catalog template e).map (e.newSymbol, ·) := by
  have helisions : (optimize catalog plan text).removed =
      (plan.filterMap (elide? catalog template)).flatMap (·.removed) := by
    rw [optimize, h]
  rw [helisions]
  induction plan with
  | nil => rfl
  | cons e rest ih =>
    rw [List.flatMap_cons, ← ih (by rw [optimize, h]), ← removed_elide?, List.filterMap_cons]
    cases elide? catalog template e <;> rfl

/-- Removing defaults has exactly these effects, if the module calls of the plan have its locators. -/
theorem optimize_removes {document : Document} (hd : ModuleCatalog.ofDocument document = .ok catalog)
    (hplain : PlainLocators catalog) {source text : String} {migrated : ScannedTemplate}
    (h : scan source = .ok template) (hm : scan text = .ok migrated)
    (htarget : ∀ e ∈ (analyze catalog template).plan, ∀ s, migrated.find? .module e.newSymbol = some s →
      s.target = some e.module) :
    ∃ optimized, scan (optimize catalog (analyze catalog template).plan text).text = .ok optimized ∧
      RemovesDefaults catalog (analyze catalog template).plan migrated optimized
        (optimize catalog (analyze catalog template).plan text).removed := by
  have hplan := (planned_analyze catalog template).newSymbol_not_mem.2
  obtain ⟨hw, hlocators⟩ := writable_plan hd hplain h
  generalize (analyze catalog template).plan = plan at hplan hw hlocators htarget ⊢
  obtain ⟨optimized, ho, hall⟩ := (@exists_elides catalog) hm hplan hw hlocators
  obtain ⟨-, hsource, -⟩ := exists_layout hm
  obtain ⟨-, hsource', -⟩ := exists_layout ho
  refine ⟨optimized, ho, ?_, ?_, ?_, fun e he mapping s body params hs => ?_⟩
  · obtain ⟨edits, hreplaced, hedits⟩ := (@exists_replaced catalog) hm hplan hw
    rw [hsource, hsource']
    refine ⟨edits, hreplaced, fun edit hmem => ?_⟩
    obtain ⟨e, he, hedit⟩ := hedits edit hmem
    exact ⟨e, he, span_of_elisionEdit? hedit⟩
  · exact removed_optimize hm plan
  · rw [← List.zipIdx_map_fst 0 migrated.statements, List.forall₂_map_left_iff]
    refine hall.imp fun p s' helides => ?_
    rcases helides with ⟨-, hsense⟩ | ⟨e, he, hindex, -, -, -, -, hfind, -⟩
    · exact .inl hsense
    · obtain ⟨edit, hedit⟩ := exists_elisionEdit hindex
      exact .inr ⟨e, he, (span_of_elisionEdit? hedit).1, hfind⟩
  · obtain ⟨s', hs', htarget', hsense⟩ := hs.exists_left he hplan hall
    have hsame : s'.target = s.target := htarget'.elim id fun h => h.trans (htarget e he s hs.statement).symm
    have hbody : s'.body.map ObjectLiteral.unplaced = some (replaceFirst "params"
        (.object (prune mapping.defaults e.newSymbol "" params).kept) body).unplaced := congrArg (·.body) hsense
    obtain ⟨body', left, hleft, -, hkept⟩ := exists_params hbody (get?_replaceFirst _ hs.params)
    obtain ⟨hbody', hparams'⟩ := paramsOf?_eq_some.1 hleft
    have hprunes := @prunes_prune mapping.defaults e.newSymbol "" params
    rw [← hs.removedInputs_eq] at hprunes
    refine ⟨s', _, body', left, hprunes, ?_, ⟨hs.mapping, hs', hbody', hparams'⟩, hkept,
      not_holds_of_unplaced hkept hprunes.not_holds⟩
    rw [hsame] at hsense
    exact hsense

/-- A call with one input that equals a default loses just this one. -/
theorem optimize_removes_sized :
    ∃ template migrated, scan accountSource = .ok template ∧ scan sizedSource = .ok migrated ∧
      (∀ e ∈ (analyze (catalogOf sizedDocument) template).plan, ∀ s,
        migrated.find? .module e.newSymbol = some s → s.target = some e.module) ∧
      ∃ optimized,
        scan (optimize (catalogOf sizedDocument) (analyze (catalogOf sizedDocument) template).plan sizedSource).text =
          .ok optimized ∧
        RemovesDefaults (catalogOf sizedDocument) (analyze (catalogOf sizedDocument) template).plan migrated optimized
          (optimize (catalogOf sizedDocument) (analyze (catalogOf sizedDocument) template).plan sizedSource).removed := by
  have hm : scan sizedSource = .ok (templateOf sizedSource) := scan_eq (by decide +kernel)
  have htargets : ((analyze (catalogOf sizedDocument) (templateOf accountSource)).plan.all fun e =>
      ((templateOf sizedSource).find? .module e.newSymbol).all fun s => s.target = some e.module) = true := by
    decide +kernel
  have htarget : ∀ e ∈ (analyze (catalogOf sizedDocument) (templateOf accountSource)).plan, ∀ s,
      (templateOf sizedSource).find? .module e.newSymbol = some s → s.target = some e.module := by
    intro e he s hs
    have hall := List.all_eq_true.1 htargets e he
    rw [hs] at hall
    simpa using hall
  exact ⟨templateOf accountSource, templateOf sizedSource, scan_account, hm, htarget,
    optimize_removes ofDocument_sized plainLocators_sized scan_account hm htarget⟩

end BicepMigration.Migration
