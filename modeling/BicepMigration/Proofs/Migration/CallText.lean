import BicepMigration.Proofs.Migration.Bodies
import BicepMigration.Proofs.Template.FragmentText
import BicepMigration.Proofs.Template.Locator

/-!
# Module calls of a plan as lexemes

The module call of a plan entry is written with lexemes that can be read in place of the resource, if its locator can
be read between quotes. Its fragments are those of the resource, with the references in them repaired.
-/

namespace BicepMigration.Migration

open Catalog Template Text

/-- Something with a property can be chosen wherever there is something. -/
theorem exists_choice {α β : Type} [Inhabited β] (r : α → β → Prop) :
    ∃ g : α → β, ∀ a, (∃ b, r a b) → r a (g a) := by
  have h (a : α) : ∃ b, (∃ b', r a b') → r a b := by
    by_cases hb : ∃ b, r a b
    · obtain ⟨b, hb⟩ := hb
      exact ⟨b, fun _ => hb⟩
    · exact ⟨default, fun h => absurd h hb⟩
  exact ⟨fun a => (h a).choose, fun a => (h a).choose_spec⟩

variable {catalog : ModuleCatalog} {template : ScannedTemplate} {l : Layout}

/-- The template with the edits that repair its references. -/
abbrev repairedText (catalog : ModuleCatalog) (template : ScannedTemplate) : EditedText :=
  .ofEdits template.source (referenceEdits catalog (analyze catalog template))

/-- The changes that repair the references of a template. -/
abbrev repairs (catalog : ModuleCatalog) (template : ScannedTemplate) (l : Layout) : List Change :=
  useChanges ((analyze catalog template).plan.map (·.symbol))
    (repairLexemes? catalog template.statements (analyze catalog template)) [] l.start l.lexemes

/-- The edits of references are those that exchange the lexemes of uses. -/
theorem referenceEdits_eq (ht : template.tokens = l.tokens) :
    referenceEdits catalog (analyze catalog template) = editsFrom l.start.offset (repairs catalog template l) := by
  rw [editsFrom_useChanges, referenceEdits_analyze, ht]
  rfl

/-- What is written for the fragments of a template is the text of their lexemes, with names renamed. -/
def Renders (write : Fragment → String) (template : ScannedTemplate) : Prop :=
  ∀ form f, IsCut template.source template.tokens form f →
    ∃ cs, olds cs ≠ [] ∧ form ((olds cs).map (·.kind)) ∧ Legible (olds cs) ['\n'] ∧ (∀ c ∈ cs, c.Renames) ∧
      (write f).toList = bare (news cs)

/-- Fragments are written with their references repaired. -/
theorem renders_repairedText (hc : IsChecked catalog) (hs : template.source.toList = l.chars)
    (ht : template.tokens = l.tokens) : Renders (repairedText catalog template).fragment template := by
  intro form f h
  rw [ht] at h
  obtain ⟨x, first, others, y, hf, hform⟩ := exists_isFragment hs h
  obtain ⟨left, cs, right, holds, hall, -, htext⟩ := @IsFragment.exists_changes _ _ hs
    ((analyze catalog template).plan.map (·.symbol))
    (repairLexemes? catalog template.statements (analyze catalog template)) _ _ _ _ _ hf
  refine ⟨cs, by rw [holds]; simp, by rw [holds]; exact hform, by rw [holds]; exact hf.legible, fun c hcs => ?_, ?_⟩
  · exact renames_useChanges hc l.legible.forall_spelled c (by rw [hall]; simp [hcs])
  · rw [repairedText, referenceEdits_eq ht]
    exact htext

/-- Fragments are written as they stand in the template. -/
theorem renders_raw (hs : template.source.toList = l.chars) (ht : template.tokens = l.tokens) :
    Renders (·.raw) template := by
  intro form f h
  rw [ht] at h
  obtain ⟨x, first, others, y, hf, hform⟩ := exists_isFragment hs h
  refine ⟨kept (first :: others), by simp [olds_kept], by rwa [olds_kept], by rw [olds_kept]; exact hf.legible,
    fun c hcs => ?_, by rw [news_kept]; exact hf.raw⟩
  obtain ⟨m, -, rfl⟩ := List.mem_map.1 hcs
  trivial

/-- Without edits a fragment is written as it stands in the template. -/
theorem fragment_unedited {form : List TokenKind → Prop} {f : Fragment}
    (h : IsCut template.source template.tokens form f) :
    (EditedText.unedited template.source).fragment f = f.raw := by
  obtain ⟨first, others, rfl, -⟩ := h
  rfl

section Parts

variable {write : Fragment → String} {form : List TokenKind → Prop} {f : Fragment}

/-- A scalar is written as an element. -/
theorem Renders.exists_leaf (hw : Renders write template) (h : IsCut template.source template.tokens IsElement f) :
    ∃ ls, IsLeaf (write f) ls := by
  obtain ⟨cs, hne, hform, hl, hr, htext⟩ := hw _ _ h
  exact ⟨news cs, Element.news ⟨⟨hne, hform.balanced, hl⟩, hform.unbroken⟩ hr, htext⟩

/-- A condition is written as a part. -/
theorem Renders.exists_condition (hw : Renders write template)
    (h : IsCut template.source template.tokens Balanced f) : ∃ ls, Part ls ∧ (write f).toList = bare ls := by
  obtain ⟨cs, hne, hform, hl, hr, htext⟩ := hw _ _ h
  exact ⟨news cs, Part.news ⟨hne, hform, hl⟩ hr, htext⟩

/-- A decorator is written as a line. -/
theorem Renders.exists_decorator (hw : Renders write template)
    (h : IsCut template.source template.tokens IsDecorator f) : ∃ ls, IsDecoratorLine (write f) ls := by
  obtain ⟨cs, hne, ⟨hb, hu, hhead⟩, hl, hr, htext⟩ := hw _ _ h
  refine ⟨news cs, Line.news ⟨⟨hne, hb, hl⟩, hu⟩ hr, htext, ?_⟩
  cases cs with
  | nil => exact absurd rfl hne
  | cons c cs =>
    cases c with
    | keep m => exact ⟨m, news cs, rfl, by simpa [Change.old] using hhead⟩
    | swap first others new more =>
      obtain ⟨hk, -⟩ := hr (.swap first others new more) (by simp)
      simp [Change.old, hk] at hhead

end Parts

/-- Parts of a module call are written for fragments of a template. -/
structure IsWritten (write : Fragment → String) (template : ScannedTemplate) (edited : EditedText)
    (call : ModuleCall) : Prop where
  decorators : ∀ d ∈ call.decorators, ∃ f, IsCut template.source template.tokens IsDecorator f ∧ d = write f
  symbol : IsName call.symbol
  quote_not_mem : '\'' ∉ call.locator.toList
  readable : IsReadable call.locator
  condition : ∀ text, call.condition = some text →
    ∃ f, IsCut template.source template.tokens Balanced f ∧ text = write f
  body : (Value.object call.body).Holds (fun f => ∃ ls, IsLeaf (edited.fragment f) ls)
    (SpellsCut template.source template.tokens)

/-- A module call can be written with lexemes, if its parts are written for fragments of a template. -/
theorem IsWritten.exists_callLexemes {write : Fragment → String} {edited : EditedText} {call : ModuleCall}
    (h : IsWritten write template edited call) (hw : Renders write template) (hraw : Renders (·.raw) template) :
    ∃ parts : CallLexemes, parts.Show edited call := by
  obtain ⟨leaf, hleaf⟩ := exists_choice (α := String) (β := List Lexeme) IsLeaf
  obtain ⟨line, hline⟩ := exists_choice (α := String) (β := List Lexeme) IsDecoratorLine
  obtain ⟨locator, hlocator, hltext⟩ := exists_locator h.quote_not_mem h.readable
  have hshow : Leaves.Show ⟨fun f => leaf (edited.fragment f), leaf⟩ edited (.object call.body) := by
    refine h.body.imp (fun f hf => hleaf _ hf) fun text htext => ?_
    obtain ⟨f, rfl, hf⟩ := htext
    exact hleaf _ (hraw.exists_leaf hf)
  have hdecorators : ∀ d ∈ call.decorators, IsDecoratorLine d (line d) := by
    intro d hd
    obtain ⟨f, hf, rfl⟩ := h.decorators d hd
    exact hline _ (hw.exists_decorator hf)
  cases hcondition : call.condition with
  | none =>
    refine ⟨⟨line, locator, none, _⟩, hdecorators, h.symbol, ⟨hlocator, hltext⟩, ?_, hshow⟩
    simp [hcondition]
  | some text =>
    obtain ⟨f, hf, rfl⟩ := h.condition text hcondition
    obtain ⟨ls, hls, htext⟩ := hw.exists_condition hf
    refine ⟨⟨line, locator, some ls, _⟩, hdecorators, h.symbol, ⟨hlocator, hltext⟩, ?_, hshow⟩
    simp only [hcondition]
    exact ⟨hls, htext⟩

/-- A module call that keeps the decorators and the condition of a statement, as they are written. -/
def asCall (s : Statement) (symbol locator : String) (body : ObjectLiteral) : ModuleCall :=
  { decorators := s.decorators.map (·.raw)
    symbol := symbol
    locator := locator
    condition := s.condition.map (·.raw)
    body := body }

/-- A statement is written as a module call for its own fragments, if the scalars of the body are read from the
template. -/
theorem isWritten_asCall (hs : template.source.toList = l.chars) (ht : template.tokens = l.tokens) {s : Statement}
    (hholds : StatementHolds template.source template.tokens s) {symbol locator : String} {body : ObjectLiteral}
    (hname : IsName symbol) (hquote : '\'' ∉ locator.toList) (hr : IsReadable locator)
    (hbody : (Value.object body).Every (IsRead template.source template.tokens)) :
    IsWritten (·.raw) template (.unedited template.source) (asCall s symbol locator body) where
  decorators d hd := by
    obtain ⟨f, hf, rfl⟩ := List.mem_map.1 hd
    exact ⟨f, hholds.decorators f hf, rfl⟩
  symbol := hname
  quote_not_mem := hquote
  readable := hr
  condition text h := by
    obtain ⟨f, hf, rfl⟩ := Option.map_eq_some_iff.1 h
    exact ⟨f, hholds.condition f hf, rfl⟩
  body := by
    refine (hbody.imp fun v hv hread => ?_).holds
    refine (hread.holds hv).imp (fun f hf => ?_) fun text htext => htext
    rw [fragment_unedited hf]
    exact (renders_raw hs ht).exists_leaf hf

/-- The module call of a plan entry is written for fragments of the resource. -/
theorem isWritten_moduleCall (hc : IsChecked catalog) (hs : template.source.toList = l.chars)
    (ht : template.tokens = l.tokens) {s : Statement} (hholds : StatementHolds template.source template.tokens s)
    {entry : PlanEntry} {mapping : Mapping} {body : ObjectLiteral} (hm : mapping.fault? = none)
    (hbody : s.body = some body) (hname : IsName entry.newSymbol) (hr : IsReadable mapping.module) :
    IsWritten (repairedText catalog template).fragment template (repairedText catalog template)
      (moduleCall (repairedText catalog template) entry mapping s body) where
  decorators d hd := by
    obtain ⟨f, hf, rfl⟩ := List.mem_map.1 hd
    exact ⟨f, hholds.decorators f (List.mem_filter.1 hf).1, rfl⟩
  symbol := hname
  quote_not_mem := (tables_of_fault hm).2.2.1
  readable := hr
  condition text h := by
    obtain ⟨f, hf, rfl⟩ := Option.map_eq_some_iff.1 h
    exact ⟨f, hholds.condition f hf, rfl⟩
  body := by
    have hvalue := (hholds.body body hbody).imp fun v hv hread => (hread.holds hv).imp
      (fun f hf => (renders_repairedText hc hs ht).exists_leaf hf) fun text htext => htext
    exact (every_moduleBody hvalue hm (.string ⟨_, isLeaf_quote entry.newSymbol⟩)).holds

/-- The lexemes that are written for a plan entry: those of its module call, which can stand in place of the
resource. -/
def IsPlanBlock (catalog : ModuleCatalog) (template : ScannedTemplate) (entry : PlanEntry) (parts : CallLexemes)
    (new : Lexeme) (more : List Lexeme) : Prop :=
  ∃ s body mapping, template.statements[entry.statementIndex]? = some s ∧
    Judged catalog s entry.symbol entry.resourceType entry.apiVersion body entry.mappingIndex mapping ∧
    entry.module = mapping.module ∧
    entry.translated = (partition mapping body).translated.map (fun t => (t.path, t.input)) ∧
    parts.Show (repairedText catalog template) (moduleCall (repairedText catalog template) entry mapping s body) ∧
    parts.all (moduleCall (repairedText catalog template) entry mapping s body) = new :: more ∧ IsBlock new more ∧
    (moduleCall (repairedText catalog template) entry mapping s body).render (repairedText catalog template) =
      String.ofList (bare (new :: more))

/-- A derived symbol is a name. -/
theorem isName_newSymbol {source : String} (h : scan source = .ok template) {entry : PlanEntry}
    (he : entry ∈ (analyze catalog template).plan) : IsName entry.newSymbol := by
  obtain ⟨s, body, mapping, -, hs, hj, -⟩ := (planned_analyze catalog template).exists_judged he
  have hholds := statementHolds_of_scan h s (List.mem_of_getElem? hs)
  obtain ⟨digits, hnew, hdigits⟩ := (planned_analyze catalog template).newSymbol_eq he
  exact isName_append (hholds.symbol _ hj.symbol) hnew (isNamePart_ending hdigits)

/-- Every plan entry has its lexemes. -/
theorem exists_isPlanBlock {source : String} (h : scan source = .ok template) (hc : IsChecked catalog)
    {entry : PlanEntry} (he : entry ∈ (analyze catalog template).plan) (hr : IsReadable entry.module) :
    ∃ parts new more, IsPlanBlock catalog template entry parts new more := by
  obtain ⟨l, hsource, hchars, htokens, -⟩ := exists_layout h
  rw [← hsource] at hchars
  obtain ⟨s, body, mapping, -, hs, hj, hmodule, htranslated⟩ := (planned_analyze catalog template).exists_judged he
  rw [Nat.sub_zero] at hs
  rw [hmodule] at hr
  have hwritten := isWritten_moduleCall hc hchars htokens (statementHolds_of_scan h s (List.mem_of_getElem? hs))
    (hc _ _ hj.mapping) hj.body (isName_newSymbol h he) hr
  obtain ⟨parts, hshow⟩ := hwritten.exists_callLexemes (renders_repairedText hc hchars htokens)
    (renders_raw hchars htokens)
  obtain ⟨new, more, hall, hblock, htext⟩ := hshow.exists_isBlock
  exact ⟨parts, new, more, s, body, mapping, hs, hj, hmodule, htranslated, hshow, hall, hblock, htext⟩

/-- A migrated template as lexemes: the layout before, the lexemes of the plan, the changes, and the layout after. -/
structure IsMigration (catalog : ModuleCatalog) (template : ScannedTemplate) (parts : PlanEntry → CallLexemes)
    (block : PlanEntry → Lexeme × List Lexeme) (l : Layout) (cs : List Change) (l' : Layout) : Prop where
  migrates : Migrates catalog template block l cs
  blocks : ∀ e ∈ (analyze catalog template).plan,
    IsPlanBlock catalog template e (parts e) (block e).1 (block e).2
  renames : ∀ c ∈ repairs catalog template l, c.Renames
  mark : l'.mark = l.mark
  lexemes : l'.lexemes = news cs
  tail : l'.tail = l.tail
  chars : (transform catalog template (analyze catalog template)).text.toList = l'.chars

/-- The text of a migrated template has a layout, if the locators in it can be read. -/
theorem exists_isMigration {source : String} (h : scan source = .ok template) (hc : IsChecked catalog)
    (hr : ∀ e ∈ (analyze catalog template).plan, IsReadable e.module) :
    ∃ parts block l cs l', IsMigration catalog template parts block l cs l' := by
  obtain ⟨g, hg⟩ := exists_choice (α := PlanEntry) (β := CallLexemes × (Lexeme × List Lexeme))
    fun e r => e ∈ (analyze catalog template).plan ∧ IsPlanBlock catalog template e r.1 r.2.1 r.2.2
  have hblocks : ∀ e ∈ (analyze catalog template).plan,
      IsPlanBlock catalog template e (g e).1 (g e).2.1 (g e).2.2 := by
    intro e he
    obtain ⟨parts, new, more, hblock⟩ := exists_isPlanBlock h hc he (hr e he)
    exact (hg e ⟨(parts, (new, more)), he, hblock⟩).2
  obtain ⟨l, cs, hm⟩ := exists_migrates h (fun e => (g e).2) fun e he edit hedit => by
    obtain ⟨s, body, mapping, hs, hj, -, -, -, -, -, htext⟩ := hblocks e he
    rw [replacementEdit?, hs] at hedit
    simp only [Option.bind_eq_bind, Option.bind_some, hj.body, hj.mapping] at hedit
    rw [← Option.some.inj hedit]
    exact htext
  have hrenames : ∀ c ∈ repairs catalog template l, c.Renames := renames_useChanges hc l.legible.forall_spelled
  have hisBlock : ∀ i new more,
      planPicks (analyze catalog template).plan (fun e => (g e).2) i = some (new, more) → IsBlock new more := by
    intro i new more hp
    obtain ⟨e, he, hblock⟩ := Option.map_eq_some_iff.1 hp
    obtain ⟨s, body, mapping, -, -, -, -, -, -, hblock', -⟩ := hblocks e (List.mem_of_find?_eq_some he)
    rw [hblock] at hblock'
    exact hblock'
  obtain ⟨l', hmark, hlexemes, htail⟩ := l.exists_rewritten hm.rewrites hisBlock hrenames
  refine ⟨fun e => (g e).1, fun e => (g e).2, l, cs, l', hm, hblocks, hrenames, hmark, hlexemes, htail, ?_⟩
  rw [hm.text, Layout.chars, hmark, hlexemes, htail]

end BicepMigration.Migration
