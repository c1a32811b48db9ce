import BicepMigration.Proofs.Migration.CallText
import BicepMigration.Proofs.Template.CallReadBack
import BicepMigration.Proofs.Template.RenamedDeclarations
import BicepMigration.Proofs.Template.RewrittenStatements

/-!
# The statements of a migrated template

A migrated template has the statements of its source, one by one. A planned resource is a module call: it says what is
written for the call. Every other statement is read from its tokens with repaired references among them, so a statement
with a body keeps its form. The locators of the plan must be plain.
-/

namespace BicepMigration.Migration

open Catalog Template

variable {catalog : ModuleCatalog} {template : ScannedTemplate} {plan : List PlanEntry}

/-- A planned symbol is exchanged for the symbol of its module. -/
def Repairs (plan : List PlanEntry) (t u : Token) : Prop :=
  ∃ e ∈ plan, t.text = e.symbol ∧ u.text = e.newSymbol

/-- The changes that repair references exchange planned symbols for those of their modules. -/
theorem relates_repairs (l : Layout) :
    ∀ c ∈ repairs catalog template l, c.Relates (Repairs (analyze catalog template).plan) := by
  intro c hc
  cases c with
  | keep l => trivial
  | swap first others new more =>
    obtain ⟨-, use, hsymbol, hnew⟩ := exists_use_of_swap hc
    obtain ⟨e, mapping, names, he, hsame, -, -, rfl, -⟩ := repairLexemes?_cases hnew
    refine fun here here' => ⟨e, he, ?_, ?_⟩
    · rw [hsame, hsymbol]
      rfl
    · exact String.ofList_toList

/-- The symbol of a module is none of the words that a statement is read by: it has a capital letter. -/
theorem newSymbol_not_mem_readWords {taken : List String} {index : Nat} {ss : List Statement}
    (h : Planned catalog taken index ss plan) {e : PlanEntry} (he : e ∈ plan) : e.newSymbol ∉ readWords := by
  obtain ⟨digits, hnew, -⟩ := h.newSymbol_eq he
  have hcapital : 'M' ∈ e.newSymbol.toList := by
    rw [hnew]
    simp
  intro hmem
  have hwords : ∀ word ∈ readWords, 'M' ∉ word.toList := by decide
  exact hwords _ hmem hcapital

/-- One statement is read from lexemes, and another one in another text from the same lexemes with planned symbols
exchanged for those of their modules. -/
def SaysRepaired (plan : List PlanEntry) (source text : String) (s s' : Statement) : Prop :=
  ∃ run, (∀ c ∈ run, c.Renames) ∧ (∀ c ∈ run, c.Relates (Repairs plan)) ∧ SparesDeclared false run ∧
    SaidBy source (olds run) s ∧ SaidBy text (news run) s'

/-- A statement says what is written for the module call of a plan entry. -/
def SaysCall (catalog : ModuleCatalog) (template : ScannedTemplate) (text : String) (entry : PlanEntry)
    (s s' : Statement) : Prop :=
  ∃ (parts : CallLexemes) (body : ObjectLiteral) (mapping : Mapping) (t : Statement),
    Judged catalog s entry.symbol entry.resourceType entry.apiVersion body entry.mappingIndex mapping ∧
    entry.module = mapping.module ∧
    entry.translated = (partition mapping body).translated.map (fun t => (t.path, t.input)) ∧
    parts.Show (repairedText catalog template) (moduleCall (repairedText catalog template) entry mapping s body) ∧
    ReadsCall text parts.leaves (moduleCall (repairedText catalog template) entry mapping s body) t ∧
    s'.sense = t.sense

/-- What becomes of a statement when a template is migrated. -/
def Migrated (catalog : ModuleCatalog) (template : ScannedTemplate) (text : String) (i : Nat) (s s' : Statement) :
    Prop :=
  (∀ e ∈ (analyze catalog template).plan, e.statementIndex ≠ i) ∧
      SaysRepaired (analyze catalog template).plan template.source text s s' ∨
    ∃ e ∈ (analyze catalog template).plan, e.statementIndex = i ∧ SaysCall catalog template text e s s'

/-- A statement with a body keeps its form when references in it are repaired. -/
theorem SaysRepaired.form_eq {source text : String} {s s' : Statement} (h : SaysRepaired plan source text s s')
    (hplan : ∀ e ∈ plan, e.newSymbol ∉ readWords) (hs : s'.symbol.isSome) (hb : s'.body.isSome) :
    s'.kind = s.kind ∧ s'.form = s.form := by
  obtain ⟨run, hrenames, hrelates, hspares, ⟨here, first, others, -, htoks, hsense⟩,
    ⟨here', first', others', -, htoks', hsense'⟩⟩ := h
  have hrenamed := renamed_news hrenames hrelates hspares here here'
  rw [htoks, htoks'] at hrenamed
  obtain ⟨hkind', hform'⟩ := Statement.form_of_sense hsense' hs
  have hbody' : (readStatement text first' others').1.body.isSome := by
    rw [← hb]
    exact (congrArg Form.hasBody hform').symm
  -- the words of the new statement are no symbols of modules, so they stood in the old one
  obtain ⟨hkind, hform⟩ := (@Renamed.form_readStatement _ _ _ text source _ _) hrenamed.symm (fun t u ⟨e, he, _, hu⟩ => by
    rw [hu]
    exact hplan e he) hbody'
  obtain ⟨hkind₀, hform₀⟩ := Statement.form_of_sense hsense.symm (by
    have hsymbol := (congrArg Form.symbol (hform.trans hform'.symm)).symm
    simp only [Statement.form] at hsymbol
    rwa [← hsymbol])
  exact ⟨hkind'.trans (hkind.symm.trans hkind₀), hform'.trans (hform.symm.trans hform₀)⟩

/-- A statement is not picked if no plan entry is about it. -/
theorem planPicks_eq_none_iff {block : PlanEntry → Lexeme × List Lexeme} {i : Nat} :
    planPicks plan block i = none ↔ ∀ e ∈ plan, e.statementIndex ≠ i := by
  simp [planPicks]

/-- The locator of a plan entry holds no quote. -/
theorem quote_not_mem_module (hc : IsChecked catalog) {e : PlanEntry} (he : e ∈ (analyze catalog template).plan) :
    '\'' ∉ e.module.toList := by
  obtain ⟨_, _, mapping, -, -, hj, hmodule, -⟩ := (planned_analyze catalog template).exists_judged he
  rw [hmodule]
  exact (tables_of_fault (hc _ _ hj.mapping)).2.2.1

/-- The module call of a plan entry is read as a statement of its own, and says what is written. -/
theorem IsPlanBlock.reads {entry : PlanEntry} {parts : CallLexemes} {new : Lexeme} {more : List Lexeme}
    (h : IsPlanBlock catalog template entry parts new more) (hplain : IsPlain entry.module)
    (hquote : '\'' ∉ entry.module.toList) :
    (IsBlock new more ∧ IsAlone (new :: more)) ∧ ∀ {text : String} {gap : List Char} {s s' : Statement},
      template.statements[entry.statementIndex]? = some s → SaidBy text (regap gap (new :: more)) s' →
        SaysCall catalog template text entry s s' := by
  obtain ⟨t, body, mapping, ht, hj, hmodule, htranslated, hshow, hall, hblock, -⟩ := h
  rw [hmodule] at hplain hquote
  rw [← hall]
  refine ⟨⟨hblock, hshow.isAlone hplain hquote⟩, fun hs hsaid => ?_⟩
  obtain rfl := Option.some.inj (ht.symm.trans hs)
  obtain ⟨t', hcall, hsense⟩ := hshow.readsCall_of_saidBy hplain hquote hsaid
  exact ⟨parts, body, mapping, t', hj, hmodule, htranslated, hshow, hcall, hsense⟩

/-- What is written in place of a statement is the module call of an entry. -/
theorem IsMigration.exists_block {parts : PlanEntry → CallLexemes} {block : PlanEntry → Lexeme × List Lexeme}
    {l l' : Layout} {cs : List Change} (hm : IsMigration catalog template parts block l cs l') {i : Nat} {new : Lexeme}
    {more : List Lexeme} (hp : planPicks (analyze catalog template).plan block i = some (new, more)) :
    ∃ e ∈ (analyze catalog template).plan, e.statementIndex = i ∧ IsPlanBlock catalog template e (parts e) new more := by
  obtain ⟨e, hfind, hblock⟩ := Option.map_eq_some_iff.1 hp
  have hmem := List.mem_of_find?_eq_some hfind
  have hb := hm.blocks e hmem
  rw [hblock] at hb
  exact ⟨e, hmem, by simpa using List.find?_some hfind, hb⟩

/-- The statements of a migrated template, one by one. -/
theorem exists_migrated {source : String} (h : scan source = .ok template) (hc : IsChecked catalog)
    (hplain : ∀ e ∈ (analyze catalog template).plan, IsPlain e.module) {text : String}
    (ht : (transform catalog template (analyze catalog template)).text = text) :
    ∃ migrated, scan text = .ok migrated ∧
      List.Forall₂ (fun p s' => Migrated catalog template text p.2 p.1 s') template.statements.zipIdx
        migrated.statements := by
  have hquote (e : PlanEntry) (he : e ∈ (analyze catalog template).plan) := quote_not_mem_module hc he
  obtain ⟨parts, block, l, cs, l', hm⟩ := exists_isMigration h hc fun e he =>
    isReadable_of_isPlain (hplain e he) (hquote e he)
  have hchars := hm.chars
  rw [ht] at hchars
  refine ⟨_, scan_of_layout hchars, ?_⟩
  have hplaced' : Placed text l'.start (news cs) := by
    rw [← hm.lexemes]
    exact l'.placed hchars
  have hstatements := hm.migrates.rewrites.statements (fun i new more hp => by
      obtain ⟨e, hmem, -, hb⟩ := hm.exists_block hp
      exact (hb.reads (hplain e hmem) (hquote e hmem)).1)
    hm.renames l.legible.forall_ne_nil (l.placed hm.migrates.source) hplaced'
  rw [Layout.tokens, hm.lexemes]
  rw [List.forall₂_iff_zip] at hstatements ⊢
  refine ⟨hstatements.1, fun {p s'} hmem => ?_⟩
  obtain ⟨s, i⟩ := p
  have hi : template.statements[i]? = some s := List.mem_zipIdx_iff_getElem?.1 (List.of_mem_zip hmem).1
  obtain ⟨first, body, run, hrun, holds, -, hsaid, hsaid'⟩ := hstatements.2 hmem
  simp only at hsaid hsaid'
  cases hp : planPicks (analyze catalog template).plan block i with
  | none =>
    rw [hp, statementChanges] at hsaid'
    rw [← holds] at hsaid
    exact .inl ⟨planPicks_eq_none_iff.1 hp, run, fun c hc => hm.renames c (hrun.subset hc),
      fun c hc => relates_repairs l c (hrun.subset hc), (sparesDeclared_useChanges ..).mono hrun, hsaid, hsaid'⟩
  | some block' =>
    obtain ⟨new, more⟩ := block'
    obtain ⟨e, hmem, hindex, hb⟩ := hm.exists_block hp
    rw [hp, show news (statementChanges (some (new, more)) first body run) = regap first.gap (new :: more) from
      List.append_nil _] at hsaid'
    exact .inr ⟨e, hmem, hindex, (hb.reads (hplain e hmem) (hquote e hmem)).2 (hindex ▸ hi) hsaid'⟩

end BicepMigration.Migration
