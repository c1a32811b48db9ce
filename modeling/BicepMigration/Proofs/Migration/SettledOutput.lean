import BicepMigration.Proofs.Migration.Frame
import BicepMigration.Proofs.Migration.MigratedStatements
import BicepMigration.Proofs.Migration.Optimization

/-!
# Nothing is left to migrate

Whether a resource becomes a module call depends on its kind and its form only. A statement of the output has the form
of a statement that was not planned, or it is a module, so no statement of the output is planned: resolving the output
once more changes nothing. The locators of the catalog must be plain, because they are not encoded.
-/

namespace BicepMigration.Migration

open Catalog Template

variable {catalog : ModuleCatalog} {template : ScannedTemplate} {plan : List PlanEntry} {s s' : Statement}

section Plannable

/-- A catalog makes a module call of a statement. -/
def Plannable (catalog : ModuleCatalog) (s : Statement) : Prop :=
  ∃ symbol type version body index mapping, Judged catalog s symbol type version body index mapping

/-- A resource that has all that a module call needs is replaced. -/
theorem judge_of_judged {symbol type version : String} {body : ObjectLiteral} {index : Nat} {mapping : Mapping}
    (h : Judged catalog s symbol type version body index mapping) :
    judge catalog s = .replaced symbol type version body index mapping := by
  have hhead : resourceHead? s = some (symbol, type, version) := by
    rw [resourceHead?, if_pos h.kind, h.symbol, h.typeAndVersion]
  simp only [judge, hhead, h.found, h.existing, h.looped, h.body, h.mapping, Bool.false_eq_true, if_false]

/-- Every statement that a catalog makes a module call of has an entry. -/
theorem exists_entry (h : Plannable catalog s) {ss : List Statement} {i : Nat} (hs : ss[i]? = some s)
    (taken : List String) (index : Nat) :
    ∃ e ∈ (planFrom catalog taken index ss).plan, e.statementIndex = index + i := by
  obtain ⟨symbol, type, version, body, mappingIndex, mapping, hj⟩ := h
  induction ss generalizing i taken index with
  | nil => cases hs
  | cons t rest ih =>
    cases i with
    | zero =>
      obtain rfl := Option.some.inj hs
      rw [planFrom]
      simp only [judge_of_judged hj]
      exact ⟨_, List.mem_cons_self, rfl⟩
    | succ i =>
      have hothers (taken : List String) := ih (i := i) hs taken (index + 1)
      rw [Nat.add_right_comm, Nat.add_assoc] at hothers
      unfold planFrom
      split
      · exact hothers taken
      · exact hothers taken
      · obtain ⟨e, he, hi⟩ := hothers _
        exact ⟨e, List.mem_cons_of_mem _ he, hi⟩

/-- A template without such statements has an empty plan. -/
theorem plan_eq_nil (h : ∀ s ∈ template.statements, ¬ Plannable catalog s) : (analyze catalog template).plan = [] := by
  refine List.eq_nil_iff_forall_not_mem.2 fun e he => ?_
  obtain ⟨s, body, mapping, -, hs, hj, -⟩ := (planned_analyze catalog template).exists_judged he
  exact h s (List.mem_of_getElem? hs) ⟨_, _, _, _, _, _, hj⟩

/-- Whether a statement becomes a module call depends on its kind and its form. -/
theorem Plannable.of_form (h : Plannable catalog s') (hk : s'.kind = s.kind) (hf : s'.form = s.form) :
    Plannable catalog s := by
  obtain ⟨symbol, type, version, body, index, mapping, hj⟩ := h
  simp only [Statement.form, Form.mk.injEq] at hf
  obtain ⟨hsymbol, htarget, hbody, -, hexisting, hlooped⟩ := hf
  rw [hj.body, Option.isSome_some, eq_comm, Option.isSome_iff_exists] at hbody
  obtain ⟨body', hbody⟩ := hbody
  refine ⟨symbol, type, version, body', index, mapping, hk ▸ hj.kind, hsymbol ▸ hj.symbol, ?_, hj.found,
    hexisting ▸ hj.existing, hlooped ▸ hj.looped, hbody, hj.mapping⟩
  have h := hj.typeAndVersion
  rwa [Statement.typeAndVersion, htarget] at h

/-- A statement that becomes a module call is a resource with a symbol and a body. -/
theorem Plannable.declares (h : Plannable catalog s) :
    s.kind = .resource ∧ s.symbol.isSome ∧ s.body.isSome := by
  obtain ⟨symbol, type, version, body, index, mapping, hj⟩ := h
  rw [hj.symbol, hj.body]
  exact ⟨hj.kind, rfl, rfl⟩

end Plannable

section Stages

/-- Each statement after a stage comes from one before it. -/
theorem exists_origin {r : Nat → Statement → Statement → Prop} {ss ss' : List Statement}
    (h : List.Forall₂ (fun p s' => r p.2 p.1 s') ss.zipIdx ss') {s' : Statement} (hs : s' ∈ ss') :
    ∃ i s, ss[i]? = some s ∧ r i s s' := by
  obtain ⟨i, hi, rfl⟩ := List.getElem_of_mem hs
  have hlength := h.length_eq
  rw [List.length_zipIdx] at hlength
  have hr := h.get (by rw [List.length_zipIdx, hlength]; exact hi) hi
  rw [List.get_eq_getElem, List.getElem_zipIdx, Nat.zero_add] at hr
  exact ⟨i, ss[i], List.getElem?_eq_getElem _, hr⟩

/-- No statement of a migrated template becomes a module call. -/
theorem Migrated.not_plannable {text : String} {i : Nat} (h : Migrated catalog template text i s s')
    (hs : template.statements[i]? = some s) : ¬ Plannable catalog s' := by
  intro hp
  obtain ⟨hkind, hsymbol, hbody⟩ := hp.declares
  rcases h with ⟨hindex, hsays⟩ | ⟨e, -, -, parts, body, mapping, t, -, -, -, -, hcall, hsense⟩
  · have hwords : ∀ e ∈ (analyze catalog template).plan, e.newSymbol ∉ readWords := fun e he =>
      newSymbol_not_mem_readWords (planned_analyze catalog template) he
    obtain ⟨hk, hf⟩ := hsays.form_eq hwords hsymbol hbody
    obtain ⟨e, he, hi⟩ := exists_entry (hp.of_form hk hf) hs (template.statements.filterMap (·.symbol)) 0
    exact hindex e he (hi.trans (Nat.zero_add i))
  · have hmodule : s'.kind = .module := (show s'.kind = t.kind from congrArg (·.kind) hsense).trans hcall.kind
    rw [hkind] at hmodule
    cases hmodule

/-- A statement of an optimized template becomes a module call only if the statement before did. -/
theorem Elides.not_plannable {i : Nat} (h : Elides catalog template plan i s s') (hs : ¬ Plannable catalog s) :
    ¬ Plannable catalog s' := by
  intro hp
  obtain ⟨hkind, hsymbol, -⟩ := hp.declares
  rcases h with ⟨-, hsense⟩ | ⟨e, -, -, mapping, body, params, -, hfind, -, -, hsense⟩
  · obtain ⟨hk, hf⟩ := Statement.form_of_sense hsense hsymbol
    exact hs (hp.of_form hk hf)
  · have hmodule : s'.kind = .module := congrArg (·.kind) hsense
    rw [hkind] at hmodule
    cases hmodule

end Stages

/-- Resolving the output of a template once more plans nothing and changes nothing. -/
theorem resolve_resolve {document : Document} (hd : ModuleCatalog.ofDocument document = .ok catalog)
    (hplain : PlainLocators catalog) {name source : String} {r : Resolution} (h : resolve catalog name source = .ok r)
    (name' : String) :
    ∃ again, resolve catalog name' r.output = .ok again ∧ again.transformation.plan = [] ∧
      again.transformation.text = r.output ∧ again.output = r.output ∧ again.outputHash = r.outputHash := by
  obtain ⟨template, hscan, rfl⟩ : ∃ template, scan source = .ok template ∧ resolveScanned catalog name template = r := by
    rw [resolve] at h
    cases hs : scan source with
    | error error =>
      rw [hs] at h
      cases h
    | ok template =>
      rw [hs] at h
      exact ⟨template, rfl, Except.ok.inj h⟩
  obtain ⟨hw, hlocators⟩ := writable_plan hd hplain hscan
  obtain ⟨migrated, hm, hmigrated⟩ := exists_migrated hscan (isChecked_ofDocument hd) hlocators rfl
  obtain ⟨optimized, ho, hoptimized⟩ :=
    (@exists_elides catalog) hm (planned_analyze catalog template).newSymbol_not_mem.2 hw hlocators
  have hnone : ∀ s ∈ migrated.statements, ¬ Plannable catalog s := by
    intro s' hs'
    obtain ⟨i, s, hs, hr⟩ := exists_origin hmigrated hs'
    exact hr.not_plannable hs
  have hnone' : ∀ s ∈ optimized.statements, ¬ Plannable catalog s := by
    intro s' hs'
    obtain ⟨i, s, hs, hr⟩ := exists_origin hoptimized hs'
    exact hr.not_plannable (hnone s (List.mem_of_getElem? hs))
  have hplan := plan_eq_nil hnone'
  obtain ⟨htext, houtput⟩ := unchanged_of_plan_nil catalog name' ho hplan
  refine ⟨resolveScanned catalog name' optimized, ?_, hplan, htext, houtput, congrArg Fingerprint.ofText houtput⟩
  rw [resolve]
  exact congrArg (·.map (resolveScanned catalog name')) ho

/-- What was resolved with a removed default is resolved again to itself. -/
theorem resolve_resolve_sized :
    ModuleCatalog.ofDocument sizedDocument = .ok (catalogOf sizedDocument) ∧ PlainLocators (catalogOf sizedDocument) ∧
      ∃ r, resolve (catalogOf sizedDocument) "main" accountSource = .ok r ∧
        ∃ again, resolve (catalogOf sizedDocument) "main" r.output = .ok again ∧ again.output = r.output := by
  have h : resolve (catalogOf sizedDocument) "main" accountSource =
      .ok (resolveScanned (catalogOf sizedDocument) "main" (templateOf accountSource)) := by
    rw [resolve, scan_account]
    rfl
  obtain ⟨again, hagain, -, -, houtput, -⟩ := resolve_resolve ofDocument_sized plainLocators_sized h "main"
  exact ⟨ofDocument_sized, plainLocators_sized, _, h, again, hagain, houtput⟩

end BicepMigration.Migration
