import BicepMigration.Migration.Plan

/-!
# Planned statements

The plan goes along the statements: an entry stands for the statement with its number, which is a resource with a
body and a mapping. The symbols of the modules differ from all symbols of the template and from one another. Planning
only warns. What the catalog maps is not described here.
-/

namespace BicepMigration.Migration

open Catalog Template

/-- What is known of a statement that becomes a module call. -/
structure Judged (catalog : ModuleCatalog) (s : Statement) (symbol type version : String) (body : ObjectLiteral)
    (index : Nat) (mapping : Mapping) : Prop where
  kind : s.kind = .resource
  symbol : s.symbol = some symbol
  typeAndVersion : s.typeAndVersion = some (type, version)
  found : catalog.findIndex? type version = some index
  existing : s.existing = false
  looped : s.looped = false
  body : s.body = some body
  mapping : catalog.mapping? index = some mapping

/-- A resource that is replaced has a symbol, a type with a version, a body, and an entry of the catalog. -/
theorem judged_of_judge {catalog : ModuleCatalog} {s : Statement} {symbol type version : String}
    {body : ObjectLiteral} {index : Nat} {mapping : Mapping}
    (h : judge catalog s = .replaced symbol type version body index mapping) :
    Judged catalog s symbol type version body index mapping := by
  unfold judge at h
  split at h
  · simp at h
  · next symbol' type' version' hhead =>
    split at h
    · simp at h
    · next index' hfound =>
      by_cases he : s.existing = true
      · simp [he] at h
      · rw [if_neg he] at h
        by_cases hl : s.looped = true
        · simp [hl] at h
        · rw [if_neg hl] at h
          split at h
          · next body' mapping' hbody hmapping =>
            simp only [Verdict.replaced.injEq] at h
            obtain ⟨rfl, rfl, rfl, rfl, rfl, rfl⟩ := h
            unfold resourceHead? at hhead
            split at hhead
            · next hk =>
              split at hhead
              · next hs ht =>
                simp only [Option.some.injEq, Prod.mk.injEq] at hhead
                obtain ⟨rfl, rfl, rfl⟩ := hhead
                exact ⟨hk, hs, ht, hfound, by simpa using he, by simpa using hl, hbody, hmapping⟩
              · simp at hhead
            · simp at hhead
          · simp at h

/-- The entry for a statement. -/
def entryFor (taken : List String) (index : Nat) (symbol type version : String) (body : ObjectLiteral)
    (mappingIndex : Nat) (mapping : Mapping) : PlanEntry :=
  { symbol := symbol
    newSymbol := deriveSymbol symbol taken
    resourceType := type
    apiVersion := version
    module := mapping.module
    mappingIndex := mappingIndex
    statementIndex := index
    translated := (partition mapping body).translated.map fun t => (t.path, t.input)
    unmapped := (partition mapping body).unmapped.map (·.path) }

/-- A plan for statements from a number on, given the symbols that are taken. -/
inductive Planned (catalog : ModuleCatalog) : List String → Nat → List Statement → List PlanEntry → Prop where
  | done {taken : List String} {index : Nat} : Planned catalog taken index [] []
  | skip {taken : List String} {index : Nat} {s : Statement} {rest : List Statement} {plan : List PlanEntry} :
      Planned catalog taken (index + 1) rest plan → Planned catalog taken index (s :: rest) plan
  | entry {taken : List String} {index : Nat} {s : Statement} {rest : List Statement} {plan : List PlanEntry}
      {symbol type version : String} {body : ObjectLiteral} {mappingIndex : Nat} {mapping : Mapping} :
      Judged catalog s symbol type version body mappingIndex mapping →
      Planned catalog (deriveSymbol symbol taken :: taken) (index + 1) rest plan →
      Planned catalog taken index (s :: rest)
        (entryFor taken index symbol type version body mappingIndex mapping :: plan)

/-- The plan of statements goes over them one after another. -/
theorem planned_planFrom (catalog : ModuleCatalog) (taken : List String) (index : Nat) (ss : List Statement) :
    Planned catalog taken index ss (planFrom catalog taken index ss).plan := by
  induction ss generalizing taken index with
  | nil => exact .done
  | cons s rest ih =>
    unfold planFrom
    split
    · exact .skip (ih taken (index + 1))
    · exact .skip (ih taken (index + 1))
    · next hj => exact .entry (judged_of_judge hj) (ih _ (index + 1))

/-- The plan of a template goes over its statements, and all symbols of the template are taken. -/
theorem planned_analyze (catalog : ModuleCatalog) (template : ScannedTemplate) :
    Planned catalog (template.statements.filterMap (·.symbol)) 0 template.statements
      (analyze catalog template).plan :=
  planned_planFrom ..

section Warnings

/-- What planning warns of: loops, bodies that are no objects, and properties that no input stands for. -/
inductive IsPlanWarning : Diagnostic → Prop where
  | loop (symbol type : String) (line : Nat) : IsPlanWarning (loopWarning symbol type line)
  | body (symbol : String) (line : Nat) : IsPlanWarning (bodyWarning symbol line)
  | unmapped (symbol module : String) (u : Unmapped) : IsPlanWarning (unmappedWarning symbol module u)

/-- What the plan reports are warnings. -/
theorem IsPlanWarning.severity_eq {d : Diagnostic} (h : IsPlanWarning d) : d.severity = .warning := by
  cases h <;> rfl

/-- They are about constructs or properties that are not supported. -/
theorem IsPlanWarning.code_eq {d : Diagnostic} (h : IsPlanWarning d) :
    d.code = .unsupportedConstruct ∨ d.code = .unsupportedProperty := by
  cases h with
  | loop => exact .inl rfl
  | body => exact .inl rfl
  | unmapped => exact .inr rfl

/-- A resource that is passed through is a loop, or its body is no object. -/
theorem isPlanWarning_of_judge {catalog : ModuleCatalog} {s : Statement} {warning : Diagnostic}
    (h : judge catalog s = .passedThrough warning) : IsPlanWarning warning := by
  unfold judge at h
  repeat' split at h
  all_goals simp only [reduceCtorEq, Verdict.passedThrough.injEq] at h
  · exact h ▸ .loop _ _ _
  · exact h ▸ .body _ _

/-- The plan reports nothing but such warnings. -/
theorem isPlanWarning_planFrom (catalog : ModuleCatalog) (taken : List String) (index : Nat) (ss : List Statement) :
    ∀ d ∈ (planFrom catalog taken index ss).diagnostics, IsPlanWarning d := by
  induction ss generalizing taken index with
  | nil => exact fun d hd => absurd hd List.not_mem_nil
  | cons s rest ih =>
    unfold planFrom
    split
    · exact ih taken (index + 1)
    · next hj => exact List.forall_mem_cons.2 ⟨isPlanWarning_of_judge hj, ih taken (index + 1)⟩
    · exact List.forall_mem_append.2 ⟨List.forall_mem_map.2 fun u _ => .unmapped _ _ u, ih _ (index + 1)⟩

/-- Planning gives no other diagnostics. -/
theorem isPlanWarning_analyze (catalog : ModuleCatalog) (template : ScannedTemplate) :
    ∀ d ∈ (analyze catalog template).diagnostics, IsPlanWarning d :=
  isPlanWarning_planFrom catalog _ 0 template.statements

end Warnings

variable {catalog : ModuleCatalog} {taken : List String} {index : Nat} {ss : List Statement} {plan : List PlanEntry}

/-- An entry is the one for its statement. -/
theorem Planned.exists_entryFor (h : Planned catalog taken index ss plan) {e : PlanEntry} (he : e ∈ plan) :
    ∃ taken s body mapping, index ≤ e.statementIndex ∧ ss[e.statementIndex - index]? = some s ∧
      Judged catalog s e.symbol e.resourceType e.apiVersion body e.mappingIndex mapping ∧
      e = entryFor taken e.statementIndex e.symbol e.resourceType e.apiVersion body e.mappingIndex mapping := by
  induction h with
  | done => simp at he
  | @skip taken index s rest plan _ ih =>
    obtain ⟨taken', t, body, mapping, hle, ht, hrest⟩ := ih he
    refine ⟨taken', t, body, mapping, by omega, ?_, hrest⟩
    have hi : e.statementIndex - index = e.statementIndex - (index + 1) + 1 := by omega
    rw [hi, List.getElem?_cons_succ, ht]
  | @entry taken index s rest plan symbol type version body mappingIndex mapping hj _ ih =>
    rcases List.mem_cons.1 he with rfl | he
    · refine ⟨taken, s, body, mapping, Nat.le_refl _, ?_, hj, rfl⟩
      change (s :: rest)[index - index]? = some s
      rw [Nat.sub_self]
      rfl
    · obtain ⟨taken', t, body, mapping, hle, ht, hrest⟩ := ih he
      refine ⟨taken', t, body, mapping, by omega, ?_, hrest⟩
      have hi : e.statementIndex - index = e.statementIndex - (index + 1) + 1 := by omega
      rw [hi, List.getElem?_cons_succ, ht]

/-- The statement of an entry, and what the catalog says of it. -/
theorem Planned.exists_judged (h : Planned catalog taken index ss plan) {e : PlanEntry} (he : e ∈ plan) :
    ∃ s body mapping, index ≤ e.statementIndex ∧ ss[e.statementIndex - index]? = some s ∧
      Judged catalog s e.symbol e.resourceType e.apiVersion body e.mappingIndex mapping ∧
      e.module = mapping.module ∧
      e.translated = (partition mapping body).translated.map (fun t => (t.path, t.input)) := by
  obtain ⟨taken', s, body, mapping, hle, hs, hj, hentry⟩ := h.exists_entryFor he
  exact ⟨s, body, mapping, hle, hs, hj, congrArg PlanEntry.module hentry, congrArg PlanEntry.translated hentry⟩

/-- The paths of an entry that no input stands for are those of the body of its statement. -/
theorem Planned.unmapped_eq (h : Planned catalog taken 0 ss plan) {e : PlanEntry} (he : e ∈ plan) {s : Statement}
    (hs : ss[e.statementIndex]? = some s) {symbol type version : String} {body : ObjectLiteral} {mapping : Mapping}
    (hj : Judged catalog s symbol type version body e.mappingIndex mapping) :
    e.unmapped = (partition mapping body).unmapped.map (·.path) := by
  obtain ⟨taken', s', body', mapping', -, hs', hj', hentry⟩ := h.exists_entryFor he
  rw [Nat.sub_zero, hs] at hs'
  obtain rfl := Option.some.inj hs'
  obtain rfl := Option.some.inj (hj.body.symm.trans hj'.body)
  obtain rfl := Option.some.inj (hj.mapping.symm.trans hj'.mapping)
  exact congrArg PlanEntry.unmapped hentry

/-- Entries come in the order of their statements. -/
theorem Planned.pairwise (h : Planned catalog taken index ss plan) :
    plan.Pairwise fun a b => a.statementIndex < b.statementIndex := by
  induction h with
  | done => exact .nil
  | skip _ ih => exact ih
  | @entry taken index s rest plan symbol type version body mappingIndex mapping _ hrest ih =>
    refine .cons (fun e he => ?_) ih
    obtain ⟨_, _, _, hle, -⟩ := hrest.exists_judged he
    exact hle

/-- The symbol of a module is not taken, and no other module has it. -/
theorem Planned.newSymbol_not_mem (h : Planned catalog taken index ss plan) :
    (∀ e ∈ plan, e.newSymbol ∉ taken) ∧ plan.Pairwise fun a b => a.newSymbol ≠ b.newSymbol := by
  induction h with
  | done => exact ⟨by simp, .nil⟩
  | skip _ ih => exact ih
  | @entry taken index s rest plan symbol type version body mappingIndex mapping _ _ ih =>
    obtain ⟨hnot, hpair⟩ := ih
    refine ⟨fun e he => ?_, .cons (fun e he h => ?_) hpair⟩
    · rcases List.mem_cons.1 he with rfl | he
      · exact deriveSymbol_not_mem symbol taken
      · exact fun h => hnot e he (List.mem_cons_of_mem _ h)
    · exact hnot e he (h ▸ List.mem_cons_self ..)

end BicepMigration.Migration
