import BicepMigration.Proofs.Migration.Names
import BicepMigration.Proofs.Template.JoinedText

/-!
# The plan of a template before another one

A plan is made from the statements of a template, the symbols that they declare, and the names in it. Another template
that comes after it adds statements and names. It does not matter for the plan if none of its resources is mapped, it
names no planned symbol, and it declares no symbol that a module of the plan could get. Main statement: both templates
together have the plan of the first one.
-/

namespace BicepMigration.Migration

open Catalog Template

/-- The name is that of a module for a symbol: the symbol with an ending, and perhaps a number after it. -/
def IsModuleName (symbol name : String) : Prop :=
  ∃ digits, name.toList = symbol.toList ++ ("Module".toList ++ digits) ∧ ∀ c ∈ digits, c.isDigit = true

/-- The name of a module starts with the symbol and the ending, and goes on with digits only. -/
theorem isModuleName_iff {symbol name : String} : IsModuleName symbol name ↔
    (symbol.toList ++ "Module".toList).isPrefixOf name.toList = true ∧
      (name.toList.drop (symbol.toList ++ "Module".toList).length).all Char.isDigit = true := by
  rw [List.isPrefixOf_iff_prefix, List.all_eq_true]
  constructor
  · rintro ⟨digits, hname, hdigits⟩
    rw [← List.append_assoc] at hname
    rw [hname, List.drop_left]
    exact ⟨List.prefix_append _ _, hdigits⟩
  · rintro ⟨⟨digits, hname⟩, hdigits⟩
    rw [← hname, List.drop_left] at hdigits
    exact ⟨digits, by rw [← hname, List.append_assoc], hdigits⟩

instance (symbol name : String) : Decidable (IsModuleName symbol name) := decidable_of_iff' _ isModuleName_iff

/-- A template that a plan does not concern. -/
structure Unconcerned (catalog : ModuleCatalog) (plan : List PlanEntry) (template : ScannedTemplate) : Prop where
  /-- No resource of it is mapped. -/
  unmapped : ∀ s ∈ template.statements, s.kind = .resource →
    ∀ target ∈ s.typeAndVersion, catalog.findIndex? target.1 target.2 = none
  /-- No planned symbol is named in it. -/
  unnamed : ∀ t ∈ template.tokens, t.kind = .identifier → ∀ e ∈ plan, t.text ≠ e.symbol
  /-- It declares no symbol that a module of the plan could get. -/
  undeclared : ∀ s ∈ template.statements, ∀ name ∈ s.symbol, ∀ e ∈ plan, ¬ IsModuleName e.symbol name

/-- A template has nothing to do with a plan if it has no resource with a module, no name of a planned resource and no
symbol that could be derived for one. -/
theorem unconcerned_iff {catalog : ModuleCatalog} {plan : List PlanEntry} {template : ScannedTemplate} :
    Unconcerned catalog plan template ↔
      (∀ s ∈ template.statements, s.kind = .resource →
          ∀ target ∈ s.typeAndVersion, catalog.findIndex? target.1 target.2 = none) ∧
        (∀ t ∈ template.tokens, t.kind = .identifier → ∀ e ∈ plan, t.text ≠ e.symbol) ∧
        ∀ s ∈ template.statements, ∀ name ∈ s.symbol, ∀ e ∈ plan, ¬ IsModuleName e.symbol name :=
  ⟨fun h => ⟨h.unmapped, h.unnamed, h.undeclared⟩, fun h => ⟨h.1, h.2.1, h.2.2⟩⟩

instance (catalog : ModuleCatalog) (plan : List PlanEntry) (template : ScannedTemplate) :
    Decidable (Unconcerned catalog plan template) := decidable_of_iff' _ unconcerned_iff

variable {catalog : ModuleCatalog} {s : Statement} {ss others : List Statement} {taken more : List String} {index : Nat}

section Judgement

/-- Whether a statement is a resource is told by its kind, its symbol and its target. -/
theorem resourceHead?_of_eq {s s' : Statement} (hk : s'.kind = s.kind) (hs : s'.symbol = s.symbol)
    (ht : (s'.symbol.bind fun _ => s'.target) = s.symbol.bind fun _ => s.target) :
    resourceHead? s' = resourceHead? s := by
  unfold resourceHead? Statement.typeAndVersion
  rw [hk, hs]
  rw [hs] at ht
  cases hsymbol : s.symbol with
  | none => rfl
  | some symbol =>
    rw [hsymbol] at ht
    rw [show s'.target = s.target from ht]

/-- A statement is judged by what it says by its own tokens. -/
theorem judge_own (catalog : ModuleCatalog) (s : Statement) : judge catalog s.own = judge catalog s := by
  have hhead : resourceHead? s.own = resourceHead? s := by
    refine resourceHead?_of_eq rfl rfl ?_
    cases hs : s.symbol <;> simp [Statement.own, hs]
  unfold judge
  rw [hhead]
  cases hr : resourceHead? s with
  | none => rfl
  | some head =>
    obtain ⟨symbol, type, version⟩ := head
    have hsymbol : s.symbol = some symbol := by
      unfold resourceHead? at hr
      split at hr
      · split at hr
        · next hs _ =>
          obtain ⟨rfl, -⟩ := Prod.mk.inj (Option.some.inj hr)
          exact hs
        · cases hr
      · cases hr
    have hlooped : s.own.looped = s.looped := by simp [Statement.own, hsymbol]
    have hexisting : s.own.existing = s.existing := rfl
    have hbody : s.own.body = s.body := rfl
    have hline : s.own.line = s.line := rfl
    simp only [hlooped, hexisting, hbody, hline]

/-- A resource that is not mapped is left alone, wherever it stands. -/
theorem judge_of_unmapped {s s' : Statement} (hs : s'.sense = s.sense) (hu : s.kind = .resource →
    ∀ target ∈ s.typeAndVersion, catalog.findIndex? target.1 target.2 = none) :
    judge catalog s' = .untouched := by
  have hhead : resourceHead? s' = resourceHead? s :=
    resourceHead?_of_eq (congrArg (·.kind) hs) (congrArg (·.symbol) hs) (congrArg (·.target) hs)
  unfold judge
  rw [hhead]
  unfold resourceHead?
  by_cases hk : s.kind = .resource
  · rw [if_pos hk]
    cases hsymbol : s.symbol with
    | none => rfl
    | some symbol =>
      cases ht : s.typeAndVersion with
      | none => rfl
      | some target =>
        simp only [hu hk target ht]
  · rw [if_neg hk]

end Judgement

section Plans

/-- Statements are planned by what they say by their own tokens. -/
theorem planFrom_map_own : planFrom catalog taken index (ss.map Statement.own) = planFrom catalog taken index ss := by
  induction ss generalizing taken index with
  | nil => rfl
  | cons s ss ih => simp only [List.map_cons, planFrom, judge_own, ih]

/-- Statements that are left alone add nothing to a plan. -/
theorem planFrom_append (h : ∀ s ∈ others, judge catalog s = .untouched) :
    planFrom catalog taken index (ss ++ others) = planFrom catalog taken index ss := by
  induction ss generalizing taken index with
  | nil =>
    rw [List.nil_append]
    induction others generalizing taken index with
    | nil => rfl
    | cons s others ih =>
      simp only [planFrom, h s List.mem_cons_self]
      exact ih fun s hs => h s (List.mem_cons_of_mem _ hs)
  | cons s ss ih => simp only [List.cons_append, planFrom, ih]

/-- Symbols that are no names of modules do not matter for the symbol of a module. -/
theorem deriveSymbol_append {old : String} (h : ∀ name ∈ more, ¬ IsModuleName old name) :
    deriveSymbol old (taken ++ more) = deriveSymbol old taken := by
  obtain ⟨n, -, hfree, hbefore⟩ := exists_first_candidate old taken
  have hmore : candidate old n ∉ more := fun hmem => h _ hmem (numbered_eq old (n + 1))
  rw [deriveSymbol_eq_candidate hfree hbefore]
  refine deriveSymbol_eq_candidate (fun hmem => ?_) fun m hm => List.mem_append_left more (hbefore m hm)
  exact (List.mem_append.1 hmem).elim hfree hmore

/-- Symbols that are no names of modules of a plan do not matter for it. -/
theorem planFrom_taken (h : ∀ e ∈ (planFrom catalog taken index ss).plan, ∀ name ∈ more, ¬ IsModuleName e.symbol name) :
    planFrom catalog (taken ++ more) index ss = planFrom catalog taken index ss := by
  induction ss generalizing taken index with
  | nil => rfl
  | cons s ss ih =>
    rw [planFrom, planFrom]
    rw [planFrom] at h
    cases hj : judge catalog s with
    | untouched =>
      rw [hj] at h
      exact ih h
    | passedThrough warning =>
      rw [hj] at h
      simp only
      rw [ih h]
    | replaced symbol type version body mappingIndex mapping =>
      rw [hj] at h
      simp only at h ⊢
      have hsymbol : deriveSymbol symbol (taken ++ more) = deriveSymbol symbol taken :=
        deriveSymbol_append (h _ List.mem_cons_self)
      rw [hsymbol, ← List.cons_append, ih fun e he => h e (List.mem_cons_of_mem _ he)]

end Plans

variable {source : String} {template more joined : ScannedTemplate}

/-- Each statement that comes after the first template says what one of the second template says. -/
theorem exists_sense_of_joins {others : List Statement}
    (h : others.map Statement.sense = more.statements.map Statement.sense) :
    ∀ s ∈ others, ∃ t ∈ more.statements, s.sense = t.sense := by
  intro s hs
  obtain ⟨t, ht, hsame⟩ := List.mem_map.1 (h ▸ List.mem_map_of_mem hs)
  exact ⟨t, ht, hsame.symm⟩

/-- The statements of both templates have the plan of the first one. -/
theorem planFrom_of_joins (hj : Joins template more joined)
    (hu : Unconcerned catalog (analyze catalog template).plan more) :
    planFrom catalog (joined.statements.filterMap (·.symbol)) 0 joined.statements =
      planFrom catalog (template.statements.filterMap (·.symbol)) 0 template.statements := by
  obtain ⟨own, others, hstatements, hown, hothers⟩ := hj.statements
  have hsense := exists_sense_of_joins hothers
  have hmap (ss : List Statement) : (ss.map Statement.own).filterMap (·.symbol) = ss.filterMap (·.symbol) := by
    rw [List.filterMap_map]
    rfl
  have hsymbols : joined.statements.filterMap (·.symbol) =
      template.statements.filterMap (·.symbol) ++ others.filterMap (·.symbol) := by
    rw [hstatements, List.filterMap_append, ← hmap own, hown, hmap]
  rw [hsymbols, hstatements, planFrom_append fun s hs => ?_, ← planFrom_map_own, hown, planFrom_map_own,
    planFrom_taken fun e he name hname => ?_]
  · obtain ⟨s, hs, hsymbol⟩ := List.mem_filterMap.1 hname
    obtain ⟨t, ht, hsame⟩ := hsense s hs
    exact hu.undeclared t ht name ((congrArg (·.symbol) hsame).symm.trans hsymbol) e he
  · obtain ⟨t, ht, hsame⟩ := hsense s hs
    exact judge_of_unmapped hsame (hu.unmapped t ht)

/-- What is planned is used where it is used in the first template. -/
theorem findUses_of_joins (h : scan source = .ok template) (hj : Joins template more joined)
    (hu : Unconcerned catalog (analyze catalog template).plan more) :
    findUses ((analyze catalog template).plan.map (·.symbol)) joined.tokens =
      findUses ((analyze catalog template).plan.map (·.symbol)) template.tokens := by
  obtain ⟨line, g, hline, hg, htokens⟩ := hj.tokens
  rw [htokens]
  refine findUses_append (balanced_of_scan h) (by simp [atLineEnd, hline]) fun t ht hk hmem => ?_
  rcases List.mem_cons.1 ht with rfl | ht
  · cases hline.symm.trans hk
  · obtain ⟨u, hu', rfl⟩ := List.mem_map.1 ht
    obtain ⟨e, he, hsymbol⟩ := List.mem_map.1 hmem
    rw [hg.text] at hsymbol
    rw [hg.kind] at hk
    exact hu.unnamed u hu' hk e he hsymbol.symm

/-- What is planned is declared where it is declared in the first template. -/
theorem declares_of_joins (hj : Joins template more joined) {e : PlanEntry} (he : e ∈ (analyze catalog template).plan)
    (use : SymbolUse) : e.declares joined.statements use = e.declares template.statements use := by
  obtain ⟨s, body, mapping, -, hs, -⟩ := (planned_analyze catalog template).exists_judged he
  obtain ⟨s', hs', hsame⟩ := hj.exists_statement hs
  have hspan : s'.span = s.span := congrArg (·.span) hsame
  unfold PlanEntry.declares
  rw [show joined.statements[e.statementIndex]? = some s' from hs',
    show template.statements[e.statementIndex]? = some s from hs, Option.any_some, Option.any_some, hspan]

/-- Both templates together have the plan of the first one, and the same references are repaired. -/
theorem analyze_of_joins (h : scan source = .ok template) (hj : Joins template more joined)
    (hu : Unconcerned catalog (analyze catalog template).plan more) :
    analyze catalog joined = analyze catalog template := by
  have huses := findUses_of_joins h hj hu
  have hreferences : (fun use => !(analyze catalog template).plan.any fun e => e.declares joined.statements use) =
      fun use => !(analyze catalog template).plan.any fun e => e.declares template.statements use := by
    funext use
    rw [Bool.eq_iff_iff]
    simp only [Bool.not_eq_true', List.any_eq_false]
    exact forall₂_congr fun e he => by rw [declares_of_joins hj he]
  unfold analyze at huses hreferences ⊢
  simp only at huses hreferences ⊢
  rw [planFrom_of_joins hj hu, huses, hreferences]

end BicepMigration.Migration
