import BicepMigration.Proofs.Migration.ElidedStatements

/-!
# Inputs that are left

The module call of a plan entry is the first module with its symbol. Where it has inputs, those that equal their
defaults are removed, and the module is found again in the optimized template with the others. Statements that
correspond are in the same places of both templates.
-/

namespace BicepMigration.Migration

open Catalog Template

/-- The comparisons that are made for the module call of a plan entry. -/
def comparedInputs (catalog : ModuleCatalog) (template : ScannedTemplate) (entry : PlanEntry) : List Comparison :=
  match catalog.mapping? entry.mappingIndex, (template.find? .module entry.newSymbol).bind paramsOf? with
  | some mapping, some (_, params) => comparisons mapping.defaults "" params
  | _, _ => []

/-- The paths of the inputs of the module call of a plan entry that equal their defaults, in order. -/
def removedInputs (catalog : ModuleCatalog) (template : ScannedTemplate) (entry : PlanEntry) : List String :=
  ((comparedInputs catalog template entry).filter Comparison.holds).map (·.path)

section Found

variable {α β : Type} {r : α × Nat → β → Prop} {p : α → Bool} {q : β → Bool}

/-- What is found first is found in the same place of a list that corresponds. -/
theorem find?_cases {xs : List α} {ys : List β} {k : Nat} (h : List.Forall₂ r (xs.zipIdx k) ys)
    (hpq : ∀ x i y, r (x, i) y → q y = p x) :
    xs.find? p = none ∧ ys.find? q = none ∨
      ∃ x y i, xs.find? p = some x ∧ xs.findIdx? p = some i ∧ ys.find? q = some y ∧ r (x, k + i) y := by
  induction xs generalizing ys k with
  | nil =>
    cases h
    exact .inl ⟨rfl, rfl⟩
  | cons x xs ih =>
    rw [List.zipIdx_cons] at h
    cases h with
    | @cons _ y _ ys hxy hrest =>
      have hq := hpq x k y hxy
      cases hp : p x with
      | true =>
        rw [hp] at hq
        exact .inr ⟨x, y, 0, List.find?_cons_of_pos hp, by rw [List.findIdx?_cons, if_pos hp],
          List.find?_cons_of_pos hq, hxy⟩
      | false =>
        rw [hp] at hq
        rw [List.find?_cons_of_neg (by simp [hp]), List.find?_cons_of_neg (by simp [hq]), List.findIdx?_cons,
          if_neg (by simp [hp])]
        rcases ih hrest with hnone | ⟨x', y', i, hx, hi, hy, hr⟩
        · exact .inl hnone
        · refine .inr ⟨x', y', i + 1, hx, by rw [hi]; rfl, hy, ?_⟩
          rw [show k + (i + 1) = k + 1 + i by omega]
          exact hr

end Found

variable {catalog : ModuleCatalog} {template optimized : ScannedTemplate} {plan : List PlanEntry}

/-- A statement keeps its kind and its symbol. -/
theorem Elides.head_eq {i : Nat} {s s' : Statement} (h : Elides catalog template plan i s s') :
    s'.kind = s.kind ∧ s'.symbol = s.symbol := by
  rcases h with ⟨-, hs⟩ | ⟨e, -, -, mapping, body, params, -, hfind, -, -, hs⟩
  · exact ⟨congrArg (·.kind) hs, congrArg (·.symbol) hs⟩
  · obtain ⟨-, hkind, hsymbol⟩ := ScannedTemplate.mem_of_find? hfind
    rw [hkind, hsymbol]
    exact ⟨congrArg (·.kind) hs, congrArg (·.symbol) hs⟩

/-- Without defaults nothing is compared. -/
theorem comparisons_nil (parent : String) (ps : ObjectLiteral) : comparisons [] parent ps = [] := by
  induction ps with
  | nil => rw [comparisons]
  | cons p rest ih =>
    rw [comparisons_of_pass rfl fun _ _ => rfl]
    exact ih

section Entry

variable {entry : PlanEntry} {mapping : Mapping} {s s' : Statement} {body params : ObjectLiteral}

/-- The module call of a plan entry with its body and its inputs, and the mapping with their defaults. -/
structure HasInputs (catalog : ModuleCatalog) (template : ScannedTemplate) (entry : PlanEntry) (mapping : Mapping)
    (s : Statement) (contents inputs : ObjectLiteral) : Prop where
  mapping : catalog.mapping? entry.mappingIndex = some mapping
  statement : template.find? .module entry.newSymbol = some s
  body : s.body = some contents
  params : ObjectLiteral.get? contents "params" = some (.object inputs)

/-- The inputs that are removed from a call are those that the walk over its inputs removes. -/
theorem HasInputs.removedInputs_eq (h : HasInputs catalog template entry mapping s body params) :
    removedInputs catalog template entry = (prune mapping.defaults entry.newSymbol "" params).removed := by
  have hcompared : comparedInputs catalog template entry = comparisons mapping.defaults "" params := by
    rw [comparedInputs, h.mapping, h.statement, Option.bind_some, paramsOf?_eq_some.2 ⟨h.body, h.params⟩]
  rw [removedInputs, hcompared, (prunes_prune entry.newSymbol "" params).removed_eq]

/-- The edit of an entry with inputs. There is none if nothing is removed. -/
theorem HasInputs.elide?_eq (h : HasInputs catalog template entry mapping s body params) :
    (mapping.defaults = [] ∧ elide? catalog template entry = none) ∨
      ∃ elision, elide? catalog template entry = some elision ∧
        elision.removed = (removedInputs catalog template entry).map (entry.newSymbol, ·) ∧
        (elision.edit = none ↔ removedInputs catalog template entry = []) := by
  have hparams := paramsOf?_eq_some.2 ⟨h.body, h.params⟩
  rw [h.removedInputs_eq]
  simp only [elide?, h.mapping, h.statement, hparams, Option.bind_eq_bind, Option.bind_some]
  split
  · next hd => exact .inl ⟨List.isEmpty_iff.1 hd, rfl⟩
  · refine .inr ⟨_, rfl, rfl, ?_⟩
    simp only
    split
    · next hr => simpa using hr
    · next hr => simpa using hr

/-- Only an entry with inputs has something to remove. -/
theorem hasInputs_of_elide? {elision : Elision} (h : elide? catalog template entry = some elision) :
    ∃ mapping s body params, HasInputs catalog template entry mapping s body params := by
  obtain ⟨s, mapping, body, params, hmapping, hs, hbody, hparams, -⟩ := elide?_cases h
  exact ⟨mapping, s, body, params, hmapping, hs, hbody, hparams⟩

/-- An entry without an edit has no input that equals its default. -/
theorem HasInputs.removedInputs_eq_nil (h : HasInputs catalog template entry mapping s body params)
    (he : elisionEdit? catalog template entry = none) : removedInputs catalog template entry = [] := by
  rcases h.elide?_eq with ⟨hd, -⟩ | ⟨elision, hsome, -, hiff⟩
  · rw [h.removedInputs_eq, (prunes_prune entry.newSymbol "" params).removed_eq, hd, comparisons_nil]
    rfl
  · rw [elisionEdit?, hsome] at he
    exact hiff.1 he

/-- Inputs are removed only where there are some. -/
theorem hasInputs_of_removedInputs (h : removedInputs catalog template entry ≠ []) :
    ∃ mapping s body params, HasInputs catalog template entry mapping s body params := by
  have hcompared : comparedInputs catalog template entry ≠ [] := by
    intro hnil
    rw [removedInputs, hnil] at h
    exact h rfl
  unfold comparedInputs at hcompared
  split at hcompared
  · next mapping body params hmapping hparams =>
    obtain ⟨s, hs, hp⟩ := Option.bind_eq_some_iff.1 hparams
    obtain ⟨hbody, hget⟩ := paramsOf?_eq_some.1 hp
    exact ⟨mapping, s, body, params, hmapping, hs, hbody, hget⟩
  · exact absurd rfl hcompared

/-- What is removed for an entry is what equals its default. -/
theorem removed_elide? (catalog : ModuleCatalog) (template : ScannedTemplate) (entry : PlanEntry) :
    (elide? catalog template entry).elim [] (·.removed) =
      (removedInputs catalog template entry).map (entry.newSymbol, ·) := by
  rcases Decidable.em (removedInputs catalog template entry = []) with hnil | hne
  · cases helision : elide? catalog template entry with
    | none => rw [hnil]; rfl
    | some elision =>
      obtain ⟨mapping, s, body, params, h⟩ := hasInputs_of_elide? helision
      rcases h.elide?_eq with ⟨-, hnone⟩ | ⟨elision', hsome, hremoved, -⟩
      · rw [helision] at hnone
        cases hnone
      · obtain rfl := Option.some.inj (helision.symm.trans hsome)
        exact hremoved
  · obtain ⟨mapping, s, body, params, h⟩ := hasInputs_of_removedInputs hne
    rcases h.elide?_eq with ⟨hd, -⟩ | ⟨elision, hsome, hremoved, -⟩
    · refine absurd ?_ hne
      rw [h.removedInputs_eq, (prunes_prune entry.newSymbol "" params).removed_eq, hd, comparisons_nil]
      rfl
    · rw [hsome]
      exact hremoved

/-- Inputs without an input that equals its default are all left. -/
theorem HasInputs.kept_eq (h : HasInputs catalog template entry mapping s body params)
    (hr : removedInputs catalog template entry = []) :
    (prune mapping.defaults entry.newSymbol "" params).kept = params :=
  (prunes_prune entry.newSymbol "" params).kept_eq (h.removedInputs_eq ▸ hr)

end Entry

/-- What a rewritten module call says: what the module call said, with the locator of the plan and another body. -/
theorem sense_rewrittenCall {entry : PlanEntry} {s : Statement} (hk : s.kind = .module)
    (hs : s.symbol = some entry.newSymbol) (body : ObjectLiteral) : (rewrittenCall entry s body).sense =
      Statement.sense { s with target := some entry.module, body := some body, existing := false, looped := false } := by
  simp only [ModuleCall.sense, Statement.sense, rewrittenCall, hk, hs, List.map_map, Option.map_map]
  rfl

/-- Each entry has its own symbol. -/
theorem eq_of_newSymbol (hplan : plan.Pairwise fun a b => a.newSymbol ≠ b.newSymbol) {a b : PlanEntry} (ha : a ∈ plan)
    (hb : b ∈ plan) (h : a.newSymbol = b.newSymbol) : a = b := by
  induction plan with
  | nil => cases ha
  | cons e rest ih =>
    rw [List.pairwise_cons] at hplan
    rcases List.mem_cons.1 ha with rfl | ha'
    · rcases List.mem_cons.1 hb with rfl | hb'
      · rfl
      · exact absurd h (hplan.1 b hb')
    · rcases List.mem_cons.1 hb with rfl | hb'
      · exact absurd h.symm (hplan.1 a ha')
      · exact ih hplan.2 ha' hb'

section Calls

variable {i : Nat} {entry : PlanEntry} {mapping : Mapping} {s s' : Statement} {body params : ObjectLiteral}

/-- Where the sense of a declared module is that of another statement, so are its locator, and whether it exists or is
repeated. -/
theorem eq_of_sense {t : Statement} (h : s'.sense = t.sense) (hs : s'.symbol.isSome) (ht : t.symbol.isSome) :
    s'.target = t.target ∧ s'.existing = t.existing ∧ s'.looped = t.looped := by
  obtain ⟨symbol, hs⟩ := Option.isSome_iff_exists.1 hs
  obtain ⟨symbol', ht⟩ := Option.isSome_iff_exists.1 ht
  have htarget : (s'.symbol.bind fun _ => s'.target) = t.symbol.bind fun _ => t.target := congrArg (·.target) h
  have hlooped : (s'.symbol.isSome && s'.looped) = (t.symbol.isSome && t.looped) := congrArg (·.looped) h
  rw [hs, ht] at htarget hlooped
  exact ⟨htarget, congrArg (·.existing) h, hlooped⟩

/-- The first module with the symbol of an entry says what it said before, with the inputs that are left. Its locator
is that of the plan if inputs were removed, and whether it exists is then not said any more. -/
theorem Elides.sense_eq (h : Elides catalog template plan i s s') (he : entry ∈ plan)
    (hplan : plan.Pairwise fun a b => a.newSymbol ≠ b.newSymbol)
    (hi : (template.statements.findIdx? fun s => s.kind = .module && s.symbol = some entry.newSymbol) = some i)
    (hs : HasInputs catalog template entry mapping s body params) :
    (s'.target = s.target ∨ s'.target = some entry.module) ∧ s'.sense = Statement.sense
      { s with
        target := s'.target
        body := some (replaceFirst "params" (.object (prune mapping.defaults entry.newSymbol "" params).kept) body)
        existing := s'.existing
        looped := s'.looped } := by
  obtain ⟨-, hkind, hsymbol⟩ := ScannedTemplate.mem_of_find? hs.statement
  obtain ⟨hkind', hsymbol'⟩ := h.head_eq
  rw [hkind] at hkind'
  rw [hsymbol] at hsymbol'
  rcases h with ⟨hnone, hsense⟩ | ⟨e, he', -, mapping', body', params', hmapping, hfind, hbody, hparams, hsense⟩
  · have hedit : elisionEdit? catalog template entry = none := by
      have hne := hnone entry he
      rw [elidedIndex?, hi] at hne
      cases hedit : elisionEdit? catalog template entry with
      | none => rfl
      | some edit => simp [hedit] at hne
    rw [hs.kept_eq (hs.removedInputs_eq_nil hedit), replaceFirst_eq_self hs.params]
    obtain ⟨htarget, hexisting, hlooped⟩ := eq_of_sense hsense (by simp [hsymbol']) (by simp [hsymbol])
    refine ⟨.inl htarget, hsense.trans ?_⟩
    rw [htarget, hexisting, hlooped, ← hs.body]
  · obtain rfl : e = entry := by
      refine eq_of_newSymbol hplan he' he (Option.some.inj ?_)
      rw [← (ScannedTemplate.mem_of_find? hfind).2.2, hsymbol]
    obtain rfl := Option.some.inj (hmapping.symm.trans hs.mapping)
    obtain rfl := Option.some.inj (hbody.symm.trans hs.body)
    obtain rfl : params' = params := by simpa using hparams.symm.trans hs.params
    rw [elidedCall, sense_rewrittenCall hkind hsymbol] at hsense
    obtain ⟨htarget, hexisting, hlooped⟩ := eq_of_sense hsense (by simp [hsymbol']) (by simp [hsymbol])
    refine ⟨.inr htarget, hsense.trans ?_⟩
    rw [htarget, hexisting, hlooped]

/-- The module of an entry is found in the same place of the optimized template. -/
theorem find?_optimized (entry : PlanEntry)
    (hall : List.Forall₂ (fun p s' => Elides catalog template plan p.2 p.1 s') template.statements.zipIdx
      optimized.statements) :
    template.find? .module entry.newSymbol = none ∧ optimized.find? .module entry.newSymbol = none ∨
      ∃ s s' i, template.find? .module entry.newSymbol = some s ∧
        (template.statements.findIdx? fun s => s.kind = .module && s.symbol = some entry.newSymbol) = some i ∧
        optimized.find? .module entry.newSymbol = some s' ∧ Elides catalog template plan i s s' := by
  have hcases := find?_cases hall (p := fun s => s.kind = .module && s.symbol = some entry.newSymbol)
    (q := fun s => s.kind = .module && s.symbol = some entry.newSymbol) fun s i s' h => by
      rw [h.head_eq.1, h.head_eq.2]
  simp only [Nat.zero_add] at hcases
  exact hcases

/-- The module call of an entry is found again with the inputs that are left. -/
theorem HasInputs.exists_left (hs : HasInputs catalog template entry mapping s body params) (he : entry ∈ plan)
    (hplan : plan.Pairwise fun a b => a.newSymbol ≠ b.newSymbol)
    (hall : List.Forall₂ (fun p s' => Elides catalog template plan p.2 p.1 s') template.statements.zipIdx
      optimized.statements) :
    ∃ s', optimized.find? .module entry.newSymbol = some s' ∧
      (s'.target = s.target ∨ s'.target = some entry.module) ∧ s'.sense = Statement.sense
        { s with
          target := s'.target
          body := some (replaceFirst "params" (.object (prune mapping.defaults entry.newSymbol "" params).kept) body)
          existing := s'.existing
          looped := s'.looped } := by
  rcases find?_optimized entry hall with ⟨hnone, -⟩ | ⟨t, s', i, ht, hi, hs', helides⟩
  · rw [hs.statement] at hnone
    cases hnone
  · obtain rfl := Option.some.inj (ht.symm.trans hs.statement)
    exact ⟨s', hs', helides.sense_eq he hplan hi hs⟩

/-- A module call with inputs had inputs before. -/
theorem exists_hasInputs
    (hall : List.Forall₂ (fun p s' => Elides catalog template plan p.2 p.1 s') template.statements.zipIdx
      optimized.statements) (h : HasInputs catalog optimized entry mapping s' body params) :
    ∃ s old inputs, HasInputs catalog template entry mapping s old inputs := by
  rcases find?_optimized entry hall with ⟨-, hnone⟩ | ⟨s, t', i, hs, -, ht', helides⟩
  · rw [h.statement] at hnone
    cases hnone
  · obtain rfl := Option.some.inj (ht'.symm.trans h.statement)
    rcases helides with ⟨-, hsense⟩ | ⟨e, he', -, mapping', old, inputs, hmapping, hfind, hbody, hparams, -⟩
    · have hbody : s.body.map ObjectLiteral.unplaced = some body.unplaced := by
        rw [← show t'.body.map ObjectLiteral.unplaced = s.body.map ObjectLiteral.unplaced from
          congrArg (·.body) hsense, h.body, Option.map_some]
      obtain ⟨old, inputs, hparams, -, -⟩ := exists_params hbody h.params
      rw [paramsOf?_eq_some] at hparams
      exact ⟨s, old, inputs, h.mapping, hs, hparams.1, hparams.2⟩
    · exact ⟨s, old, inputs, h.mapping, hs, hbody, hparams⟩

/-- The module call of an entry is found again, and what it has are the inputs that are left, apart from places. -/
theorem HasInputs.exists_optimized (hs : HasInputs catalog template entry mapping s body params) (he : entry ∈ plan)
    (hplan : plan.Pairwise fun a b => a.newSymbol ≠ b.newSymbol)
    (hall : List.Forall₂ (fun p s' => Elides catalog template plan p.2 p.1 s') template.statements.zipIdx
      optimized.statements) :
    ∃ s' body' left, HasInputs catalog optimized entry mapping s' body' left ∧
      left.unplaced = (prune mapping.defaults entry.newSymbol "" params).kept.unplaced := by
  obtain ⟨s', hs', -, hsense⟩ := hs.exists_left he hplan hall
  have hbody : s'.body.map ObjectLiteral.unplaced = some (replaceFirst "params"
      (.object (prune mapping.defaults entry.newSymbol "" params).kept) body).unplaced := congrArg (·.body) hsense
  obtain ⟨body', left, hleft, -, hsame⟩ := exists_params hbody (get?_replaceFirst _ hs.params)
  obtain ⟨hbody', hparams'⟩ := paramsOf?_eq_some.1 hleft
  exact ⟨s', body', left, ⟨hs.mapping, hs', hbody', hparams'⟩, hsame⟩

/-- What is left of the inputs is read again, apart from places. -/
theorem HasInputs.left_eq (hs : HasInputs catalog template entry mapping s body params) (he : entry ∈ plan)
    (hplan : plan.Pairwise fun a b => a.newSymbol ≠ b.newSymbol)
    (hall : List.Forall₂ (fun p s' => Elides catalog template plan p.2 p.1 s') template.statements.zipIdx
      optimized.statements) {left : ObjectLiteral} {body' : ObjectLiteral}
    (h : HasInputs catalog optimized entry mapping s' body' left) :
    left.unplaced = (prune mapping.defaults entry.newSymbol "" params).kept.unplaced := by
  obtain ⟨t, body'', left', ht, hsame⟩ := hs.exists_optimized he hplan hall
  obtain rfl := Option.some.inj (ht.statement.symm.trans h.statement)
  obtain rfl := Option.some.inj (ht.body.symm.trans h.body)
  obtain rfl := Value.object.inj (Option.some.inj (ht.params.symm.trans h.params))
  exact hsame

end Calls

end BicepMigration.Migration
