import BicepMigration.Migration.Transformation
import BicepMigration.Proofs.Migration.Planned
import BicepMigration.Proofs.Template.Rewriting

/-!
# The text of a migrated template

The transformation changes lexemes: planned statements are written anew, and references that can be repaired are
exchanged for names joined by points. The text it makes is that of the lexemes after these changes. What the
module calls look like is left open here.
-/

namespace BicepMigration.Migration

open Catalog Template

/-- Names as members. -/
def memberLexemes : List String → List Lexeme
  | [] => []
  | name :: names => ⟨[], .dot, ['.']⟩ :: nameLexeme name :: memberLexemes names

/-- Names joined by points are a name and its members. -/
theorem ofList_bare_names (name : String) (names : List String) :
    String.ofList (bare (nameLexeme name :: memberLexemes names)) = ".".intercalate (name :: names) := by
  induction names generalizing name with
  | nil => simp [memberLexemes, nameLexeme]
  | cons next names ih =>
    rw [String.intercalate_cons_cons, ← ih]
    rw [← String.toList_inj]
    simp [memberLexemes, nameLexeme]

/-- The names that are written in place of a use, if there are any. -/
def repairNames? (outputs : List (String × String)) (newSymbol : String) (use : SymbolUse) :
    Option (String × List String) :=
  if use.path.isEmpty then if use.dependsOn then some (newSymbol, []) else none
  else
    (longestOutput? outputs use.path use.path.length).map fun (output, rest) =>
      (newSymbol, "outputs" :: output :: rest)

/-- A reference is repaired to names with points between them. -/
theorem repair?_eq (outputs : List (String × String)) (newSymbol : String) (use : SymbolUse) :
    repair? outputs newSymbol use =
      (repairNames? outputs newSymbol use).map fun (name, names) => ".".intercalate (name :: names) := by
  have haccess (output : String) (rest : List String) : ".".intercalate (outputAccess newSymbol output :: rest) =
      ".".intercalate (newSymbol :: "outputs" :: output :: rest) := by
    rw [String.intercalate_cons_cons, String.intercalate_cons_cons]
    cases rest with
    | nil =>
      rw [String.intercalate_singleton, String.intercalate_singleton, outputAccess]
      rw [← String.toList_inj]
      simp
    | cons next rest =>
      rw [String.intercalate_cons_cons, String.intercalate_cons_cons, outputAccess]
      rw [← String.toList_inj]
      simp
  unfold repair? repairNames?
  split
  · split
    · simp
    · rfl
  · rw [Option.map_map]
    congr 1
    funext r
    exact haccess r.1 r.2

/-- What is written in place of a use of a planned symbol: nothing inside the declaration of that symbol. -/
def repairLexemes? (catalog : ModuleCatalog) (statements : List Statement) (analysis : Analysis) : Replacements :=
  fun use =>
    if analysis.plan.any fun entry => entry.declares statements use then none
    else do
      let entry ← analysis.entry? use.symbol
      let mapping ← catalog.mapping? entry.mappingIndex
      let (name, names) ← repairNames? mapping.outputs entry.newSymbol use
      some (nameLexeme name, memberLexemes names)

section Repairs

variable {catalog : ModuleCatalog} {analysis : Analysis} {use : SymbolUse} {e : PlanEntry} {mapping : Mapping}

/-- An edit or an error is made from what is written for the use. -/
theorem repairEdit?_eq (hentry : analysis.entry? use.symbol = some e)
    (hm : catalog.mapping? e.mappingIndex = some mapping) : repairEdit? catalog analysis use =
      some (match repair? mapping.outputs e.newSymbol use with
        | some text => .ok ⟨use.span, text⟩
        | none => .error (unresolvedError e use)) := by
  rw [repairEdit?, hentry]
  simp only [Option.bind_eq_bind, Option.bind_some, hm]
  cases repair? mapping.outputs e.newSymbol use <;> rfl

/-- What becomes of a use that is planned is an edit of its span, or the error that nothing can be written for it. -/
theorem repairEdit?_cases {outcome : Except Diagnostic Edit} (h : repairEdit? catalog analysis use = some outcome) :
    ∃ e mapping, analysis.entry? use.symbol = some e ∧ catalog.mapping? e.mappingIndex = some mapping ∧
      ((∃ text, repair? mapping.outputs e.newSymbol use = some text ∧ outcome = .ok ⟨use.span, text⟩) ∨
        repair? mapping.outputs e.newSymbol use = none ∧ outcome = .error (unresolvedError e use)) := by
  obtain ⟨e, hentry, hmapping⟩ := Option.bind_eq_some_iff.1 h
  obtain ⟨mapping, hm, -⟩ := Option.bind_eq_some_iff.1 hmapping
  refine ⟨e, mapping, hentry, hm, ?_⟩
  rw [repairEdit?_eq hentry hm, Option.some.injEq] at h
  cases hrepair : repair? mapping.outputs e.newSymbol use with
  | some text => exact .inl ⟨text, rfl, by rw [← h, hrepair]⟩
  | none => exact .inr ⟨rfl, by rw [← h, hrepair]⟩

end Repairs

/-- The edits that repair references. -/
def referenceEdits (catalog : ModuleCatalog) (analysis : Analysis) : List Edit :=
  (analysis.references.filterMap (repairEdit? catalog analysis)).filterMap edit?

/-- The edits of references are those of the uses that are replaced. -/
theorem referenceEdits_analyze (catalog : ModuleCatalog) (template : ScannedTemplate) :
    referenceEdits catalog (analyze catalog template) =
      (findUses ((analyze catalog template).plan.map (·.symbol)) template.tokens).filterMap
        (useEdit? (repairLexemes? catalog template.statements (analyze catalog template))) := by
  have hrefs : (analyze catalog template).references =
      (findUses ((analyze catalog template).plan.map (·.symbol)) template.tokens).filter fun use =>
        !(analyze catalog template).plan.any fun entry => entry.declares template.statements use := rfl
  rw [referenceEdits, hrefs, List.filterMap_filterMap, List.filterMap_filter]
  refine congrArg (List.filterMap · _) (funext fun use => ?_)
  rw [useEdit?, repairLexemes?]
  by_cases hd : ((analyze catalog template).plan.any fun entry => entry.declares template.statements use) = true
  · simp [hd]
  · rw [if_neg hd, if_pos (by simpa using hd), repairEdit?]
    cases Analysis.entry? (analyze catalog template) use.symbol with
    | none => rfl
    | some entry =>
      simp only [Option.bind_eq_bind, Option.bind_some]
      cases catalog.mapping? entry.mappingIndex with
      | none => rfl
      | some mapping =>
        simp only [Option.bind_some, repair?_eq]
        cases repairNames? mapping.outputs entry.newSymbol use with
        | none => rfl
        | some names =>
          simp only [Option.map_some, Option.bind_some, edit?]
          rw [ofList_bare_names]

/-- The statements of a plan, with the lexemes that are written for each entry. -/
def planPicks (plan : List PlanEntry) (block : PlanEntry → Lexeme × List Lexeme) : Picks := fun index =>
  (plan.find? (·.statementIndex = index)).map block

/-- Only the picks from an index on count for the statements from there on. -/
theorem pickedEdits_congr {pick pick' : Picks} {index : Nat} (ss : List Statement)
    (h : ∀ i, index ≤ i → pick i = pick' i) : pickedEdits pick index ss = pickedEdits pick' index ss := by
  induction ss generalizing index with
  | nil => rfl
  | cons s ss ih =>
    rw [pickedEdits, pickedEdits, h index (Nat.le_refl _), ih fun i hi => h i (by omega)]

/-- Behind its statement a plan entry picks nothing. -/
theorem planPicks_cons_of_lt {e : PlanEntry} {plan : List PlanEntry} {block : PlanEntry → Lexeme × List Lexeme}
    {i : Nat} (h : e.statementIndex < i) : planPicks (e :: plan) block i = planPicks plan block i := by
  have hne : ¬ e.statementIndex = i := by omega
  simp [planPicks, hne]

/-- Before the first statement of a plan nothing is picked. -/
theorem planPicks_eq_none {plan : List PlanEntry} {block : PlanEntry → Lexeme × List Lexeme} {i : Nat}
    (h : ∀ e ∈ plan, i < e.statementIndex) : planPicks plan block i = none := by
  have hn : plan.find? (·.statementIndex = i) = none := by
    refine List.find?_eq_none.2 fun e he hi => ?_
    have hlt := h e he
    have heq : e.statementIndex = i := by simpa using hi
    omega
  simp [planPicks, hn]

section Blocks

variable {catalog : ModuleCatalog} {template : ScannedTemplate} {edited : EditedText}
  {block : PlanEntry → Lexeme × List Lexeme}

/-- The edits that write module calls are those of the statements of the plan. -/
theorem Planned.pickedEdits_eq {taken : List String} {index : Nat} {ss : List Statement} {plan : List PlanEntry}
    (h : Planned catalog taken index ss plan) (hs : ∀ i s, ss[i]? = some s → template.statements[index + i]? = some s)
    (hb : ∀ e ∈ plan, ∀ edit, replacementEdit? catalog template edited e = some edit →
      edit.replacement = String.ofList (bare ((block e).1 :: (block e).2))) :
    pickedEdits (planPicks plan block) index ss = plan.filterMap (replacementEdit? catalog template edited) := by
  induction h with
  | done => rfl
  | @skip taken index s rest plan hrest ih =>
    have hnone : planPicks plan block index = none := planPicks_eq_none fun e he => by
      obtain ⟨_, _, _, hle, -⟩ := hrest.exists_judged he
      exact hle
    rw [pickedEdits, hnone]
    exact ih (fun i t ht => by rw [Nat.add_right_comm]; exact hs (i + 1) t ht) hb
  | @entry taken index s rest plan symbol type version body mappingIndex mapping hj hrest ih =>
    generalize he : entryFor taken index symbol type version body mappingIndex mapping = e at hb
    have hindex : e.statementIndex = index := by rw [← he]; rfl
    have hmappingIndex : e.mappingIndex = mappingIndex := by rw [← he]; rfl
    have hedit : replacementEdit? catalog template edited e =
        some ⟨s.span, (moduleCall edited e mapping s body).render edited⟩ := by
      have hstatement : template.statements[e.statementIndex]? = some s := by
        rw [hindex]
        exact hs 0 s rfl
      rw [replacementEdit?, hstatement, hmappingIndex]
      simp only [Option.bind_eq_bind, Option.bind_some, hj.body, hj.mapping]
    have hfind : planPicks (e :: plan) block index = some (block e) := by
      simp [planPicks, hindex]
    have hothers := (@pickedEdits_congr (planPicks (e :: plan) block) (planPicks plan block) (index + 1)) rest
      fun i hi => planPicks_cons_of_lt (by omega)
    have htext := hb e (List.mem_cons_self ..) _ hedit
    rw [pickedEdits, hfind, hothers, List.filterMap_cons, hedit,
      ih (fun i t ht => by rw [Nat.add_right_comm]; exact hs (i + 1) t ht)
        fun e' he' => hb e' (List.mem_cons_of_mem _ he')]
    simp only at htext
    rw [htext]
    rfl

/-- Only statements with a body become module calls. -/
theorem Planned.body_of_planPicks {taken : List String} {ss : List Statement} {plan : List PlanEntry}
    (h : Planned catalog taken 0 ss plan) (i : Nat) (s : Statement) (hs : ss[i]? = some s)
    (hp : (planPicks plan block i).isSome) : s.body.isSome := by
  rw [planPicks, Option.isSome_map, List.find?_isSome] at hp
  obtain ⟨e, he, hi⟩ := hp
  obtain ⟨t, body, mapping, -, ht, hj, -⟩ := h.exists_judged he
  have hindex : e.statementIndex = i := by simpa using hi
  rw [Nat.sub_zero, hindex, hs] at ht
  rw [Option.some.inj ht, hj.body]
  rfl

end Blocks

/-- The edits that write module calls in place of planned resources. -/
def callEdits (catalog : ModuleCatalog) (template : ScannedTemplate) (analysis : Analysis) : List Edit :=
  analysis.plan.filterMap
    (replacementEdit? catalog template (.ofEdits template.source (referenceEdits catalog analysis)))

/-- The migrated text is the source with the edits of references and of calls. -/
theorem transform_text (catalog : ModuleCatalog) (template : ScannedTemplate) (analysis : Analysis) :
    (transform catalog template analysis).text = (EditedText.ofEdits template.source
      (referenceEdits catalog analysis ++ callEdits catalog template analysis)).apply := rfl

/-- A template that was scanned has a layout, and its statements are read from it. -/
theorem exists_layout {source : String} {template : ScannedTemplate} (h : scan source = .ok template) :
    ∃ l : Layout, template.source = source ∧ source.toList = l.chars ∧ template.tokens = l.tokens ∧
      Pieces source l.start l.lexemes template.statements := by
  obtain ⟨l, hl, rfl⟩ := scan_eq_ok_iff.1 h
  exact ⟨l, rfl, hl, rfl, pieces_readStatements source l.balanced⟩

/-- A template that was scanned has the text that it was scanned from. -/
theorem source_of_scan {source : String} {template : ScannedTemplate} (h : scan source = .ok template) :
    template.source = source :=
  let ⟨_, hsource, _⟩ := exists_layout h
  hsource

/-- A template with the lexemes that its plan writes for module calls: its layout, and the changes that migrate
it. -/
structure Migrates (catalog : ModuleCatalog) (template : ScannedTemplate) (block : PlanEntry → Lexeme × List Lexeme)
    (l : Layout) (cs : List Change) : Prop where
  source : template.source.toList = l.chars
  tokens : template.tokens = l.tokens
  rewrites : Rewrites template.source ((analyze catalog template).plan.map (·.symbol))
    (repairLexemes? catalog template.statements (analyze catalog template))
    (planPicks (analyze catalog template).plan block) 0 [] l.start l.lexemes template.statements cs
  frames : Frames (callEdits catalog template (analyze catalog template))
    (referenceEdits catalog (analyze catalog template)) l.start.offset l.lexemes cs
  text : (transform catalog template (analyze catalog template)).text.toList =
    l.mark ++ (written (news cs) ++ l.tail)

section Migrated

variable {catalog : ModuleCatalog} {source : String} {template : ScannedTemplate}
  {block : PlanEntry → Lexeme × List Lexeme}

/-- Any lexeme with the text of a module call can be written for it. -/
theorem exists_block (catalog : ModuleCatalog) (template : ScannedTemplate) :
    ∃ block : PlanEntry → Lexeme × List Lexeme, ∀ e ∈ (analyze catalog template).plan, ∀ edit,
      replacementEdit? catalog template
        (.ofEdits template.source (referenceEdits catalog (analyze catalog template))) e = some edit →
      edit.replacement = String.ofList (bare ((block e).1 :: (block e).2)) := by
  refine ⟨fun e => (⟨[], .operator, ((replacementEdit? catalog template (.ofEdits template.source
    (referenceEdits catalog (analyze catalog template))) e).elim "" (·.replacement)).toList⟩, []), fun e _ edit he => ?_⟩
  simp [he]

/-- Planned statements are written anew and uses are replaced, whatever is written for the uses. -/
theorem exists_rewritten (h : scan source = .ok template)
    (hb : ∀ e ∈ (analyze catalog template).plan, ∀ edit,
      replacementEdit? catalog template
        (.ofEdits template.source (referenceEdits catalog (analyze catalog template))) e = some edit →
      edit.replacement = String.ofList (bare ((block e).1 :: (block e).2))) (replace : Replacements) :
    ∃ (l : Layout) (cs : List Change), template.source.toList = l.chars ∧ template.tokens = l.tokens ∧
      pickedEdits (planPicks (analyze catalog template).plan block) 0 template.statements =
        callEdits catalog template (analyze catalog template) ∧
      Rewrites template.source ((analyze catalog template).plan.map (·.symbol)) replace
        (planPicks (analyze catalog template).plan block) 0 [] l.start l.lexemes template.statements cs ∧
      Frames (callEdits catalog template (analyze catalog template))
        ((findUses ((analyze catalog template).plan.map (·.symbol)) template.tokens).filterMap (useEdit? replace))
        l.start.offset l.lexemes cs := by
  obtain ⟨l, hsource, hchars, htokens, hpieces⟩ := exists_layout h
  rw [← hsource] at hchars hpieces
  have hplanned := planned_analyze catalog template
  obtain ⟨cs, hrewrites⟩ := (@exists_rewrites _ ((analyze catalog template).plan.map (·.symbol)) replace
    (planPicks (analyze catalog template).plan block)) hpieces 0 [] fun i s hs hp =>
      hplanned.body_of_planPicks i s hs (by rwa [Nat.zero_add] at hp)
  have hblocks : pickedEdits (planPicks (analyze catalog template).plan block) 0 template.statements =
      callEdits catalog template (analyze catalog template) :=
    hplanned.pickedEdits_eq (fun i s hs => by rwa [Nat.zero_add]) hb
  have hframes := hrewrites.frames l.legible.forall_ne_nil
  rw [hblocks, editsFrom_useChanges] at hframes
  rw [htokens]
  exact ⟨l, cs, hchars, rfl, hblocks, hrewrites, hframes⟩

/-- The text of a migrated template is that of its lexemes after the changes of planned statements and uses. -/
theorem exists_migrates (h : scan source = .ok template) (block : PlanEntry → Lexeme × List Lexeme)
    (hb : ∀ e ∈ (analyze catalog template).plan, ∀ edit,
      replacementEdit? catalog template
        (.ofEdits template.source (referenceEdits catalog (analyze catalog template))) e = some edit →
      edit.replacement = String.ofList (bare ((block e).1 :: (block e).2))) :
    ∃ l cs, Migrates catalog template block l cs := by
  obtain ⟨l, cs, hchars, htokens, hblocks, hrewrites, hframes⟩ := exists_rewritten h hb
    (repairLexemes? catalog template.statements (analyze catalog template))
  have huses : editsFrom l.start.offset (useChanges ((analyze catalog template).plan.map (·.symbol))
      (repairLexemes? catalog template.statements (analyze catalog template)) [] l.start l.lexemes) =
      referenceEdits catalog (analyze catalog template) := by
    rw [editsFrom_useChanges, referenceEdits_analyze, htokens]
    rfl
  rw [← referenceEdits_analyze] at hframes
  refine ⟨l, cs, hchars, htokens, hrewrites, hframes, ?_⟩
  rw [transform_text]
  refine hrewrites.toList_apply hchars fun e => ?_
  rw [huses, hblocks, List.mem_append]

end Migrated

end BicepMigration.Migration
