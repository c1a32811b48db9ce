import BicepMigration.Proofs.Migration.SoundSlices
import BicepMigration.Proofs.Template.NestedEdits
import BicepMigration.Proofs.Template.UsePlaces

/-!
# References in a migrated text

The edits that migrate a template are nested: references stand apart from one another, and each of them stands in a
statement that becomes a module call or outside all of these. So the text of the transformation can be cut around a
reference. Main statement: outside of module calls what is written for a reference stands between what is made of the
source before it and after it, and in a module call it stands in each part of the old statement that the call takes
over. What is written for a reference that cannot be repaired is the reference.
-/

namespace BicepMigration.Migration

open Catalog Template Text

/-- In the text that is made of a span a part of the span is written in a way: before it comes what is made of the
span up to the part, and after it what is made of the rest. -/
def Puts (edited : EditedText) (span part : Span) (written : String) (text : String) : Prop :=
  text = edited.text ⟨span.start, part.start⟩ ++ written ++ edited.text ⟨part.stop, span.stop⟩

/-- The text of a template with the edits that migrate it. -/
abbrev migratedText (catalog : ModuleCatalog) (template : ScannedTemplate) (analysis : Analysis) : EditedText :=
  .ofEdits template.source (referenceEdits catalog analysis ++ callEdits catalog template analysis)

/-- The transformation writes a text in place of a reference. -/
structure WritesReference (catalog : ModuleCatalog) (template : ScannedTemplate) (analysis : Analysis) (r : SymbolUse)
    (written : String) : Prop where
  /-- Outside the statements of the plan it stands in the text of the transformation. -/
  outside : standsOutside template analysis r = true →
    Puts (migratedText catalog template analysis) ⟨0, template.source.utf8ByteSize⟩ r.span written
      (transform catalog template analysis).text
  /-- In a statement of the plan it stands in each part of the statement that the module call takes over, and the
  module call stands in the text of the transformation. -/
  inside : standsOutside template analysis r = false → ∃ entry ∈ analysis.plan, ∃ call,
    IsCallEdit catalog template analysis entry call ∧ call.span.start ≤ r.span.start ∧ r.span.stop ≤ call.span.stop ∧
      Puts (migratedText catalog template analysis) ⟨0, template.source.utf8ByteSize⟩ call.span call.replacement
        (transform catalog template analysis).text ∧
      ∀ part, IsSpan template.source part → part.start ≤ r.span.start → r.span.stop ≤ part.stop →
        Puts (.ofEdits template.source (referenceEdits catalog analysis)) part r.span written
          ((EditedText.ofEdits template.source (referenceEdits catalog analysis)).text part)

section Apart

variable {catalog : ModuleCatalog} {template : ScannedTemplate} {source : String} {symbols : List String}
  {u r : SymbolUse} {c : Edit}

/-- One name for all uses: where uses stand does not depend on what is written for them. -/
def oneName : Replacements := fun _ => some (nameLexeme "x", [])

theorem useEdit?_oneName (u : SymbolUse) : useEdit? oneName u = some ⟨u.span, "x"⟩ := rfl

/-- Uses stand one after another, and none of them is empty. -/
theorem pairwise_findUses (h : scan source = .ok template) (symbols : List String) :
    (findUses symbols template.tokens).Pairwise (fun u v => u.span.stop ≤ v.span.start) ∧
      ∀ u ∈ findUses symbols template.tokens, u.span.start < u.span.stop := by
  obtain ⟨l, -, -, htokens, -⟩ := exists_layout h
  have hpairs := pairwise_editsFrom l.start.offset (useChanges symbols oneName [] l.start l.lexemes)
  have hpos (e : Edit) := @start_lt_stop_of_mem_editsFrom e l.start.offset (useChanges symbols oneName [] l.start l.lexemes)
    (by rw [olds_useChanges]; exact l.legible.forall_ne_nil)
  rw [editsFrom_useChanges] at hpairs hpos
  rw [htokens]
  refine ⟨(List.pairwise_filterMap.1 hpairs).imp fun {u v} huv => huv _ (useEdit?_oneName u) _ (useEdit?_oneName v),
    fun u hu => hpos _ (List.mem_filterMap.2 ⟨u, hu, useEdit?_oneName u⟩)⟩

/-- References stand apart from one another. -/
theorem apart_of_mem_references (h : scan source = .ok template) (hu : u ∈ (analyze catalog template).references)
    (hr : r ∈ (analyze catalog template).references) (hne : u ≠ r) :
    u.span.stop ≤ r.span.start ∨ r.span.stop ≤ u.span.start := by
  have : Std.Symm fun u v : SymbolUse => u.span.stop ≤ v.span.start ∨ v.span.stop ≤ u.span.start := ⟨fun _ _ => Or.symm⟩
  have hpairs : (findUses ((analyze catalog template).plan.map (·.symbol)) template.tokens).Pairwise fun u v =>
      u.span.stop ≤ v.span.start ∨ v.span.stop ≤ u.span.start := (pairwise_findUses h _).1.imp .inl
  exact hpairs.forall (List.mem_filter.1 hu).1 (List.mem_filter.1 hr).1 hne

/-- The statements of the plan stand apart from one another, and a reference stands outside each of them or in it. -/
theorem apart_callEdits (h : scan source = .ok template) (catalog : ModuleCatalog) :
    ((callEdits catalog template (analyze catalog template)).Pairwise fun a b =>
        a.span.stop ≤ b.span.start ∨ b.span.stop ≤ a.span.start) ∧
      (∀ c ∈ callEdits catalog template (analyze catalog template), c.span.start < c.span.stop) ∧
      ∀ c ∈ callEdits catalog template (analyze catalog template), ∀ r ∈ (analyze catalog template).references,
        r.span.stop ≤ c.span.start ∨ c.span.stop ≤ r.span.start ∨
          c.span.start ≤ r.span.start ∧ r.span.stop ≤ c.span.stop := by
  obtain ⟨block, hblock⟩ := exists_block catalog template
  obtain ⟨l, cs, -, -, -, -, hframes⟩ := exists_rewritten h hblock oneName
  refine ⟨hframes.apart, fun c hc => (hframes.bounds c hc).2.1, fun c hc r hr => ?_⟩
  exact hframes.apart_or_within hc (List.mem_filterMap.2 ⟨r, (List.mem_filter.1 hr).1, useEdit?_oneName r⟩)

/-- The edits that migrate a template are nested. -/
theorem areNested_migration (h : scan source = .ok template) (catalog : ModuleCatalog) :
    AreNested template.source (referenceEdits catalog (analyze catalog template) ++
      callEdits catalog template (analyze catalog template)) := by
  obtain ⟨block, hblock⟩ := exists_block catalog template
  obtain ⟨l, cs, hm⟩ := exists_migrates h block hblock
  have hpos : ∀ e ∈ referenceEdits catalog (analyze catalog template), e.span.start < e.span.stop := by
    intro e he
    obtain ⟨u, hu, hspan⟩ := span_of_mem_referenceEdits he
    rw [hspan]
    exact (pairwise_findUses h _).2 u (List.mem_filter.1 hu).1
  have hpairs : (referenceEdits catalog (analyze catalog template)).Pairwise fun a b => a.span.stop ≤ b.span.start := by
    rw [referenceEdits, List.filterMap_filterMap, List.pairwise_filterMap]
    refine ((pairwise_findUses h _).1.sublist List.filter_sublist).imp fun {u v} huv a ha b hb => ?_
    obtain ⟨_, rfl⟩ := exists_replacement ha
    obtain ⟨_, rfl⟩ := exists_replacement hb
    exact huv
  refine ⟨fun e he => ?_, (soundTransform h).edits, hm.frames.nests hpairs hpos⟩
  exact (List.mem_append.1 he).elim (hpos e) fun hc => (hm.frames.bounds e hc).2.1

end Apart

section Written

variable {catalog : ModuleCatalog} {template : ScannedTemplate} {source : String} {e : PlanEntry} {mapping : Mapping}
  {r : SymbolUse}

/-- A reference is a use of a planned symbol, so it has a plan entry and a mapping. -/
theorem exists_entry_of_mem_references (hr : r ∈ (analyze catalog template).references) :
    r ∈ findUses ((analyze catalog template).plan.map (·.symbol)) template.tokens ∧
      ∃ e mapping, Analysis.entry? (analyze catalog template) r.symbol = some e ∧ e ∈ (analyze catalog template).plan ∧
        catalog.mapping? e.mappingIndex = some mapping := by
  have hfound : r ∈ findUses ((analyze catalog template).plan.map (·.symbol)) template.tokens :=
    (List.mem_filter.1 hr).1
  obtain ⟨before, t, after, -, -, hsymbol, rfl⟩ := exists_place_of_mem_findUses hfound
  obtain ⟨p, hp, hpsymbol⟩ := List.mem_map.1 hsymbol
  obtain ⟨e, hentry⟩ : ∃ e, Analysis.entry? (analyze catalog template) t.text = some e :=
    Option.isSome_iff_exists.1 (List.find?_isSome.2 ⟨p, hp, decide_eq_true hpsymbol⟩)
  have he := List.mem_of_find?_eq_some hentry
  obtain ⟨_, _, mapping, -, -, hj, -⟩ := (planned_analyze catalog template).exists_judged he
  exact ⟨hfound, e, mapping, hentry, he, hj.mapping⟩

/-- The edit of a reference is the one that is made for it, and not one that is made for another one. -/
theorem mem_referenceEdits_iff (h : scan source = .ok template) (hr : r ∈ (analyze catalog template).references)
    (hentry : Analysis.entry? (analyze catalog template) r.symbol = some e)
    (hm : catalog.mapping? e.mappingIndex = some mapping) (text : String) :
    ⟨r.span, text⟩ ∈ referenceEdits catalog (analyze catalog template) ↔
      repair? mapping.outputs e.newSymbol r = some text := by
  unfold referenceEdits
  rw [List.filterMap_filterMap, List.mem_filterMap]
  constructor
  · rintro ⟨u, hu, hedit⟩
    obtain ⟨-, e', mapping', hentry', -, hm'⟩ := exists_entry_of_mem_references hu
    rw [repairEdit?_eq hentry' hm', Option.bind_some] at hedit
    cases hrepair : repair? mapping'.outputs e'.newSymbol u with
    | none =>
      rw [hrepair] at hedit
      cases hedit
    | some written =>
      rw [hrepair] at hedit
      obtain ⟨hspan, rfl⟩ := Edit.mk.inj (Option.some.inj hedit)
      obtain rfl : u = r := use_eq_of_start h (exists_entry_of_mem_references hu).1
        (exists_entry_of_mem_references hr).1 (congrArg (·.start) hspan)
      obtain rfl := Option.some.inj (hentry'.symm.trans hentry)
      obtain rfl := Option.some.inj (hm'.symm.trans hm)
      exact hrepair
  · intro hrepair
    refine ⟨r, hr, ?_⟩
    rw [repairEdit?_eq hentry hm, hrepair]
    rfl

/-- What is written for a reference: its repair, or the reference itself. -/
def writtenFor (template : ScannedTemplate) (e : PlanEntry) (mapping : Mapping) (r : SymbolUse) : String :=
  (repair? mapping.outputs e.newSymbol r).getD (slice template.source r.span)

/-- An edit that a reference stands apart from does not lie in it, and no end of the reference lies in the edit. -/
theorem clears_of_apart {edit : Edit} {span : Span} (hs : span.start ≤ span.stop)
    (h : edit.span.stop ≤ span.start ∨ span.stop ≤ edit.span.start) :
    edit.Clears span.start ∧ edit.Clears span.stop := by
  unfold Edit.Clears
  omega

/-- The edits of references clear the ends of a reference. -/
theorem clears_referenceEdits (h : scan source = .ok template) (hr : r ∈ (analyze catalog template).references)
    {edit : Edit} (hedit : edit ∈ referenceEdits catalog (analyze catalog template)) :
    edit.Clears r.span.start ∧ edit.Clears r.span.stop := by
  obtain ⟨u, hu, hspan⟩ := span_of_mem_referenceEdits hedit
  have hlt := (pairwise_findUses h _).2 r (List.mem_filter.1 hr).1
  by_cases hur : u = r
  · subst hur
    exact ⟨.inr (Nat.le_of_eq (congrArg Span.start hspan.symm)), .inl (Nat.le_of_eq (congrArg Span.stop hspan))⟩
  · exact clears_of_apart (Nat.le_of_lt hlt) (by rw [hspan]; exact apart_of_mem_references h hu hr hur)

/-- Among edits that the reference stands apart from, and those of references, its text is what is written for it. -/
theorem text_span_eq (h : scan source = .ok template) (hr : r ∈ (analyze catalog template).references)
    (hentry : Analysis.entry? (analyze catalog template) r.symbol = some e)
    (hm : catalog.mapping? e.mappingIndex = some mapping) {others : List Edit}
    (hn : AreNested template.source (referenceEdits catalog (analyze catalog template) ++ others))
    (ho : ∀ o ∈ others, o.span.stop ≤ r.span.start ∨ r.span.stop ≤ o.span.start) :
    (EditedText.ofEdits template.source (referenceEdits catalog (analyze catalog template) ++ others)).text r.span =
      writtenFor template e mapping r := by
  unfold writtenFor
  cases hrepair : repair? mapping.outputs e.newSymbol r with
  | some text =>
    have hmem := (mem_referenceEdits_iff h hr hentry hm text).2 hrepair
    exact hn.text_of_mem (List.mem_append_left others hmem)
  | none =>
    refine text_of_not_within fun edit hedit hwithin => ?_
    have hlt := hn.start_lt_stop edit hedit
    have hapart : edit.span.stop ≤ r.span.start ∨ r.span.stop ≤ edit.span.start := by
      rcases List.mem_append.1 hedit with hedit | hedit
      · obtain ⟨u, hu, hspan⟩ := span_of_mem_referenceEdits hedit
        by_cases hur : u = r
        · -- the reference has no edit
          subst hur
          have hmem : ⟨u.span, edit.replacement⟩ ∈ referenceEdits catalog (analyze catalog template) := hspan ▸ hedit
          rw [mem_referenceEdits_iff h hr hentry hm, hrepair] at hmem
          cases hmem
        · rw [hspan]
          exact apart_of_mem_references h hu hr hur
      · exact ho edit hedit
    simp only [Edit.Within] at hwithin
    omega

/-- The text of the transformation with a part cut out that no edit crosses. -/
theorem puts_transform (h : scan source = .ok template) (catalog : ModuleCatalog) {part : Span}
    (hp : IsSpan template.source part)
    (hclear : ∀ edit ∈ referenceEdits catalog (analyze catalog template) ++
      callEdits catalog template (analyze catalog template), edit.Clears part.start ∧ edit.Clears part.stop) :
    Puts (migratedText catalog template (analyze catalog template)) ⟨0, template.source.utf8ByteSize⟩ part
      ((migratedText catalog template (analyze catalog template)).text part)
      (transform catalog template (analyze catalog template)).text := by
  have hstop : part.stop ≤ template.source.utf8ByteSize := hp.stop_le
  exact (areNested_migration h catalog).text_around (isSpan_whole _) hp (Nat.zero_le _) hstop hclear

/-- The transformation writes a repair in place of each reference that has one, and copies the others. -/
theorem writesReference (h : scan source = .ok template) (hr : r ∈ (analyze catalog template).references)
    (hentry : Analysis.entry? (analyze catalog template) r.symbol = some e)
    (hm : catalog.mapping? e.mappingIndex = some mapping) :
    WritesReference catalog template (analyze catalog template) r (writtenFor template e mapping r) := by
  have hn := areNested_migration h catalog
  obtain ⟨happart, hpos, hin⟩ := apart_callEdits h catalog
  have hspan : IsSpan template.source r.span :=
    (soundScan h).spans _ ((soundTransform h).references r hr)
  refine ⟨fun hout => ?_, fun hout => ?_⟩
  · -- the statements of the plan stand apart from the reference
    have hcalls : ∀ c ∈ callEdits catalog template (analyze catalog template),
        c.span.stop ≤ r.span.start ∨ r.span.stop ≤ c.span.start := fun c hc => by
      have hall := outside_eq_true_iff.1 ((outside_callEdits r "").trans hout) c hc
      exact hall.symm
    rw [← text_span_eq h hr hentry hm hn hcalls]
    refine puts_transform h catalog hspan fun edit hedit => ?_
    rcases List.mem_append.1 hedit with hedit | hedit
    · exact clears_referenceEdits h hr hedit
    · exact clears_of_apart hspan.start_le (hcalls edit hedit)
  · obtain ⟨entry, he, hcross⟩ : ∃ entry ∈ (analyze catalog template).plan,
        ((template.statements[entry.statementIndex]?).all fun s =>
          r.span.stop ≤ s.span.start || s.span.stop ≤ r.span.start) = false := by
      simpa [standsOutside] using hout
    obtain ⟨call, hcall, hform⟩ := exists_callEdit he
    have hc : call ∈ callEdits catalog template (analyze catalog template) := List.mem_filterMap.2 ⟨entry, he, hcall⟩
    have hwithin : call.span.start ≤ r.span.start ∧ r.span.stop ≤ call.span.stop := by
      obtain ⟨s, _, _, hs, -, -, rfl⟩ := hform
      rw [hs, Option.all_some, Bool.or_eq_false_iff, decide_eq_false_iff_not, decide_eq_false_iff_not] at hcross
      exact ((hin _ hc r hr).resolve_left hcross.1).resolve_left hcross.2
    refine ⟨entry, he, call, hform, hwithin.1, hwithin.2, ?_, fun part hpart hstart hstop => ?_⟩
    · rw [← hn.text_of_mem (List.mem_append_right _ hc)]
      have hcallSpan : IsSpan template.source call.span := hn.isSpan call (List.mem_append_right _ hc)
      refine puts_transform h catalog hcallSpan fun edit hedit => ?_
      rcases List.mem_append.1 hedit with hedit | hedit
      · obtain ⟨u, hu, hspan⟩ := span_of_mem_referenceEdits hedit
        have hplace := hin call hc u hu
        rw [← hspan] at hplace
        have hle := hcallSpan.start_le
        unfold Edit.Clears
        omega
      · by_cases hedit' : edit = call
        · subst hedit'
          exact ⟨.inr (Nat.le_refl _), .inl (Nat.le_refl _)⟩
        · have : Std.Symm fun a b : Edit => a.span.stop ≤ b.span.start ∨ b.span.stop ≤ a.span.start :=
            ⟨fun _ _ => Or.symm⟩
          exact clears_of_apart hcallSpan.start_le (happart.forall hedit hc hedit')
    · -- the references in the statement are repaired on their own
      have hrepairs := hn.sublist (List.sublist_append_left (referenceEdits catalog (analyze catalog template)) _)
      have hwritten := @text_span_eq _ _ _ _ _ _ h hr hentry hm [] (by rwa [List.append_nil]) (by simp)
      rw [List.append_nil] at hwritten
      rw [← hwritten]
      exact hrepairs.text_around hpart hspan hstart hstop fun edit hedit => clears_referenceEdits h hr hedit

end Written

end BicepMigration.Migration
