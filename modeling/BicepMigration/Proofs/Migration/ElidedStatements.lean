import BicepMigration.Proofs.Migration.ElidedText
import BicepMigration.Proofs.Migration.Pruned
import BicepMigration.Proofs.Template.CallReadBack

/-!
# The statements of an optimized template

An optimized text has the statements of its template. A module call from which inputs were removed says what is written
in its place; every other statement says the same as before. So the module calls of a plan are found again, with the
inputs that are left, and removing defaults once more changes nothing.
-/

namespace BicepMigration.Migration

open Catalog Template Text

variable {catalog : ModuleCatalog} {template : ScannedTemplate} {l : Layout} {plan : List PlanEntry}

/-- Without edits, scalars that were read from a template are read again from what is written for them. -/
theorem every_rereads (hs : template.source.toList = l.chars) (ht : template.tokens = l.tokens) {leaves : Leaves}
    {v : Value} (hv : v.Every (IsRead template.source template.tokens))
    (hshow : leaves.Show (.unedited template.source) v) : v.Every (Rereads leaves) := by
  induction hv with
  | @scalar v hscalar hread =>
    refine .scalar hscalar ?_
    have hholds := hread.holds hscalar
    rw [ht] at hread
    cases hspelling : v.spelling? with
    | none => exact rereads_word hscalar hspelling
    | some text =>
      intro depth source w hw
      refine hread.rereads hs hscalar hspelling ?_ hw
      have hwritten : ∀ f, IsCut template.source template.tokens IsElement f → f.raw = text →
          IsLeaf ((EditedText.unedited template.source).fragment f) (leaves.fragment f) →
          IsLeaf text (leaves.fragment f) := by
        rintro f hcut rfl hleaf
        rwa [fragment_unedited hcut] at hleaf
      cases hholds with
      | string hcut | interpolated hcut | expression hcut =>
        cases hshow
        rw [Leaves.value]
        exact hwritten _ hcut (Option.some.inj hspelling) ‹_›
      | number _ =>
        cases hshow
        obtain rfl := Option.some.inj hspelling
        rw [Leaves.value]
        assumption
      | bool | null => cases hspelling
      | object | array => cases hscalar
  | object hk _ ih =>
    cases hshow with
    | object _ hshow => exact .object hk fun p hp => ih p hp (hshow p hp)
  | array _ ih =>
    cases hshow with
    | array hshow => exact .array fun v hv => ih v hv (hshow v hv)

/-- Without edits, every entry of a body that was read from a template is read again. -/
theorem rereads_of_mem (hs : template.source.toList = l.chars) (ht : template.tokens = l.tokens) {leaves : Leaves}
    {body : ObjectLiteral} (hbody : (Value.object body).Every (IsRead template.source template.tokens))
    (hshow : leaves.Show (.unedited template.source) (.object body)) : ∀ p ∈ body, Rereads leaves p.value := by
  have hevery := every_rereads hs ht hbody hshow
  cases hshow with
  | object _ hvalues => exact fun p hp => rereads_of_every (every_object_iff.1 hevery p hp).2 (hvalues p hp)

/-- What becomes of a statement when defaults are removed: the module call of an entry says what is written for it, and
every other statement says the same. -/
def Elides (catalog : ModuleCatalog) (template : ScannedTemplate) (plan : List PlanEntry) (i : Nat)
    (s s' : Statement) : Prop :=
  (∀ e ∈ plan, elidedIndex? catalog template e ≠ some i) ∧ s'.sense = s.sense ∨
    ∃ e ∈ plan, elidedIndex? catalog template e = some i ∧ ∃ mapping body params,
      catalog.mapping? e.mappingIndex = some mapping ∧ template.find? .module e.newSymbol = some s ∧
      s.body = some body ∧ ObjectLiteral.get? body "params" = some (.object params) ∧
      s'.sense = (elidedCall e mapping s body params).sense

/-- A run of lexemes that are kept stays as it is. -/
theorem news_of_infix_kept {run : List Change} {ls : List Lexeme} (h : run <:+: kept ls) : news run = olds run := by
  have hkeep : ∀ c ∈ run, ∃ l, c = .keep l := by
    intro c hc
    obtain ⟨l, -, rfl⟩ := List.mem_map.1 (h.subset hc)
    exact ⟨l, rfl⟩
  clear h
  induction run with
  | nil => rfl
  | cons c run ih =>
    obtain ⟨l, rfl⟩ := hkeep c List.mem_cons_self
    rw [news_cons, olds_cons, ih fun d hd => hkeep d (List.mem_cons_of_mem _ hd)]
    rfl

/-- What an entry writes is read as a statement of its own, and says what is written. -/
theorem IsElisionBlock.reads {source : String} (h : scan source = .ok template) {e : PlanEntry} {parts : CallLexemes}
    {new : Lexeme} {more : List Lexeme} (hb : IsElisionBlock catalog template e parts new more)
    (hw : IsWritable e) (hplain : IsPlain e.module) :
    (IsBlock new more ∧ IsAlone (new :: more)) ∧ ∃ s mapping body params, catalog.mapping? e.mappingIndex = some mapping ∧
      template.find? .module e.newSymbol = some s ∧ s.body = some body ∧
      ObjectLiteral.get? body "params" = some (.object params) ∧ ∀ {source' : String} {gap : List Char} {s' : Statement},
        SaidBy source' (regap gap (new :: more)) s' → s'.sense = (elidedCall e mapping s body params).sense := by
  obtain ⟨s, mapping, body, params, hmapping, hfind, hbody, hparams, hshow, hall, hblock, -⟩ := hb
  obtain ⟨l, hsource, hchars, htokens, -⟩ := exists_layout h
  rw [← hsource] at hchars
  rw [← hall]
  refine ⟨⟨hblock, hshow.isAlone hplain hw.quote_not_mem⟩, s, mapping, body, params, hmapping, hfind, hbody, hparams,
    fun hs => ?_⟩
  obtain ⟨t, hcall, hsense⟩ := hshow.readsCall_of_saidBy hplain hw.quote_not_mem hs
  rw [hsense]
  have hread := (statementHolds_of_scan h s (ScannedTemplate.mem_of_find? hfind).1).body body hbody
  exact hcall.sense_eq (rereads_of_mem hchars htokens (every_elidedCall hread hparams mapping) hshow.body)

/-- The statements of an optimized template, one by one. -/
theorem exists_elides {source : String} (h : scan source = .ok template)
    (hplan : plan.Pairwise fun a b => a.newSymbol ≠ b.newSymbol) (hw : ∀ e ∈ plan, IsWritable e)
    (hplain : ∀ e ∈ plan, IsPlain e.module) :
    ∃ optimized, scan (optimize catalog plan source).text = .ok optimized ∧
      List.Forall₂ (fun p s' => Elides catalog template plan p.2 p.1 s') template.statements.zipIdx
        optimized.statements := by
  obtain ⟨parts, block, l, cs, l', he⟩ := (@exists_isElision catalog) h hplan hw
  have hsource := source_of_scan h
  have hchars := he.chars
  rw [hsource] at hchars
  refine ⟨_, scan_of_layout hchars, ?_⟩
  have hplaced' : Placed (optimize catalog plan source).text l'.start (news cs) := by
    rw [← he.lexemes]
    exact l'.placed hchars
  have hstatements := he.rewrites.statements (fun i new more hp => by
      obtain ⟨e, hmem, -, hb⟩ := he.exists_block hp
      exact (hb.reads h (hw e hmem) (hplain e hmem)).1)
    (by simp [useChanges_nil, kept, Change.Renames]) l.legible.forall_ne_nil (l.placed he.source) hplaced'
  rw [Layout.tokens, he.lexemes]
  rw [List.forall₂_iff_zip] at hstatements ⊢
  refine ⟨hstatements.1, fun {p s'} hmem => ?_⟩
  obtain ⟨s, i⟩ := p
  have hi : template.statements[i]? = some s := List.mem_zipIdx_iff_getElem?.1 (List.of_mem_zip hmem).1
  obtain ⟨first, body, run, hrun, holds, hne, hsaid, hsaid'⟩ := hstatements.2 hmem
  simp only at hsaid hsaid'
  rw [useChanges_nil] at hrun
  cases hp : elisionPicks catalog template plan block i with
  | none =>
    rw [hp, statementChanges, news_of_infix_kept hrun, holds] at hsaid'
    refine .inl ⟨fun e hmem hindex => ?_, ?_⟩
    · rw [elisionPicks_eq hplan hmem hindex] at hp
      cases hp
    · exact (@SaidBy.sense_eq _ _ _ first.gap) hsaid hsaid' hne
  | some block' =>
    obtain ⟨new, more⟩ := block'
    obtain ⟨e, hmem, hindex, hb⟩ := he.exists_block hp
    obtain ⟨-, t, mapping, body', params, hmapping, hfind, hbody, hparams, hreads⟩ :=
      hb.reads h (hw e hmem) (hplain e hmem)
    obtain rfl : s = t := Option.some.inj (hi.symm.trans ((find?_of_elidedIndex hindex).symm.trans hfind))
    rw [hp, show news (statementChanges (some (new, more)) first body run) = regap first.gap (new :: more) from
      List.append_nil _] at hsaid'
    exact .inr ⟨e, hmem, hindex, mapping, body', params, hmapping, hfind, hbody, hparams, hreads hsaid'⟩

end BicepMigration.Migration
