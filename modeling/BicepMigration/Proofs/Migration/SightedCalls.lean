import BicepMigration.Proofs.Migration.BodyUses
import BicepMigration.Proofs.Migration.CallUses
import BicepMigration.Proofs.Migration.ElidedStatements
import BicepMigration.Proofs.Template.SightedStatements

/-!
# What removing defaults hides

An input that equals its default is a literal, and of a literal nothing is seen. So the inputs that are left show what
all inputs showed, in order. A module call is written again with all else that it had. So an optimized template shows the
same names as its template, if no symbol stands between an opening bracket and a colon in it.
-/

namespace BicepMigration.Migration

open Catalog Template Text

variable {symbols : List String} {source : String} {l : Layout} {leaves leaves' : Leaves}

section Inputs

/-- Objects show the same if their properties do. -/
theorem sights_object_eq {ps qs : ObjectLiteral} {depth : Nat}
    (h : entrySights symbols leaves (depth + 1) ps = entrySights symbols leaves' (depth + 1) qs) (view : View) :
    sights symbols view (spelled (leaves.value depth (.object ps))) =
      sights symbols view (spelled (leaves'.value depth (.object qs))) := by
  obtain ⟨inside, hinside, hsights⟩ := exists_spelled_object symbols leaves depth ps
  obtain ⟨inside', hinside', hsights'⟩ := exists_spelled_object symbols leaves' depth qs
  rw [hinside, hinside', sights_enclosed (by simp) rfl, sights_enclosed (by simp) rfl, View.after_of_brace rfl, hsights,
    hsights', h]

/-- Every property is read from the source and can be written. -/
def AreShown (source : String) (l : Layout) (leaves : Leaves) (ps : ObjectLiteral) : Prop :=
  ∀ p ∈ ps, p.value.Every (IsRead source l.tokens) ∧ leaves.Show (.unedited source) p.value

/-- An object that is shown has all its properties shown. -/
theorem areShown_of_object {ps : ObjectLiteral} (hread : (Value.object ps).Every (IsRead source l.tokens))
    (hshow : leaves.Show (.unedited source) (.object ps)) : AreShown source l leaves ps := by
  cases hshow with
  | object _ hshow => exact fun p hp => ⟨(every_object_iff.1 hread p hp).2, hshow p hp⟩

/-- What is seen of inputs is seen of those that are left. -/
theorem Prunes.entrySights_eq {defaults : List (String × Json)} {parent : String} {ps kept : ObjectLiteral}
    {removed : List String} (h : Prunes defaults parent ps kept removed) (hs : source.toList = l.chars)
    (hw : ∀ word ∈ literalWords, word ∉ symbols) (hps : AreShown source l leaves ps)
    (hkept : ∀ p ∈ kept, leaves'.Show (.unedited source) p.value) (depth : Nat) :
    entrySights symbols leaves depth ps = entrySights symbols leaves' depth kept := by
  induction h generalizing depth with
  | done => rfl
  | drop _ heq _ ih =>
    obtain ⟨⟨hread, hshow⟩, hrest⟩ := List.forall_mem_cons.1 hps
    rw [entrySights_cons, sights_of_isLiteral hs hw hread (isLiteral_of_literalEq _ heq) hshow, List.nil_append]
    exact ih hrest hkept depth
  | differ _ _ _ ih | pass _ _ _ ih =>
    obtain ⟨⟨-, hshow⟩, hrest⟩ := List.forall_mem_cons.1 hps
    obtain ⟨hshow', hkept⟩ := List.forall_mem_cons.1 hkept
    rw [entrySights_cons, entrySights_cons, spelled_value_eq hshow hshow', ih hrest hkept]
  | enter _ hv _ _ _ _ ih ih' =>
    obtain ⟨⟨hread, hshow⟩, hrest⟩ := List.forall_mem_cons.1 hps
    obtain ⟨hshow', hkept⟩ := List.forall_mem_cons.1 hkept
    rw [hv] at hread hshow
    have hinside := ih (areShown_of_object hread hshow) (by
      cases hshow' with
      | object _ hshow' => exact hshow') (depth + 1)
    rw [entrySights_cons, entrySights_cons, hv, sights_object_eq hinside, ih' hrest hkept]
  | empty _ hv _ _ _ _ ih ih' =>
    obtain ⟨⟨hread, hshow⟩, hrest⟩ := List.forall_mem_cons.1 hps
    rw [hv] at hread hshow
    have hinside := ih (areShown_of_object hread hshow) (by simp) (depth + 1)
    have hnone := (@sights_object_eq symbols leaves leaves' _ [] depth) hinside .value
    rw [entrySights_cons, hv, hnone, ih' hrest hkept, Leaves.value]
    rfl

/-- A body shows the same when its inputs are exchanged for inputs that show the same. -/
theorem entrySights_replaceFirst {key : String} {old new : Value} {depth : Nat} {body : ObjectLiteral}
    (hget : ObjectLiteral.get? body key = some old) (hbody : ∀ p ∈ body, leaves.Show (.unedited source) p.value)
    (hbody' : ∀ p ∈ replaceFirst key new body, leaves'.Show (.unedited source) p.value)
    (h : leaves.Show (.unedited source) old → leaves'.Show (.unedited source) new →
      sights symbols .value (spelled (leaves.value depth old)) = sights symbols .value (spelled (leaves'.value depth new))) :
    entrySights symbols leaves depth body = entrySights symbols leaves' depth (replaceFirst key new body) := by
  have hsame : ∀ ps : ObjectLiteral, (∀ p ∈ ps, leaves.Show (.unedited source) p.value) →
      (∀ p ∈ ps, leaves'.Show (.unedited source) p.value) →
        entrySights symbols leaves depth ps = entrySights symbols leaves' depth ps := fun ps hps hps' =>
    List.flatMap_congr fun p hp => by rw [spelled_value_eq (hps p hp) (hps' p hp)]
  induction body with
  | nil => cases hget
  | cons p rest ih =>
    obtain ⟨hp, hrest⟩ := List.forall_mem_cons.1 hbody
    rw [replaceFirst] at hbody' ⊢
    split at hbody'
    · next hk =>
      obtain ⟨hp', hrest'⟩ := List.forall_mem_cons.1 hbody'
      rw [ObjectLiteral.get?, List.find?_cons_of_pos (by simpa using hk)] at hget
      obtain rfl : p.value = old := Option.some.inj hget
      rw [if_pos hk, entrySights_cons, entrySights_cons, h hp hp', hsame rest hrest hrest']
    · next hk =>
      obtain ⟨hp', hrest'⟩ := List.forall_mem_cons.1 hbody'
      rw [ObjectLiteral.get?, List.find?_cons_of_neg (by simpa using hk)] at hget
      rw [if_neg hk, entrySights_cons, entrySights_cons, spelled_value_eq hp hp', ih hget hrest hrest']

end Inputs

section Calls

variable {catalog : ModuleCatalog} {template : ScannedTemplate} {plan : List PlanEntry} {parts : PlanEntry → CallLexemes}
  {block : PlanEntry → Lexeme × List Lexeme} {cs : List Change} {l' : Layout}

/-- A module call without defaults shows what the module showed. -/
theorem entrySights_elidedCall (hs : template.source.toList = l.chars) (ht : template.tokens = l.tokens)
    (hw : ∀ word ∈ literalWords, word ∉ symbols) {s : Statement}
    (hholds : StatementHolds template.source template.tokens s) {body params : ObjectLiteral} (hbody : s.body = some body)
    (hparams : ObjectLiteral.get? body "params" = some (.object params)) {entry : PlanEntry} {mapping : Mapping}
    (hshow : leaves.Show (.unedited template.source) (.object body))
    (hshow' : leaves'.Show (.unedited template.source) (.object (elidedCall entry mapping s body params).body))
    (depth : Nat) : entrySights symbols leaves depth body =
      entrySights symbols leaves' depth (elidedCall entry mapping s body params).body := by
  have hread := hholds.body body hbody
  rw [ht] at hread
  obtain ⟨p, hp, hvalue⟩ := Option.map_eq_some_iff.1 hparams
  have hpread := (every_object_iff.1 hread p (List.mem_of_find?_eq_some hp)).2
  rw [hvalue] at hpread
  cases hshow with
  | object _ hshow =>
  cases hshow' with
  | object _ hshow' =>
  refine entrySights_replaceFirst hparams hshow hshow' fun hold hnew => sights_object_eq ?_ .value
  cases hnew with
  | object _ hkept =>
    exact (prunes_prune entry.newSymbol "" params).entrySights_eq hs hw (areShown_of_object hpread hold) hkept (depth + 1)

/-- A statement that is written anew without defaults shows what it showed, unless a symbol stands between an opening
bracket and a colon. -/
theorem IsElision.alike_lexemes {source : String} (h : scan source = .ok template)
    (he : IsElision catalog template plan parts block l cs l') (hw : ∀ e ∈ plan, IsWritable e)
    (hplain : ∀ e ∈ plan, IsPlain e.module)
    (hexisting : ∀ e ∈ plan, ∀ s, template.find? .module e.newSymbol = some s → s.existing = false)
    (hwords : ∀ word ∈ literalWords, word ∉ symbols) (hkeys : anyTriple (opensKey symbols) template.tokens = false)
    {p : Place} (hp : p.IsIn template.source [] (fun _ => none) l.tokens (useChanges [] (fun _ => none) [] l.start l.lexemes))
    (hindex : template.statements[p.index]? = some p.statement) :
    Alike symbols (spelled (p.first :: p.body)) (spelled (p.lexemes (elisionPicks catalog template plan block))) := by
  cases hpick : elisionPicks catalog template plan block p.index with
  | none =>
    have hkept : news p.run = olds p.run := news_of_infix_kept (useChanges_nil _ [] l.start l.lexemes ▸ hp.among)
    rw [Place.lexemes, hpick, statementChanges, hkept, hp.olds]
    exact .refl symbols _
  | some chosen =>
    obtain ⟨new, more⟩ := chosen
    obtain ⟨e, hmem, helided, s, mapping, body, params, -, hfind, hbody, hparams, hshow, hall, -⟩ := he.exists_block hpick
    obtain rfl : p.statement = s := Option.some.inj (hindex.symm.trans ((find?_of_elidedIndex helided).symm.trans hfind))
    obtain ⟨-, hkind, hsymbol⟩ := ScannedTemplate.mem_of_find? hfind
    have hholds := statementHolds_of_scan h p.statement (List.mem_of_getElem? hindex)
    have hwritable := hw e hmem
    obtain ⟨parts', hshow'⟩ := (isWritten_asCall he.source he.tokens hholds hwritable.symbol hwritable.quote_not_mem
      hwritable.readable (hholds.body body hbody)).exists_callLexemes (renders_raw he.source he.tokens)
        (renders_raw he.source he.tokens)
    obtain ⟨first, others, htokens, hreads⟩ := hp.exists_tokens
    have hin := hp.tokens
    have hbalanced := hp.balanced
    rw [htokens, List.cons_append] at hin hbalanced
    rw [Place.lexemes, hpick, show news (statementChanges (some (new, more)) p.first p.body p.run) =
      regap p.first.gap (new :: more) from List.append_nil _, spelled_regap, ← hall, ← spellings_tokensAt p.here,
      show tokensAt p.here (p.first :: p.body) = first :: others from htokens]
    have hfree : anyTriple (opensKey symbols) (first :: others) = false := by
      rw [he.tokens, hin] at hkeys
      exact anyTriple_of_isInfix hkeys ⟨p.before.reverse, p.after, by simp⟩
    exact alike_statement he.source hreads hin hbalanced hfree hkind (hexisting e hmem p.statement hfind) hbody hshow
      (hshow.spellsString (hplain e hmem) hwritable.quote_not_mem) rfl hsymbol rfl hshow'.body
      (entrySights_elidedCall he.source he.tokens hwords hholds hbody hparams hshow'.body hshow.body 1)

/-- An optimized template shows what its template showed, unless a symbol stands between an opening bracket and a
colon. -/
theorem IsElision.alike {source : String} (h : scan source = .ok template)
    (he : IsElision catalog template plan parts block l cs l') (hw : ∀ e ∈ plan, IsWritable e)
    (hplain : ∀ e ∈ plan, IsPlain e.module)
    (hexisting : ∀ e ∈ plan, ∀ s, template.find? .module e.newSymbol = some s → s.existing = false)
    (hwords : ∀ word ∈ literalWords, word ∉ symbols) (hkeys : anyTriple (opensKey symbols) template.tokens = false) :
    Alike symbols (spelled l.lexemes) (spelled l'.lexemes) := by
  obtain ⟨places, hplaces, -, halike, -⟩ := he.rewrites.exists_places (show l.tokens = [].reverse ++ _ from rfl) l.balanced
    (.inl fun u hu => by cases hu) (List.infix_refl _)
  rw [he.lexemes]
  refine halike symbols fun p hp => ?_
  obtain ⟨hin, -, hindex, -⟩ := hplaces p hp
  exact he.alike_lexemes h hw hplain hexisting hwords hkeys hin hindex

end Calls

end BicepMigration.Migration
