import BicepMigration.Proofs.Migration.CallText
import BicepMigration.Proofs.Migration.Pruned

/-!
# The text of an optimized template

Removing defaults writes some module calls of a migrated template anew, and changes no other lexeme. So an optimized
text has a layout if its template has one. Which inputs are removed is left open here.
-/

namespace BicepMigration.Migration

open Catalog Template Text

variable {catalog : ModuleCatalog} {template : ScannedTemplate} {l : Layout} {plan : List PlanEntry}

/-- The edit that removes defaults from the module call of a plan entry, if there is one. -/
def elisionEdit? (catalog : ModuleCatalog) (template : ScannedTemplate) (entry : PlanEntry) : Option Edit :=
  (elide? catalog template entry).bind (·.edit)

/-- The text after the removal of defaults is the text with one edit for each call that loses inputs. -/
theorem optimize_text {source : String} (h : scan source = .ok template) :
    (optimize catalog plan source).text =
      (EditedText.ofEdits source (plan.filterMap (elisionEdit? catalog template))).apply := by
  rw [optimize, h]
  simp only
  rw [List.filterMap_filterMap]
  rfl

/-- What is done for a plan entry is done to the inputs of its module call. -/
theorem elide?_cases {entry : PlanEntry} {elision : Elision} (h : elide? catalog template entry = some elision) :
    ∃ (s : Statement) (mapping : Mapping) (body params : ObjectLiteral),
      catalog.mapping? entry.mappingIndex = some mapping ∧ template.find? .module entry.newSymbol = some s ∧
      s.body = some body ∧ ObjectLiteral.get? body "params" = some (.object params) ∧
      elision.diagnostics = (prune mapping.defaults entry.newSymbol "" params).diagnostics ∧
      ∀ edit, elision.edit = some edit → edit = ⟨s.span, (rewrittenCall entry s (replaceFirst "params"
        (.object (prune mapping.defaults entry.newSymbol "" params).kept) body)).render
          (.unedited template.source)⟩ := by
  obtain ⟨mapping, hmapping, h⟩ := Option.bind_eq_some_iff.1 h
  split at h
  · cases h
  · simp only [Option.bind_eq_bind] at h
    obtain ⟨s, hs, h⟩ := Option.bind_eq_some_iff.1 h
    obtain ⟨⟨body, params⟩, hp, h⟩ := Option.bind_eq_some_iff.1 h
    obtain ⟨hbody, hparams⟩ := paramsOf?_eq_some.1 hp
    obtain rfl := Option.some.inj h
    refine ⟨s, mapping, body, params, hmapping, hs, hbody, hparams, rfl, fun edit hedit => ?_⟩
    simp only at hedit
    split at hedit
    · cases hedit
    · exact (Option.some.inj hedit).symm

/-- An edit that removes defaults writes a module call of the template anew. -/
theorem elisionEdit?_cases {entry : PlanEntry} {edit : Edit} (h : elisionEdit? catalog template entry = some edit) :
    ∃ (s : Statement) (mapping : Mapping) (body params : ObjectLiteral),
      catalog.mapping? entry.mappingIndex = some mapping ∧ template.find? .module entry.newSymbol = some s ∧
      s.body = some body ∧ ObjectLiteral.get? body "params" = some (.object params) ∧
      edit = ⟨s.span, (rewrittenCall entry s (replaceFirst "params"
        (.object (prune mapping.defaults entry.newSymbol "" params).kept) body)).render
          (.unedited template.source)⟩ := by
  obtain ⟨elision, he, hedit⟩ := Option.bind_eq_some_iff.1 h
  obtain ⟨s, mapping, body, params, hmapping, hs, hbody, hparams, -, hwritten⟩ := elide?_cases he
  exact ⟨s, mapping, body, params, hmapping, hs, hbody, hparams, hwritten edit hedit⟩

/-- The number of the statement that is written anew without defaults. -/
def elidedIndex? (catalog : ModuleCatalog) (template : ScannedTemplate) (entry : PlanEntry) : Option Nat :=
  if (elisionEdit? catalog template entry).isSome then
    template.statements.findIdx? fun s => s.kind = .module && s.symbol = some entry.newSymbol
  else none

/-- The statement that is written anew is the first module with the symbol. -/
theorem exists_elidedIndex {entry : PlanEntry} {edit : Edit} (h : elisionEdit? catalog template entry = some edit) :
    ∃ i s, elidedIndex? catalog template entry = some i ∧ template.statements[i]? = some s ∧
      template.find? .module entry.newSymbol = some s ∧ s.symbol = some entry.newSymbol := by
  obtain ⟨s, _, _, _, -, hs, -⟩ := elisionEdit?_cases h
  obtain ⟨-, -, hsymbol⟩ := ScannedTemplate.mem_of_find? hs
  have hfind := hs
  rw [ScannedTemplate.find?, List.find?_eq_bind_findIdx?_getElem?] at hfind
  obtain ⟨i, hi, hget⟩ := Option.bind_eq_some_iff.1 hfind
  exact ⟨i, s, by rw [elidedIndex?, h]; exact hi, hget, hs, hsymbol⟩

/-- A call that loses inputs has an edit. -/
theorem exists_elisionEdit {entry : PlanEntry} {i : Nat} (h : elidedIndex? catalog template entry = some i) :
    ∃ edit, elisionEdit? catalog template entry = some edit := by
  unfold elidedIndex? at h
  split at h
  · next hs => exact Option.isSome_iff_exists.1 hs
  · simp at h

/-- The statements that are written anew without defaults, with the lexemes that are written for each entry. -/
def elisionPicks (catalog : ModuleCatalog) (template : ScannedTemplate) (plan : List PlanEntry)
    (block : PlanEntry → Lexeme × List Lexeme) : Picks := fun index =>
  (plan.find? (elidedIndex? catalog template · = some index)).map block

/-- The edits of picked statements replace exactly these. -/
theorem mem_pickedEdits {pick : Picks} {index : Nat} {ss : List Statement} {edit : Edit} :
    edit ∈ pickedEdits pick index ss ↔ ∃ i s new more, ss[i]? = some s ∧ pick (index + i) = some (new, more) ∧
      edit = ⟨s.span, String.ofList (bare (new :: more))⟩ := by
  induction ss generalizing index with
  | nil => simp [pickedEdits]
  | cons s ss ih =>
    rw [pickedEdits, List.mem_append, ih]
    constructor
    · rintro (h | ⟨i, t, new, more, ht, hp, he⟩)
      · obtain ⟨⟨new, more⟩, hp, he⟩ := Option.map_eq_some_iff.1 (Option.mem_toList.1 h)
        exact ⟨0, s, new, more, rfl, hp, he.symm⟩
      · refine ⟨i + 1, t, new, more, by simpa using ht, ?_, he⟩
        rw [← hp]
        congr 1
        omega
    · rintro ⟨i, t, new, more, ht, hp, he⟩
      cases i with
      | zero =>
        obtain rfl : s = t := by simpa using ht
        rw [Nat.add_zero] at hp
        exact .inl (Option.mem_toList.2 (by rw [hp, he]; rfl))
      | succ i =>
        refine .inr ⟨i, t, new, more, by simpa using ht, ?_, he⟩
        rw [← hp]
        congr 1
        omega

/-- Each entry has its own statement. -/
theorem elisionPicks_eq {block : PlanEntry → Lexeme × List Lexeme}
    (hplan : plan.Pairwise fun a b => a.newSymbol ≠ b.newSymbol) {entry : PlanEntry} (he : entry ∈ plan) {i : Nat}
    (hi : elidedIndex? catalog template entry = some i) :
    elisionPicks catalog template plan block i = some (block entry) := by
  have hindex {e : PlanEntry} (h : elidedIndex? catalog template e = some i) :
      (template.statements[i]?).bind (·.symbol) = some e.newSymbol := by
    obtain ⟨edit, hedit⟩ := exists_elisionEdit h
    obtain ⟨j, s, hj, hs, -, hsymbol⟩ := exists_elidedIndex hedit
    rw [h] at hj
    rw [Option.some.inj hj, hs]
    exact hsymbol
  have hfind : plan.find? (elidedIndex? catalog template · = some i) = some entry := by
    clear block
    induction plan with
    | nil => simp at he
    | cons e rest ih =>
      rw [List.pairwise_cons] at hplan
      by_cases hei : elidedIndex? catalog template e = some i
      · rcases List.mem_cons.1 he with rfl | he
        · simp [hei]
        · have hsame := (hindex hei).symm.trans (hindex hi)
          exact absurd (Option.some.inj hsame) (hplan.1 entry he)
      · rcases List.mem_cons.1 he with rfl | he
        · exact absurd hi hei
        · rw [List.find?_cons_of_neg (by simpa using hei)]
          exact ih hplan.2 he
  rw [elisionPicks, hfind]
  rfl

/-- The edits that remove defaults are those of the statements that are picked. -/
theorem mem_elisionEdits {block : PlanEntry → Lexeme × List Lexeme}
    (hplan : plan.Pairwise fun a b => a.newSymbol ≠ b.newSymbol)
    (hb : ∀ e ∈ plan, ∀ edit, elisionEdit? catalog template e = some edit →
      edit.replacement = String.ofList (bare ((block e).1 :: (block e).2))) {edit : Edit} :
    edit ∈ plan.filterMap (elisionEdit? catalog template) ↔
      edit ∈ pickedEdits (elisionPicks catalog template plan block) 0 template.statements := by
  have hspan {e : PlanEntry} {edit : Edit} (he : e ∈ plan) (hedit : elisionEdit? catalog template e = some edit)
      {i : Nat} {s : Statement} (hi : elidedIndex? catalog template e = some i)
      (hs : template.statements[i]? = some s) :
      edit = ⟨s.span, String.ofList (bare ((block e).1 :: (block e).2))⟩ := by
    obtain ⟨j, t, hj, ht, hfind, -⟩ := exists_elidedIndex hedit
    obtain ⟨u, _, _, _, -, hu, -, -, hspan⟩ := elisionEdit?_cases hedit
    rw [hfind] at hu
    obtain rfl := Option.some.inj hu
    rw [hi] at hj
    obtain rfl := Option.some.inj hj
    rw [hs] at ht
    obtain rfl := Option.some.inj ht
    rw [← hb e he _ hedit, hspan]
  rw [mem_pickedEdits, List.mem_filterMap]
  constructor
  · rintro ⟨e, he, hedit⟩
    obtain ⟨i, s, hi, hs, -⟩ := exists_elidedIndex hedit
    refine ⟨i, s, (block e).1, (block e).2, hs, ?_, hspan he hedit hi hs⟩
    rw [Nat.zero_add]
    exact elisionPicks_eq hplan he hi
  · rintro ⟨i, s, new, more, hs, hp, rfl⟩
    rw [Nat.zero_add] at hp
    obtain ⟨e, hfind, hblock⟩ := Option.map_eq_some_iff.1 hp
    have he := List.mem_of_find?_eq_some hfind
    have hi : elidedIndex? catalog template e = some i := by simpa using List.find?_some hfind
    obtain ⟨edit, hedit⟩ := exists_elisionEdit hi
    refine ⟨e, he, ?_⟩
    rw [hedit, hspan he hedit hi hs, hblock]

/-- A plan entry whose module call can be written: its symbol is a name, and its locator can be read. -/
structure IsWritable (entry : PlanEntry) : Prop where
  symbol : IsName entry.newSymbol
  quote_not_mem : '\'' ∉ entry.module.toList
  readable : IsReadable entry.module

/-- The module call that is written for a plan entry when defaults are removed. -/
def elidedCall (entry : PlanEntry) (mapping : Mapping) (s : Statement) (body params : ObjectLiteral) : ModuleCall :=
  rewrittenCall entry s (replaceFirst "params"
    (.object (prune mapping.defaults entry.newSymbol "" params).kept) body)

/-- The lexemes that are written for a plan entry when defaults are removed. -/
def IsElisionBlock (catalog : ModuleCatalog) (template : ScannedTemplate) (entry : PlanEntry) (parts : CallLexemes)
    (new : Lexeme) (more : List Lexeme) : Prop :=
  ∃ (s : Statement) (mapping : Mapping) (body params : ObjectLiteral),
    catalog.mapping? entry.mappingIndex = some mapping ∧ template.find? .module entry.newSymbol = some s ∧
    s.body = some body ∧ ObjectLiteral.get? body "params" = some (.object params) ∧
    parts.Show (.unedited template.source) (elidedCall entry mapping s body params) ∧
    parts.all (elidedCall entry mapping s body params) = new :: more ∧ IsBlock new more ∧
    elisionEdit? catalog template entry = some ⟨s.span, String.ofList (bare (new :: more))⟩

/-- The module call without defaults has the scalars of the module call with defaults. -/
theorem every_elidedCall {leaf : Value → Prop} {entry : PlanEntry} {s : Statement} {body params : ObjectLiteral}
    (h : (Value.object body).Every leaf) (hparams : ObjectLiteral.get? body "params" = some (.object params))
    (mapping : Mapping) : (Value.object (elidedCall entry mapping s body params).body).Every leaf := by
  have hentries := every_object_iff.1 h
  obtain ⟨p, hp, hvalue⟩ := Option.map_eq_some_iff.1 hparams
  have hevery := (hentries p (List.mem_of_find?_eq_some hp)).2
  rw [hvalue] at hevery
  exact every_object_iff.2 (every_replaceFirst (every_object_iff.2 (every_prune hevery "" params rfl)) hentries)

/-- The module call without defaults is written for fragments of the module call with defaults. -/
theorem isWritten_elidedCall (hs : template.source.toList = l.chars) (ht : template.tokens = l.tokens)
    {s : Statement} (hholds : StatementHolds template.source template.tokens s) {entry : PlanEntry}
    (hw : IsWritable entry) {body params : ObjectLiteral} (hbody : s.body = some body)
    (hparams : ObjectLiteral.get? body "params" = some (.object params)) (mapping : Mapping) :
    IsWritten (·.raw) template (.unedited template.source) (elidedCall entry mapping s body params) :=
  isWritten_asCall hs ht hholds hw.symbol hw.quote_not_mem hw.readable
    (every_elidedCall (s := s) (hholds.body body hbody) hparams mapping)

/-- Every plan entry with an edit has its lexemes. -/
theorem exists_isElisionBlock {source : String} (h : scan source = .ok template) {entry : PlanEntry}
    (hw : IsWritable entry) {edit : Edit} (he : elisionEdit? catalog template entry = some edit) :
    ∃ parts new more, IsElisionBlock catalog template entry parts new more := by
  obtain ⟨l, hsource, hchars, htokens, -⟩ := exists_layout h
  rw [← hsource] at hchars
  obtain ⟨s, mapping, body, params, hmapping, hs, hbody, hparams, rfl⟩ := elisionEdit?_cases he
  have hholds := statementHolds_of_scan h s (ScannedTemplate.mem_of_find? hs).1
  have hwritten := isWritten_elidedCall hchars htokens hholds hw hbody hparams mapping
  obtain ⟨parts, hshow⟩ := hwritten.exists_callLexemes (renders_raw hchars htokens) (renders_raw hchars htokens)
  obtain ⟨new, more, hall, hblock, htext⟩ := hshow.exists_isBlock
  refine ⟨parts, new, more, s, mapping, body, params, hmapping, hs, hbody, hparams, hshow, hall, hblock, ?_⟩
  rw [he, ← htext]
  rfl

/-- Without symbols nothing is replaced. -/
theorem useChanges_nil (replace : Replacements) (before : List Token) (here : Cursor) (ls : List Lexeme) :
    useChanges [] replace before here ls = kept ls := by
  induction ls generalizing before here with
  | nil =>
    rw [useChanges]
    rfl
  | cons l ls ih =>
    rw [useChanges_keep (by simp [useAt?]), ih]
    rfl

/-- What is picked for a statement is the module call of an entry. -/
theorem exists_picked {parts : PlanEntry → CallLexemes} {block : PlanEntry → Lexeme × List Lexeme}
    (hblocks : ∀ e ∈ plan, ∀ edit, elisionEdit? catalog template e = some edit →
      IsElisionBlock catalog template e (parts e) (block e).1 (block e).2) {i : Nat} {new : Lexeme} {more : List Lexeme}
    (hp : elisionPicks catalog template plan block i = some (new, more)) :
    ∃ e ∈ plan, elidedIndex? catalog template e = some i ∧ IsElisionBlock catalog template e (parts e) new more := by
  obtain ⟨e, hfind, hblock⟩ := Option.map_eq_some_iff.1 hp
  have hi : elidedIndex? catalog template e = some i := by simpa using List.find?_some hfind
  obtain ⟨edit, hedit⟩ := exists_elisionEdit hi
  have hmem := List.mem_of_find?_eq_some hfind
  have hb := hblocks e hmem edit hedit
  rw [hblock] at hb
  exact ⟨e, hmem, hi, hb⟩

/-- The statement that an entry writes anew has a body. -/
theorem isSome_body_of_elidedIndex {entry : PlanEntry} {i : Nat} {s : Statement}
    (hi : elidedIndex? catalog template entry = some i) (hs : template.statements[i]? = some s) :
    s.body.isSome = true := by
  obtain ⟨edit, hedit⟩ := exists_elisionEdit hi
  obtain ⟨t, mapping, body, params, -, hfind, hbody, -, -⟩ := elisionEdit?_cases hedit
  obtain ⟨j, u, hj, hu, hfind', -⟩ := exists_elidedIndex hedit
  obtain rfl := Option.some.inj (hi.symm.trans hj)
  obtain rfl := Option.some.inj (hs.symm.trans hu)
  obtain rfl := Option.some.inj (hfind.symm.trans hfind')
  rw [hbody]
  rfl

/-- An optimized template as lexemes: the layout before, the lexemes of the entries that are written anew, the
changes, and the layout after. -/
structure IsElision (catalog : ModuleCatalog) (template : ScannedTemplate) (plan : List PlanEntry)
    (parts : PlanEntry → CallLexemes) (block : PlanEntry → Lexeme × List Lexeme) (l : Layout) (cs : List Change)
    (l' : Layout) : Prop where
  source : template.source.toList = l.chars
  tokens : template.tokens = l.tokens
  rewrites : Rewrites template.source [] (fun _ => none) (elisionPicks catalog template plan block) 0 [] l.start
    l.lexemes template.statements cs
  blocks : ∀ e ∈ plan, ∀ edit, elisionEdit? catalog template e = some edit →
    IsElisionBlock catalog template e (parts e) (block e).1 (block e).2
  mark : l'.mark = l.mark
  lexemes : l'.lexemes = news cs
  tail : l'.tail = l.tail
  chars : (optimize catalog plan template.source).text.toList = l'.chars

/-- The text of an optimized template has a layout, if the module calls of the plan can be written. -/
theorem exists_isElision {source : String} (h : scan source = .ok template)
    (hplan : plan.Pairwise fun a b => a.newSymbol ≠ b.newSymbol) (hw : ∀ e ∈ plan, IsWritable e) :
    ∃ parts block l cs l', IsElision catalog template plan parts block l cs l' := by
  obtain ⟨g, hg⟩ := exists_choice (α := PlanEntry) (β := CallLexemes × (Lexeme × List Lexeme))
    fun e r => e ∈ plan ∧ IsElisionBlock catalog template e r.1 r.2.1 r.2.2
  have hblocks : ∀ e ∈ plan, ∀ edit, elisionEdit? catalog template e = some edit →
      IsElisionBlock catalog template e (g e).1 (g e).2.1 (g e).2.2 := by
    intro e he edit hedit
    obtain ⟨parts, new, more, hblock⟩ := exists_isElisionBlock h (hw e he) hedit
    exact (hg e ⟨(parts, (new, more)), he, hblock⟩).2
  obtain ⟨l, hsource, hchars, htokens, hpieces⟩ := exists_layout h
  rw [← hsource] at hchars hpieces
  obtain ⟨cs, hrewrites⟩ := (@exists_rewrites _ [] (fun _ => none)
    (elisionPicks catalog template plan fun e => (g e).2)) hpieces 0 [] fun i s hs hp => by
      obtain ⟨⟨new, more⟩, hp⟩ := Option.isSome_iff_exists.1 hp
      obtain ⟨e, -, hi, -⟩ := exists_picked hblocks hp
      exact isSome_body_of_elidedIndex (Nat.zero_add i ▸ hi) hs
  obtain ⟨l', hmark, hlexemes, htail⟩ := l.exists_rewritten hrewrites (fun i new more hp => by
    obtain ⟨e, -, -, -, -, -, -, -, -, -, -, -, -, hblock, -⟩ := exists_picked hblocks hp
    exact hblock) (by simp [useChanges_nil, kept, Change.Renames])
  refine ⟨fun e => (g e).1, fun e => (g e).2, l, cs, l', hchars, htokens, hrewrites, hblocks, hmark, hlexemes, htail,
    ?_⟩
  have htext : (optimize catalog plan template.source).text =
      (EditedText.ofEdits template.source (plan.filterMap (elisionEdit? catalog template))).apply := by
    rw [hsource]
    exact optimize_text h
  rw [htext, Layout.chars, hmark, hlexemes, htail]
  refine hrewrites.toList_apply hchars fun edit => ?_
  rw [useChanges_nil, editsFrom_kept, (@mem_elisionEdits _ _ _ (fun e => (g e).2)) hplan fun e he edit hedit => ?_]
  · simp
  · obtain ⟨s, mapping, body, params, -, -, -, -, -, -, -, hedit'⟩ := hblocks e he edit hedit
    rw [hedit] at hedit'
    rw [Option.some.inj hedit']

/-- What is written in place of a statement is the module call of an entry. -/
theorem IsElision.exists_block {parts : PlanEntry → CallLexemes} {block : PlanEntry → Lexeme × List Lexeme}
    {l l' : Layout} {cs : List Change} (h : IsElision catalog template plan parts block l cs l') {i : Nat} {new : Lexeme}
    {more : List Lexeme} (hp : elisionPicks catalog template plan block i = some (new, more)) :
    ∃ e ∈ plan, elidedIndex? catalog template e = some i ∧ IsElisionBlock catalog template e (parts e) new more :=
  exists_picked h.blocks hp

/-- The statement that is written anew is found by its symbol. -/
theorem find?_of_elidedIndex {entry : PlanEntry} {i : Nat} (h : elidedIndex? catalog template entry = some i) :
    template.find? .module entry.newSymbol = template.statements[i]? := by
  obtain ⟨edit, hedit⟩ := exists_elisionEdit h
  obtain ⟨j, s, hj, hs, hfind, -⟩ := exists_elidedIndex hedit
  obtain rfl := Option.some.inj (h.symm.trans hj)
  rw [hfind, hs]

end BicepMigration.Migration
