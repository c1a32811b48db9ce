import BicepMigration.Proofs.Template.PropertyRoles

/-!
# Bodies and the fragments that cover them

The fragments of a statement are cut from its tokens in the order in which they are listed: decorators, the condition,
and what the body holds. So their spans are parts of the statement that increase and do not overlap. Between the braces
of a body nothing is left out: every token has one role, and the tokens with the role of a fragment are those in its
span. Main statement: all of this, for every statement with a body in a template that can be scanned.
-/

namespace BicepMigration.Template

open Text

section Marks

variable {source : String} {toks : List Token} {labels : List (Option Fragment)} {fs : List Fragment}

/-- Fragments are cut from tokens one after the other, and every token is labeled with the one that it is cut for. -/
inductive Marks (source : String) : List Token → List (Option Fragment) → List Fragment → Prop where
  | nil : Marks source [] [] []
  | other {t : Token} {toks : List Token} {labels : List (Option Fragment)} {fs : List Fragment} :
      Marks source toks labels fs → Marks source (t :: toks) (none :: labels) fs
  | fragment {first : Token} {others rest : List Token} {labels : List (Option Fragment)} {fs : List Fragment} :
      Marks source rest labels fs →
      Marks source (first :: others ++ rest)
        ((first :: others).map (fun _ => some (Fragment.ofTokens source first others)) ++ labels)
        (Fragment.ofTokens source first others :: fs)

namespace Marks

/-- Marks of two runs of tokens are marks of both together. -/
theorem append {more : List Token} {labels' : List (Option Fragment)} {gs : List Fragment}
    (h : Marks source toks labels fs) (h' : Marks source more labels' gs) :
    Marks source (toks ++ more) (labels ++ labels') (fs ++ gs) := by
  induction h with
  | nil => exact h'
  | other _ ih => exact .other ih
  | fragment _ ih =>
    rw [List.append_assoc, List.append_assoc]
    exact .fragment ih

/-- Tokens without fragments have no marks. -/
theorem others (toks : List Token) : Marks source toks (toks.map fun _ => none) [] := by
  induction toks with
  | nil => exact .nil
  | cons t toks ih => exact .other ih

/-- All tokens belong to one fragment. -/
theorem single (first : Token) (others : List Token) :
    Marks source (first :: others) ((first :: others).map fun _ => some (Fragment.ofTokens source first others))
      [Fragment.ofTokens source first others] := by
  have h := @fragment source first others [] [] [] .nil
  rwa [List.append_nil, List.append_nil] at h

end Marks

/-- A value with a fragment of its own has no other one. -/
theorem fragments_of_leaf? {v : Value} {f : Fragment} (h : v.leaf? = some f) : v.fragments = [f] := by
  cases v <;> simp only [Value.leaf?, Option.some.injEq, reduceCtorEq] at h <;> rw [Value.fragments, h]

/-- A value that is spelled plainly has no fragments. -/
theorem SpellsPlain.fragments_eq {v : Value} (h : SpellsPlain source v toks) : v.fragments = [] := by
  cases h <;> rfl

/-- All tokens of a role have its fragment. -/
theorem map_fragment?_each (role : Role) (toks : List Token) :
    (role.each toks).map Role.fragment? = toks.map fun _ => role.fragment? := by
  simp [Role.each]

/-- The roles of tokens in a part of a tree tell which of its fragments they are cut for. -/
theorem HasRoles.marks {b : Branch} {roles : List Role} (h : HasRoles source b toks roles) :
    Marks source toks (roles.map Role.fragment?) b.fragments := by
  have hplain {role : Role} (hr : role.fragment? = none) (toks : List Token) :
      Marks source toks ((role.each toks).map Role.fragment?) [] := by
    rw [map_fragment?_each, hr]
    exact .others toks
  induction h with
  | @leaf v first others hv _ =>
    rw [map_fragment?_each, Branch.fragments, fragments_of_leaf? hv]
    exact .single first others
  | literal hs =>
    rw [Branch.fragments, hs.fragments_eq]
    exact hplain rfl _
  | @object ps opening close inside roles _ _ _ ih | @array vs opening close inside roles _ _ _ ih =>
    have hall := Marks.other (t := opening) (ih.append (.others [close]))
    rw [List.append_nil] at hall
    simpa [Role.fragment?, Branch.fragments, Value.fragments] using hall
  | noEntries hs | noItems hs => exact hplain rfl _
  | @entry seps key toks rest colon p ps roles others _ _ _ _ _ _ ihvalue ihrest =>
    have hall := (@hplain .separator rfl seps).append
      ((@hplain .key rfl key).append (.other (t := colon) (ihvalue.append ihrest)))
    simpa [Role.fragment?, Branch.fragments, Value.fragments.entriesFragments] using hall
  | @item seps toks rest v vs roles others _ _ _ _ ihvalue ihrest =>
    have hall := (@hplain .separator rfl seps).append (ihvalue.append ihrest)
    simpa [Branch.fragments, Value.fragments.itemsFragments] using hall

end Marks

section Spans

variable {source : String} {toks : List Token} {labels : List (Option Fragment)} {fs : List Fragment}

/-- Tokens that take characters, one after the other. -/
structure Successive (toks : List Token) : Prop where
  nonempty : ∀ t ∈ toks, t.span.start < t.span.stop
  increasing : toks.Pairwise fun a b => a.span.stop ≤ b.span.start

/-- The tokens of a template stand one behind another. -/
theorem Layout.successive (l : Layout) : Successive l.tokens := by
  obtain ⟨hpairwise, hspans⟩ := apart_tokensAt l.legible.forall_ne_nil l.start
  exact ⟨fun t ht => (hspans t ht).2, hpairwise⟩

namespace Successive

/-- So do some of them. -/
theorem sublist {some : List Token} (h : Successive toks) (hs : some.Sublist toks) : Successive some :=
  ⟨fun t ht => h.nonempty t (hs.subset ht), h.increasing.sublist hs⟩

/-- Every token stands between the start of the first one and the stop of the last one. -/
theorem between {first : Token} {others : List Token} (h : Successive (first :: others)) :
    ∀ t ∈ first :: others, first.span.start ≤ t.span.start ∧ t.span.stop ≤ (others.getLast?.getD first).span.stop := by
  intro t ht
  constructor
  · rcases List.mem_cons.1 ht with rfl | hothers
    · exact Nat.le_refl _
    · have hstop := (List.pairwise_cons.1 h.increasing).1 t hothers
      have hfirst := h.nonempty first List.mem_cons_self
      omega
  · obtain ⟨before, last, heq⟩ := List.eq_nil_or_concat (first :: others) |>.resolve_left (List.cons_ne_nil _ _)
    have hlast : others.getLast?.getD first = last := by
      have hget := congrArg List.getLast? heq
      rw [List.getLast?_cons, List.concat_eq_append, List.getLast?_concat] at hget
      exact Option.some.inj hget
    rw [hlast]
    rw [heq, List.concat_eq_append] at ht h
    rcases List.mem_append.1 ht with hbefore | hmem
    · have hstart := (List.pairwise_append.1 h.increasing).2.2 t hbefore last (by simp)
      have hne := h.nonempty last (by simp)
      omega
    · exact Nat.le_of_eq (by rw [List.mem_singleton.1 hmem])

/-- So do the others without the first one. -/
theorem of_cons {t : Token} (h : Successive (t :: toks)) : Successive toks := h.sublist (List.sublist_cons_self t toks)

/-- Tokens that stand one behind another take up space. -/
theorem lt_of_mem {first : Token} {others : List Token} (h : Successive (first :: others)) :
    first.span.start < (others.getLast?.getD first).span.stop :=
  Nat.lt_of_lt_of_le (h.nonempty first List.mem_cons_self) (h.between first List.mem_cons_self).2

end Successive

/-- The token stands in the span of the fragment. -/
def Fragment.covers (f : Fragment) (t : Token) : Bool :=
  f.span.any fun span => span.start ≤ t.span.start && t.span.stop ≤ span.stop

/-- A fragment covers the tokens from its first one to its last one. -/
theorem covers_ofTokens {first t : Token} {others : List Token} :
    (Fragment.ofTokens source first others).covers t = true ↔
      first.span.start ≤ t.span.start ∧ t.span.stop ≤ (others.getLast?.getD first).span.stop := by
  simp [Fragment.covers, Fragment.ofTokens]

/-- Fragments that are cut from tokens stand where the tokens do. -/
theorem Marks.within {start stop : Nat} (h : Marks source toks labels fs) (ho : Successive toks)
    (hb : ∀ t ∈ toks, start ≤ t.span.start ∧ t.span.stop ≤ stop) :
    ∀ f ∈ fs, ∃ span, f.span = some span ∧ start ≤ span.start ∧ span.start < span.stop ∧ span.stop ≤ stop := by
  induction h with
  | nil => simp
  | other _ ih => exact ih ho.of_cons fun u hu => hb u (List.mem_cons_of_mem _ hu)
  | @fragment first others rest _ _ _ ih =>
    obtain ⟨hrun, hrest⟩ := List.forall_mem_append.1 hb
    intro f hf
    rcases List.mem_cons.1 hf with rfl | hf
    · refine ⟨_, rfl, (hrun first List.mem_cons_self).1, (ho.sublist (List.sublist_append_left ..)).lt_of_mem, ?_⟩
      cases hlast : others.getLast? with
      | none => exact (hrun first List.mem_cons_self).2
      | some last => exact (hrun last (List.mem_cons_of_mem _ (List.mem_of_getLast? hlast))).2
    · exact ih (ho.sublist (List.sublist_append_right ..)) hrest f hf

/-- Tokens after others start where those have stopped. -/
theorem Successive.stop_le {first : Token} {others rest : List Token} (h : Successive (first :: others ++ rest)) :
    ∀ t ∈ rest, (others.getLast?.getD first).span.stop ≤ t.span.start := by
  intro t ht
  have hcross := (List.pairwise_append.1 h.increasing).2.2
  cases hlast : others.getLast? with
  | none => exact hcross first List.mem_cons_self t ht
  | some last => exact hcross last (List.mem_cons_of_mem _ (List.mem_of_getLast? hlast)) t ht

/-- Tokens end somewhere. -/
theorem Successive.exists_bound (h : Successive toks) : ∃ stop, ∀ t ∈ toks, t.span.stop ≤ stop := by
  cases toks with
  | nil => exact ⟨0, by simp⟩
  | cons first others => exact ⟨_, fun t ht => (h.between t ht).2⟩

/-- Fragments that are cut from tokens after some place start after it. -/
theorem Marks.start_le {start : Nat} (h : Marks source toks labels fs) (ho : Successive toks)
    (hb : ∀ t ∈ toks, start ≤ t.span.start) {f : Fragment} (hf : f ∈ fs) :
    ∃ span, f.span = some span ∧ start ≤ span.start := by
  obtain ⟨stop, hstop⟩ := ho.exists_bound
  obtain ⟨span, hspan, hle, -⟩ := h.within ho (fun t ht => ⟨hb t ht, hstop t ht⟩) f hf
  exact ⟨span, hspan, hle⟩

/-- The fragments stop before later ones start. -/
theorem Marks.increasing (h : Marks source toks labels fs) (ho : Successive toks) :
    fs.Pairwise fun f g => ∀ a b, f.span = some a → g.span = some b → a.stop ≤ b.start := by
  induction h with
  | nil => exact .nil
  | other _ ih => exact ih ho.of_cons
  | @fragment first others rest _ fs hrest ih =>
    have horder := ho.sublist (List.sublist_append_right (first :: others) rest)
    refine List.pairwise_cons.2 ⟨fun g hg a b ha hb => ?_, ih horder⟩
    obtain ⟨span, hspan, hle⟩ := hrest.start_le horder ho.stop_le hg
    rw [hspan] at hb
    obtain rfl := Option.some.inj ha
    obtain rfl := Option.some.inj hb
    exact hle

/-- What stands before tokens is in no fragment that is cut from them. -/
theorem Marks.filter_covers_eq_nil {t : Token} (h : Marks source toks labels fs) (ho : Successive toks)
    (ht : t.span.start < t.span.stop) (hb : ∀ u ∈ toks, t.span.stop ≤ u.span.start) :
    fs.filter (·.covers t) = [] := by
  refine List.filter_eq_nil_iff.2 fun f hf hcovers => ?_
  obtain ⟨span, hspan, hle⟩ := h.start_le ho hb hf
  simp only [Fragment.covers, hspan, Option.any_some, Bool.and_eq_true, decide_eq_true_eq] at hcovers
  omega

/-- Each token is in the fragment that it is cut for and in no other one. -/
theorem Marks.filter_covers (h : Marks source toks labels fs) (ho : Successive toks) :
    List.Forall₂ (fun t label => fs.filter (·.covers t) = label.toList) toks labels := by
  induction h with
  | nil => exact .nil
  | @other t toks labels fs hrest ih =>
    refine .cons (hrest.filter_covers_eq_nil ho.of_cons (ho.nonempty t List.mem_cons_self) ?_) (ih ho.of_cons)
    exact (List.pairwise_cons.1 ho.increasing).1
  | @fragment first others rest labels fs hrest ih =>
    have hrun := ho.sublist (List.sublist_append_left (first :: others) rest)
    have horder := ho.sublist (List.sublist_append_right (first :: others) rest)
    refine List.rel_append ?_ ?_
    · refine List.forall₂_map_right_iff.2 (List.forall₂_same.2 fun t ht => ?_)
      have hcovers : (Fragment.ofTokens source first others).covers t = true := covers_ofTokens.2 (hrun.between t ht)
      rw [List.filter_cons, if_pos hcovers, hrest.filter_covers_eq_nil horder (hrun.nonempty t ht)]
      · rfl
      · exact fun u hu => (List.pairwise_append.1 ho.increasing).2.2 t ht u hu
    · have hnot : ∀ t ∈ rest, ¬ (Fragment.ofTokens source first others).covers t = true := by
        intro t ht
        rw [covers_ofTokens]
        have hstop := ho.stop_le t ht
        have hne := horder.nonempty t ht
        omega
      refine ((List.forall₂_and_left _ _).2 ⟨hnot, ih horder⟩).imp fun t label ⟨hnot, heq⟩ => ?_
      rw [List.filter_cons, if_neg hnot, heq]

end Spans

section Statements

variable {source : String}

/-- Decorators are cut from the lines before the keyword. -/
theorem exists_marks_readDecorators (source : String) (toks : List Token) :
    ∃ taken labels, toks = taken ++ (readDecorators source toks).2 ∧
      Marks source taken labels (readDecorators source toks).1 := by
  have hlines := decorated_readDecorators source toks
  generalize (readDecorators source toks).1 = decorators at hlines ⊢
  generalize (readDecorators source toks).2 = after at hlines ⊢
  induction hlines with
  | done => exact ⟨[], [], rfl, .nil⟩
  | @line t ts blank rest after decorators _ _ ih =>
    obtain ⟨taken, labels, rfl, hmarks⟩ := ih
    exact ⟨t :: ts ++ (blank ++ taken), _, by simp, (Marks.single t ts).append ((Marks.others blank).append hmarks)⟩

/-- A condition is cut from the tokens before the body. -/
theorem exists_marks_condition {toks rest : List Token} {condition : Option Fragment}
    (h : readOptionalCondition source toks = some (condition, rest)) (hb : Balanced (kinds toks)) :
    ∃ taken labels, toks = taken ++ rest ∧ Marks source taken labels condition.toList := by
  rcases readOptionalCondition_cases h hb with
    ⟨rfl, rfl⟩ | ⟨word, opening, first, others, close, rfl, -, -, -, -, rfl⟩
  · exact ⟨[], [], rfl, .nil⟩
  · have hinside : Marks source (first :: others ++ [close]) _ _ := (Marks.single first others).append (.others [close])
    exact ⟨word :: opening :: (first :: others ++ [close]), _, by simp, .other (.other hinside)⟩

/-- A statement with a body ends with the tokens of the body in braces. What it says before is cut from the tokens
before them. -/
theorem exists_outer {first : Token} {others : List Token} {body : ObjectLiteral}
    (hb : Balanced (kinds (first :: others))) (hbody : (readStatement source first others).1.body = some body) :
    ∃ outer labels opening inside close,
      first :: others = outer ++ opening :: (inside ++ close :: (readStatement source first others).2) ∧
      opening.kind = .braceOpen ∧ close.kind = .braceClose ∧ Balanced (kinds inside) ∧
      readEntries source (elements inside) = some body ∧
      Marks source outer labels ((readStatement source first others).1.decorators ++
        (readStatement source first others).1.condition.toList) := by
  obtain ⟨decorators, labels, hdecorators, hmarks⟩ := exists_marks_readDecorators source (first :: others)
  obtain ⟨head, _, after, opening, inside, close, hhead, -, -, hafter, hparts⟩ :=
    exists_declarationParts (balanced_readDecorators hb) hbody
  obtain ⟨condition, labels', hcondition, hmarks'⟩ := exists_marks_condition hparts.condition hafter
  obtain ⟨hinside, hclose⟩ := hparts.balanced hafter
  refine ⟨decorators ++ (head ++ condition), _, opening, inside, close, ?_, hparts.opens, hclose, hinside,
    hparts.entries, hmarks.append ((Marks.others head).append hmarks')⟩
  rw [hdecorators, hhead, hcondition, List.append_assoc, List.append_assoc]
  rfl

/-- The tokens of a body in a template: an opening brace, balanced tokens that it is read from, and the brace that
closes it and ends the statement. -/
structure BodyTokens (template : ScannedTemplate) (s : Statement) (body : ObjectLiteral) (before : List Token)
    (opening : Token) (inside : List Token) (close : Token) (after : List Token) : Prop where
  tokens : template.tokens = before ++ opening :: (inside ++ close :: after)
  opens : opening.kind = .braceOpen
  closes : close.kind = .braceClose
  balanced : Balanced (kinds inside)
  reads : readEntries template.source (elements inside) = some body
  starts : s.span.start ≤ opening.span.start
  stops : close.span.stop = s.span.stop

/-- Where the tokens of a body stand, and what the statement before them is cut from. -/
theorem exists_bodyTokens {template : ScannedTemplate} (h : scan source = .ok template) {s : Statement}
    (hs : s ∈ template.statements) {body : ObjectLiteral} (hbody : s.body = some body) :
    ∃ before outer labels opening inside close after,
      BodyTokens template s body (before ++ outer) opening inside close after ∧
      Marks template.source outer labels (s.decorators ++ s.condition.toList) ∧
      ∀ t ∈ outer ++ opening :: (inside ++ [close]), s.Owns t := by
  obtain ⟨l, -, rfl⟩ := scan_eq_ok_iff.1 h
  obtain ⟨before, first, run, after, htokens, hrun, hbalanced⟩ := l.exists_balancedRun hs
  have hreads := hrun.reads
  obtain ⟨outer, labels, opening, inside, close, hall, ho, hc, hinside, hentries, hmarks⟩ :=
    exists_outer hbalanced (show (readStatement source first (run ++ after)).1.body = some body by rw [hreads, hbody])
  rw [hreads] at hall hmarks
  have hstatement : first :: run = outer ++ opening :: (inside ++ [close]) := by
    have hall' : (first :: run) ++ after = (outer ++ opening :: (inside ++ [close])) ++ after := by
      rw [List.cons_append, hall]
      simp
    exact List.append_cancel_right hall'
  have horder : Successive (first :: run) := by
    refine l.successive.sublist ?_
    rw [htokens, ← List.cons_append]
    exact (List.sublist_append_left _ _).trans (List.sublist_append_right _ _)
  have howns : ∀ t ∈ outer ++ opening :: (inside ++ [close]), s.Owns t := by
    rw [← hstatement]
    intro t ht
    rw [Statement.Owns, hrun.span]
    exact horder.between t ht
  have hlast : run.getLast?.getD first = close := by
    have hget := congrArg List.getLast? hstatement
    rw [List.getLast?_cons, ← List.cons_append, ← List.append_assoc, List.getLast?_concat] at hget
    exact Option.some.inj hget
  refine ⟨before, outer, labels, opening, inside, close, after, ⟨?_, ho, hc, hinside, hentries, ?_, ?_⟩, hmarks, howns⟩
  · rw [htokens, hall, List.append_assoc]
  · exact (howns opening (by simp)).1
  · rw [hrun.span, hlast]

/-- The tree of a body covers its tokens, and the fragments of the statement are parts of its span. -/
structure CoversBody (template : ScannedTemplate) (s : Statement) (body : ObjectLiteral) : Prop where
  /-- Each fragment is the text of its span, which is a part of the span of the statement. -/
  fragments : ∀ f ∈ s.fragments, ∃ span, f.span = some span ∧ slice? template.source span = some f.raw ∧
    s.span.start ≤ span.start ∧ span.start < span.stop ∧ span.stop ≤ s.span.stop
  /-- Decorators, the condition and the fragments of the body stop before later ones start. -/
  increasing : s.fragments.Pairwise fun f g => ∀ a b, f.span = some a → g.span = some b → a.stop ≤ b.start
  /-- Every token between the braces has one role in the tree. If that is the role of a fragment, the token stands in
  the span of this fragment of the tree and of no other one, else in that of none. -/
  roles : ∃ before opening inside close after, BodyTokens template s body before opening inside close after ∧
    ∃ roles, HasRoles template.source (.entries body) inside roles ∧
      (∀ roles', HasRoles template.source (.entries body) inside roles' → roles' = roles) ∧
      List.Forall₂ (fun t role => (Value.object body).fragments.filter (·.covers t) = role.fragment?.toList)
        inside roles

/-- The tree of every body covers it. -/
theorem scan_covers_bodies {template : ScannedTemplate} (h : scan source = .ok template) {s : Statement}
    (hs : s ∈ template.statements) {body : ObjectLiteral} (hbody : s.body = some body) :
    CoversBody template s body := by
  obtain ⟨before, outer, labels, opening, inside, close, after, htokens, hmarks, howns⟩ := exists_bodyTokens h hs hbody
  obtain ⟨roles, hroles⟩ := exists_roles_readEntries (elements inside) (parted_elements htokens.balanced) htokens.reads
  have horder : Successive template.tokens := by
    obtain ⟨l, -, rfl⟩ := scan_eq_ok_iff.1 h
    exact l.successive
  rw [htokens.tokens] at horder
  have hinside : Successive inside := horder.sublist ((List.sublist_append_left _ _).trans
    ((List.sublist_cons_self _ _).trans (List.sublist_append_right _ _)))
  have hstatement : Successive (outer ++ opening :: (inside ++ [close])) := by
    refine horder.sublist ?_
    have hall : before ++ outer ++ opening :: (inside ++ close :: after) =
        before ++ ((outer ++ opening :: (inside ++ [close])) ++ after) := by simp
    rw [hall]
    exact (List.sublist_append_left _ _).trans (List.sublist_append_right _ _)
  have hall := hmarks.append (.other (t := opening) (hroles.marks.append (.others [close])))
  have hfragments : s.decorators ++ s.condition.toList ++ ((Branch.entries body).fragments ++ []) = s.fragments := by
    rw [Statement.fragments, hbody, List.append_nil]
    rfl
  rw [hfragments] at hall
  refine ⟨fun f hf => ?_, hall.increasing hstatement, _, opening, inside, close, after, htokens, roles, hroles,
    fun roles' => hroles.unique, ?_⟩
  · obtain ⟨span, hspan, hstart, hne, hstop⟩ := hall.within hstatement howns f hf
    obtain ⟨span', hspan', -, hslice⟩ := (soundScan h).fragments s hs f hf
    rw [hspan] at hspan'
    obtain rfl := Option.some.inj hspan'
    exact ⟨span, hspan, hslice, hstart, hne, hstop⟩
  · have hcovers := hroles.marks.filter_covers hinside
    rw [List.forall₂_map_right_iff] at hcovers
    exact hcovers

/-- The template of a text that can be read. -/
def scanned (source : String) : ScannedTemplate :=
  ⟨source, tokensOf source, readStatements source (tokensOf source)⟩

/-- A text that can be tokenized can be scanned. -/
theorem scan_scanned (h : (tokenize source).isOk = true) : scan source = .ok (scanned source) := by
  rw [scan, tokenize_eq h]
  rfl

/-- A resource with a decorator, a condition, a key in quotes, a negative number and nested brackets. -/
def coveredSource : String :=
  "@sys('x')\nresource sa 'T/a@2020-01-01' = if (b) \x7b\n  'n': -1, t: [ // c\n    true\n    f(\n)\n  ]\n" ++
    "  o: \x7b p: 'x$\x7by\x7d' \x7d\n\x7d\n"

/-- A body with expressions, strings and a condition has four fragments, and they cover it. -/
theorem scan_covers_bodies_conditional :
    scan coveredSource = .ok (scanned coveredSource) ∧
      ∃ s ∈ (scanned coveredSource).statements, ∃ body, s.body = some body ∧
      s.fragments.map (·.raw) = ["@sys('x')", "b", "f(\n)", "'x$\x7by\x7d'"] ∧
      CoversBody (scanned coveredSource) s body := by
  have h : scan coveredSource = .ok (scanned coveredSource) := scan_scanned (by decide +kernel)
  have hall : (scanned coveredSource).statements.map (fun s => (s.body.isSome, s.fragments.map (·.raw))) =
      [(true, ["@sys('x')", "b", "f(\n)", "'x$\x7by\x7d'"])] := by decide +kernel
  obtain ⟨s, hs, hparts⟩ := List.mem_map.1 (hall ▸ List.mem_singleton_self _)
  obtain ⟨hsome, hraw⟩ := Prod.mk.inj hparts
  obtain ⟨body, hbody⟩ := Option.isSome_iff_exists.1 hsome
  exact ⟨h, s, hs, body, hbody, hraw, scan_covers_bodies h hs hbody⟩

end Statements

end BicepMigration.Template
