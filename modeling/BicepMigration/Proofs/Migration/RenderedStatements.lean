import BicepMigration.Proofs.Migration.ElidedStatements
import BicepMigration.Proofs.Migration.Frame

/-!
# Statements that are written as module calls

A statement with a body can be written as a module call, with its own decorators, condition and body. That text alone
is a template with one statement, which declares the module and says what was written: keys, quotes, order, values and
the text of every fragment are those of the statement. So writing it once more changes nothing. Main statement:
scanning undoes rendering, apart from places.
-/

namespace BicepMigration.Migration

open Catalog Template Text

section Writing

variable {edited edited' : EditedText}

/-- Properties are written without regard to places if their values are. -/
theorem renderEntries_unplaced {ps : List (Property Value)}
    (h : ∀ p ∈ ps, ∀ depth, renderValue edited depth p.value = renderValue edited' depth p.value.unplaced)
    (depth : Nat) : renderEntries edited depth ps = renderEntries edited' depth (ObjectLiteral.unplaced ps) := by
  induction ps with
  | nil => rfl
  | cons p ps ih =>
    obtain ⟨key, quoted, value, line⟩ := p
    simp only [ObjectLiteral.unplaced, Value.recastEntries, renderEntries] at ih ⊢
    rw [ih fun q hq => h q (List.mem_cons_of_mem _ hq), h _ List.mem_cons_self depth]

/-- Elements are written without regard to places if they are. -/
theorem renderItems_unplaced {vs : List Value}
    (h : ∀ v ∈ vs, ∀ depth, renderValue edited depth v = renderValue edited' depth v.unplaced) (depth : Nat) :
    renderItems edited depth vs = renderItems edited' depth (Value.recastItems (·.raw) vs) := by
  induction vs with
  | nil => rfl
  | cons v vs ih =>
    simp only [Value.recastItems, renderItems]
    rw [ih fun w hw => h w (List.mem_cons_of_mem _ hw), h _ List.mem_cons_self depth]

/-- What is written for a value does not depend on its places, if its fragments are written as they were read. -/
theorem renderValue_unplaced {v : Value} (h : v.Holds (fun f => edited.fragment f = f.raw) fun _ => True)
    (depth : Nat) : renderValue edited depth v = renderValue edited' depth v.unplaced := by
  induction h generalizing depth with
  | string h | interpolated h | expression h =>
    rw [renderValue, h]
    rfl
  | number _ => rfl
  | bool _ => rfl
  | null => rfl
  | @object entries _ _ ih =>
    cases entries with
    | nil => rfl
    | cons p ps =>
      have hentries := (@renderEntries_unplaced edited edited') (fun q hq depth => ih q hq depth) (depth + 1)
      simp only [ObjectLiteral.unplaced, Value.recastEntries, Value.recast, renderValue] at hentries ⊢
      rw [hentries]
  | @array items _ ih =>
    cases items with
    | nil => rfl
    | cons v vs =>
      have hitems := (@renderItems_unplaced edited edited') (fun w hw depth => ih w hw depth) (depth + 1)
      simp only [Value.recastItems, Value.recast, renderValue] at hitems ⊢
      rw [hitems]

end Writing

section Reading

variable {parts : CallLexemes} {edited : EditedText} {call : ModuleCall}

/-- Lexemes that can be written in place of a statement are a template of their own. -/
theorem exists_layout_of_isBlock {first : Lexeme} {others : List Lexeme} (hb : IsBlock first others)
    (hgap : first.gap = []) : ∃ l : Layout, l.lexemes = first :: others ∧ l.chars = bare (first :: others) := by
  have hwritten : written (first :: others) = bare (first :: others) := by
    rw [written_cons, hgap]
    rfl
  obtain ⟨-, ⟨hspelled, -⟩, -⟩ := hb.legible []
  obtain ⟨c, cs, htext, -, hmark⟩ := head_of_spelled hspelled hb.starts
  refine ⟨
    { mark := []
      lexemes := first :: others
      tail := []
      mark_eq := .inl rfl
      head_ne := fun _ => ?_
      legible := hb.legible []
      isGap := .nil
      balanced := hb.balanced }, rfl, ?_⟩
  · rw [hwritten, List.append_nil, bare, htext]
    simpa using hmark
  · simp only [Layout.chars, List.nil_append, List.append_nil, hwritten]

/-- The text of a module call alone is a template with one statement, which is read from the call. -/
theorem scan_of_show (h : parts.Show edited call) (hplain : IsPlain call.locator)
    (hquote : '\'' ∉ call.locator.toList) :
    ∃ again s, scan (call.render edited) = .ok again ∧ again.statements = [s] ∧
      ReadsCall (call.render edited) parts.leaves call s := by
  obtain ⟨first, others, hall, hblock, htext⟩ := h.exists_isBlock
  obtain ⟨first', others', hall', hgap, -⟩ := h.exists_first
  obtain ⟨rfl, rfl⟩ := List.cons.inj (hall.symm.trans hall')
  obtain ⟨l, hlexemes, hchars⟩ := exists_layout_of_isBlock hblock hgap
  have hsource : (call.render edited).toList = l.chars := by rw [htext, String.toList_ofList, hchars]
  have hplaced := l.placed hsource
  rw [hlexemes, ← hall] at hplaced
  obtain ⟨t, ts, htoks, hsingle, hreads⟩ := h.exists_readsCall hplain hquote hplaced
  refine ⟨_, _, scan_of_layout hsource, ?_, hreads⟩
  have hnewline : t.kind ≠ .newline := by
    rw [hall, tokensAt_cons] at htoks
    rw [← (List.cons.inj htoks).1]
    rcases hblock.starts with hk | hk <;> simp [hk]
  have hstatements : readStatements (call.render edited) (t :: ts) =
      (readStatement (call.render edited) t ts).1 :: readStatements (call.render edited) [] := by
    have hcons := (@readStatements_cons (call.render edited) t ts []) (by simp) hnewline
    rwa [hsingle.rest] at hcons
  rw [(@readStatements_newlines _ []) (by simp)] at hstatements
  simp only [Layout.tokens, hlexemes, ← hall, htoks, hstatements]

end Reading

/-- A statement of a text as the text of a module call. -/
abbrev callText (source : String) (s : Statement) (symbol locator : String) (body : ObjectLiteral) : String :=
  (asCall s symbol locator body).render (.unedited source)

/-- A module says what a statement says with another symbol and locator: the same decorators and condition, and the
same body apart from places. -/
structure SaysAgain (s : Statement) (symbol locator : String) (body : ObjectLiteral) (s' : Statement)
    (body' : ObjectLiteral) : Prop where
  kind : s'.kind = .module
  symbol : s'.symbol = some symbol
  target : s'.target = some locator
  decorators : s'.decorators.map (·.raw) = s.decorators.map (·.raw)
  condition : s'.condition.map (·.raw) = s.condition.map (·.raw)
  existing : s'.existing = false
  looped : s'.looped = false
  unplaced : body'.unplaced = body.unplaced
  body : s'.body = some body'

/-- A body of a template is written as it was read. -/
theorem renderValue_body {source : String} {template : ScannedTemplate} (h : scan source = .ok template)
    {s : Statement} (hs : s ∈ template.statements) {body : ObjectLiteral} (hbody : s.body = some body)
    (edited : EditedText) (depth : Nat) :
    renderValue (.unedited source) depth (.object body) = renderValue edited depth (Value.object body).unplaced := by
  have hread := (statementHolds_of_scan h s hs).body body hbody
  rw [← source_of_scan h]
  exact renderValue_unplaced (hread.imp fun v hv hv' =>
    (hv'.holds hv).imp (fun f hf => fragment_unedited hf) fun _ _ => trivial).holds depth

/-- Statements of two templates that say the same are written alike. -/
theorem callText_eq {source source' : String} {template template' : ScannedTemplate} {s s' : Statement}
    {symbol locator : String} {body body' : ObjectLiteral} (h : scan source = .ok template)
    (hs : s ∈ template.statements) (hbody : s.body = some body) (h' : scan source' = .ok template')
    (hs' : s' ∈ template'.statements) (hagree : SaysAgain s symbol locator body s' body') :
    callText source' s' symbol locator body' = callText source s symbol locator body := by
  have hvalue := renderValue_body h' hs' hagree.body (.unedited source) 0
  have hsame : (Value.object body').unplaced = (Value.object body).unplaced := congrArg Value.object hagree.unplaced
  rw [hsame, ← renderValue_body h hs hbody] at hvalue
  simp only [callText, ModuleCall.render, ModuleCall.header, asCall, hvalue, hagree.decorators, hagree.condition]

/-- A statement that is written as a module call is read again: its text alone is a template with one module, which
says the same, and is written as the same text. -/
theorem scan_callText {source symbol locator : String} {template : ScannedTemplate} {s : Statement}
    {body : ObjectLiteral} (h : scan source = .ok template) (hs : s ∈ template.statements)
    (hbody : s.body = some body) (hsymbol : isIdentifier symbol = true) (hplain : IsPlain locator)
    (hquote : '\'' ∉ locator.toList) :
    ∃ again s' body', scan (callText source s symbol locator body) = .ok again ∧ again.statements = [s'] ∧
      SaysAgain s symbol locator body s' body' ∧
      callText (callText source s symbol locator body) s' symbol locator body' =
        callText source s symbol locator body := by
  obtain ⟨l, hsource, hchars, htokens, -⟩ := exists_layout h
  rw [← hsource] at hchars
  have hholds := statementHolds_of_scan h s hs
  have hread := hholds.body body hbody
  have hwritten := isWritten_asCall hchars htokens hholds (isName_of_isIdentifier hsymbol) hquote
    (isReadable_of_isPlain hplain hquote) hread
  obtain ⟨parts, hshow⟩ := hwritten.exists_callLexemes (renders_raw hchars htokens) (renders_raw hchars htokens)
  obtain ⟨again, s', hagain, hstatements, hcall⟩ := scan_of_show hshow hplain hquote
  obtain ⟨body', hbody', hentries⟩ := hcall.body
  rw [hsource] at hagain
  have hagree : SaysAgain s symbol locator body s' body' :=
    { kind := hcall.kind
      symbol := hcall.symbol
      target := hcall.target
      decorators := hcall.decorators
      condition := hcall.condition
      existing := hcall.existing
      looped := hcall.looped
      unplaced := unplaced_of_entriesReadFrom (rereads_of_mem hchars htokens hread hshow.body) hentries
      body := hbody' }
  refine ⟨again, s', body', hagain, hstatements, hagree, callText_eq h hs hbody hagain ?_ hagree⟩
  rw [hstatements]
  exact List.mem_singleton_self s'

/-- A resource with a decorator, a condition, and values of every kind. -/
def storeSource : String :=
  "@secure('it\\'s')\nresource sa 'T/a@1' = if (on && (n > 1)) \x7b\n  name: 'a$\x7bb\x7d' // as\n  'q k': -1\n" ++
  "  list: [\n    1, -2 - 3\n    \x7b a: '''x\ny''' \x7d\n    []\n  ]\n  spread: \x7b ...o \x7d\n  none: null, e: \x7b\x7d\n\x7d\n"

/-- A body with six properties is written and read again. -/
theorem scan_callText_store : isIdentifier "saModule" = true ∧ IsPlain "br:m/a" ∧ '\'' ∉ "br:m/a".toList ∧
    ∃ template, scan storeSource = .ok template ∧ ∃ s ∈ template.statements, ∃ body, s.body = some body ∧
      body.length = 6 ∧ ∃ again s' body', scan (callText storeSource s "saModule" "br:m/a" body) = .ok again ∧
        again.statements = [s'] ∧ SaysAgain s "saModule" "br:m/a" body s' body' ∧
        callText (callText storeSource s "saModule" "br:m/a" body) s' "saModule" "br:m/a" body' =
          callText storeSource s "saModule" "br:m/a" body := by
  have hbody : ∃ s ∈ (templateOf storeSource).statements, s.body.map List.length = some 6 := by decide +kernel
  obtain ⟨s, hs, hlength⟩ := hbody
  obtain ⟨body, hbody, hlength⟩ := Option.map_eq_some_iff.1 hlength
  have h := scan_of_mem_templateOf hs
  exact ⟨by decide, by decide, by decide, _, h, s, hs, body, hbody, hlength,
    scan_callText h hs hbody (by decide) (by decide) (by decide)⟩

end BicepMigration.Migration
