import Mathlib.Data.List.Forall2
import Mathlib.Data.List.TakeWhile
import BicepMigration.Catalog.VersionRange
import BicepMigration.Proofs.Catalog.VersionText

/-!
# What the words of a range say

A range is written as bounds or as exact versions. Bounds are to hold all together, and of exact versions one is to be
met. The reader keeps one lower bound and one upper bound, the last of each kind. Main statement: if these are the
tightest, a version belongs to the range exactly if it meets all bounds, and bounds that contradict each other are
refused. A looser bound that comes later takes the place of a tighter one.
-/

namespace BicepMigration.Catalog

open Text

namespace Clause

/-- A word says a clause. -/
inductive Says : List Char → Clause → Prop where
  | atLeast {text : List Char} {v : ApiVersion} : ApiVersion.read? (String.ofList text) = some v →
      Says ('>' :: '=' :: text) (atLeast v)
  | atMost {text : List Char} {v : ApiVersion} : ApiVersion.read? (String.ofList text) = some v →
      Says ('<' :: '=' :: text) (atMost v)
  | exactly {word : List Char} {v : ApiVersion} : ApiVersion.read? (String.ofList word) = some v →
      Says word (exactly v)

/-- A version meets a clause. -/
def Admits : Clause → ApiVersion → Prop
  | atLeast a, v => a ≤ v
  | atMost b, v => v ≤ b
  | exactly a, v => v = a

/-- The clause is a bound and not an exact version. -/
def isBound : Clause → Bool
  | atLeast _ | atMost _ => true
  | exactly _ => false

/-- Only a lower bound has a least version. -/
theorem least?_eq_some_iff {c : Clause} {v : ApiVersion} : c.least? = some v ↔ c = atLeast v := by
  cases c <;> simp [least?]

/-- Only an upper bound has a greatest version. -/
theorem greatest?_eq_some_iff {c : Clause} {v : ApiVersion} : c.greatest? = some v ↔ c = atMost v := by
  cases c <;> simp [greatest?]

/-- Only an exact clause has a single version. -/
theorem single?_eq_some_iff {c : Clause} {v : ApiVersion} : c.single? = some v ↔ c = exactly v := by
  cases c <;> simp [single?]

/-- A version of a range is read like any version. -/
theorem readVersion_eq_ok_iff {text : String} {v : ApiVersion} :
    readVersion text = .ok v ↔ ApiVersion.read? text = some v := by
  unfold readVersion
  cases ApiVersion.read? text <;> simp

/-- A version starts with a digit or a plus sign. -/
theorem head_of_read? {c : Char} {cs : List Char} {v : ApiVersion}
    (h : ApiVersion.read? (String.ofList (c :: cs)) = some v) : c = '+' ∨ c.isDigit = true := by
  obtain ⟨year, month, day, suffix, htext, hyear, -⟩ := read?_eq_some_iff_fields.1 h
  obtain ⟨hlength, hall⟩ := length_of_readField hyear
  obtain ⟨d, year, rfl⟩ := List.exists_cons_of_length_eq_add_one hlength
  rw [String.toList_ofList] at htext
  obtain ⟨rfl, -⟩ := List.cons.inj htext
  exact hall _ List.mem_cons_self

/-- A result is mapped if there is one. -/
theorem map_eq_ok_iff {α β ε : Type} {f : α → β} {x : Except ε α} {b : β} :
    x.map f = .ok b ↔ ∃ a, x = .ok a ∧ f a = b := by
  cases x <;> simp [Except.map]

/-- A word is read as what it says. -/
theorem read_eq_ok_iff {word : List Char} {clause : Clause} : read word = .ok clause ↔ Says word clause := by
  constructor
  · intro h
    unfold read at h
    split at h
    · obtain ⟨v, hv, rfl⟩ := map_eq_ok_iff.1 h
      exact .atLeast (readVersion_eq_ok_iff.1 hv)
    · obtain ⟨v, hv, rfl⟩ := map_eq_ok_iff.1 h
      exact .atMost (readVersion_eq_ok_iff.1 hv)
    · cases h
    · cases h
    · obtain ⟨v, hv, rfl⟩ := map_eq_ok_iff.1 h
      exact .exactly (readVersion_eq_ok_iff.1 hv)
  · intro h
    cases h with
    | atLeast hv => rw [read, readVersion_eq_ok_iff.2 hv]; rfl
    | atMost hv => rw [read, readVersion_eq_ok_iff.2 hv]; rfl
    | exactly hv =>
      have hsign {c : Char} {cs : List Char} (hc : word = c :: cs) : c ≠ '>' ∧ c ≠ '<' := by
        subst hc
        rcases head_of_read? hv with rfl | hdigit
        · decide
        · exact ⟨ne_of_isDigit hdigit (by decide), ne_of_isDigit hdigit (by decide)⟩
      unfold read
      split
      · exact absurd rfl (hsign rfl).1
      · exact absurd rfl (hsign rfl).2
      · exact absurd rfl (hsign rfl).1
      · exact absurd rfl (hsign rfl).2
      · rw [readVersion_eq_ok_iff.2 hv]; rfl

/-- Words are read as clauses if each of them says one. -/
theorem mapM_eq_ok_iff {words : List (List Char)} {clauses : List Clause} :
    words.mapM read = .ok clauses ↔ List.Forall₂ Says words clauses := by
  induction words generalizing clauses with
  | nil => cases clauses <;> simp [pure, Except.pure]
  | cons word words ih =>
    rw [List.mapM_cons]
    constructor
    · intro h
      cases hword : read word with
      | error fault => simp [hword, bind, Except.bind] at h
      | ok clause =>
        cases hwords : words.mapM read with
        | error fault => simp [hword, hwords, bind, Except.bind] at h
        | ok others =>
          simp only [hword, hwords, bind, Except.bind, pure, Except.pure, Except.ok.injEq] at h
          subst h
          exact .cons (read_eq_ok_iff.1 hword) (ih.1 hwords)
    · intro h
      cases h with
      | cons hword hwords =>
        rw [read_eq_ok_iff.2 hword, ih.2 hwords]
        rfl

end Clause

/-- A range is written as clauses, of which there is at least one. -/
def Spells (spec : String) (clauses : List Clause) : Prop :=
  clauses ≠ [] ∧ List.Forall₂ Clause.Says (wordsOf (trim spec).toList) clauses

/-- Of the bounds of each kind the last one is the tightest. -/
structure LastTightest (clauses : List Clause) : Prop where
  least : ∀ last, (clauses.filterMap Clause.least?).getLast? = some last → ∀ a, .atLeast a ∈ clauses → a ≤ last
  greatest : ∀ last, (clauses.filterMap Clause.greatest?).getLast? = some last → ∀ b, .atMost b ∈ clauses → last ≤ b

/-- A lower bound lies above an upper one. -/
def Contradict (clauses : List Clause) : Prop :=
  ∃ a b, .atLeast a ∈ clauses ∧ .atMost b ∈ clauses ∧ ¬ a ≤ b

section Clauses

variable {spec : String} {clauses : List Clause} {v : ApiVersion}

/-- The order of versions is transitive. -/
theorem ApiVersion.le_trans {a b c : ApiVersion} (hab : a ≤ b) (hbc : b ≤ c) : a ≤ c :=
  Nat.le_trans (show a.rank ≤ b.rank from hab) hbc

/-- Where there is an element there is a last one. -/
theorem exists_last_of_mem {α : Type} {a : α} {l : List α} (h : a ∈ l) : ∃ last, l.getLast? = some last :=
  ⟨_, List.getLast?_eq_some_getLast (List.ne_nil_of_mem h)⟩

/-- The lower bounds are those of the clauses. -/
theorem mem_filterMap_least? : v ∈ clauses.filterMap Clause.least? ↔ .atLeast v ∈ clauses := by
  simp [Clause.least?_eq_some_iff]

/-- The upper bounds are those of the clauses. -/
theorem mem_filterMap_greatest? : v ∈ clauses.filterMap Clause.greatest? ↔ .atMost v ∈ clauses := by
  simp [Clause.greatest?_eq_some_iff]

/-- The exact versions are those of the clauses. -/
theorem mem_filterMap_single? : v ∈ clauses.filterMap Clause.single? ↔ .exactly v ∈ clauses := by
  simp [Clause.single?_eq_some_iff]

/-- The range between the last bounds holds what meets all bounds, if these are the tightest. -/
theorem contains_bounded_iff (hbounds : ∀ c ∈ clauses, c.isBound = true) (hlast : LastTightest clauses) :
    (VersionRange.bounded (clauses.filterMap Clause.least?).getLast?
      (clauses.filterMap Clause.greatest?).getLast?).contains v = true ↔ ∀ c ∈ clauses, c.Admits v := by
  simp only [VersionRange.contains, Bool.and_eq_true, Option.all_eq_true, decide_eq_true_eq]
  constructor
  · rintro ⟨hleast, hgreatest⟩ c hc
    cases c with
    | atLeast a =>
      obtain ⟨last, hl⟩ := exists_last_of_mem (mem_filterMap_least?.2 hc)
      exact ApiVersion.le_trans (hlast.least last hl a hc) (hleast last hl)
    | atMost b =>
      obtain ⟨last, hl⟩ := exists_last_of_mem (mem_filterMap_greatest?.2 hc)
      exact ApiVersion.le_trans (hgreatest last hl) (hlast.greatest last hl b hc)
    | exactly a => exact absurd (hbounds _ hc) (by simp [Clause.isBound])
  · intro h
    constructor
    · exact fun a ha => h _ (mem_filterMap_least?.1 (List.mem_of_getLast? ha))
    · exact fun b hb => h _ (mem_filterMap_greatest?.1 (List.mem_of_getLast? hb))

/-- Bounds contradict each other if the last ones do, and only then if these are the tightest. -/
theorem contradict_iff (hlast : LastTightest clauses) :
    Contradict clauses ↔ ∃ a b, (clauses.filterMap Clause.least?).getLast? = some a ∧
      (clauses.filterMap Clause.greatest?).getLast? = some b ∧ ¬ a ≤ b := by
  constructor
  · rintro ⟨a, b, ha, hb, hab⟩
    obtain ⟨least, hl⟩ := exists_last_of_mem (mem_filterMap_least?.2 ha)
    obtain ⟨greatest, hg⟩ := exists_last_of_mem (mem_filterMap_greatest?.2 hb)
    refine ⟨least, greatest, hl, hg, fun h => hab ?_⟩
    exact ApiVersion.le_trans (hlast.least _ hl _ ha) (ApiVersion.le_trans h (hlast.greatest _ hg _ hb))
  · rintro ⟨a, b, ha, hb, hab⟩
    exact ⟨a, b, mem_filterMap_least?.1 (List.mem_of_getLast? ha), mem_filterMap_greatest?.1 (List.mem_of_getLast? hb),
      hab⟩

/-- A text that is not empty when it is trimmed has words. -/
theorem wordsOf_trim_ne_nil {text : String} (h : trim text ≠ "") : wordsOf (trim text).toList ≠ [] := by
  intro hwords
  have hblank : ∀ c ∈ (trim text).toList, isBlank c = true := by
    unfold wordsOf at hwords
    split at hwords
    · next hd => exact List.dropWhile_eq_nil_iff.1 hd
    · cases hwords
  unfold trim trimEnd at h hblank
  rw [String.toList_ofList] at hblank
  -- the last character that trimming leaves is no white space
  cases hd : (text.toList.dropWhile isBlank).reverse.dropWhile isBlank with
  | nil => exact h (by rw [hd]; rfl)
  | cons c cs =>
    have hc : isBlank c = false := by
      have hnot := List.head_dropWhile_not isBlank (l := (text.toList.dropWhile isBlank).reverse) (by simp [hd])
      simpa [hd] using hnot
    rw [hblank c (by simp [hd])] at hc
    cases hc

/-- A range that is written as clauses is neither empty nor a star. -/
theorem Spells.not_any (h : Spells spec clauses) : ¬ (trim spec = "" ∨ trim spec = "*") := by
  obtain ⟨hne, hsays⟩ := h
  rintro (htrim | htrim)
  · have hwords : wordsOf (trim spec).toList = [] := by
      rw [htrim, wordsOf]
      rfl
    rw [hwords] at hsays
    cases hsays
    exact hne rfl
  · have hwords : wordsOf (trim spec).toList = [['*']] := by
      rw [htrim]
      decide +kernel
    rw [hwords] at hsays
    cases hsays with
    | cons hsay _ =>
      cases hsay with
      | exactly hv => exact absurd (Clause.head_of_read? hv) (by decide)

/-- What is written as clauses is read by the last bounds, or as a list of exact versions. -/
theorem read_of_spells (h : Spells spec clauses) :
    VersionRange.read spec =
      match clauses.filterMap Clause.single?, (clauses.filterMap Clause.least?).getLast?,
        (clauses.filterMap Clause.greatest?).getLast? with
      | [], some a, some b => if a ≤ b then .ok (.bounded (some a) (some b)) else .error (.empty (trim spec))
      | [], least, greatest => .ok (.bounded least greatest)
      | versions, none, none => .ok (.exact versions)
      | _, _, _ => .error (.mixed (trim spec)) := by
  have hany : ¬ (trim spec = "" || trim spec = "*") = true := by simpa using h.not_any
  unfold VersionRange.read
  simp only [if_neg hany, Clause.mapM_eq_ok_iff.2 h.2]
  cases clauses.filterMap Clause.single? <;> cases (clauses.filterMap Clause.least?).getLast? <;>
    cases (clauses.filterMap Clause.greatest?).getLast? <;> rfl

/-- There is no exact version if all clauses are bounds. -/
theorem filterMap_single?_eq_nil_iff :
    clauses.filterMap Clause.single? = [] ↔ ∀ c ∈ clauses, c.isBound = true := by
  rw [List.filterMap_eq_nil_iff]
  refine forall₂_congr fun c _ => ?_
  cases c <;> simp [Clause.single?, Clause.isBound]

/-- There are no bounds if no clause is one. -/
theorem filterMap_bounds_eq_nil_iff :
    (clauses.filterMap Clause.least? = [] ∧ clauses.filterMap Clause.greatest? = []) ↔
      ∀ c ∈ clauses, c.isBound = false := by
  rw [List.filterMap_eq_nil_iff, List.filterMap_eq_nil_iff, ← forall₂_and]
  refine forall₂_congr fun c _ => ?_
  cases c <;> simp [Clause.least?, Clause.greatest?, Clause.isBound]

end Clauses

/-- A range means what its words say. -/
structure ReadsClauses (spec : String) : Prop where
  /-- Nothing, or a star, stands for all versions. -/
  any : trim spec = "" ∨ trim spec = "*" → ∃ range, VersionRange.read spec = .ok range ∧ ∀ v, range.contains v = true
  /-- Of bounds all are to be met. -/
  bounds : ∀ clauses, Spells spec clauses → (∀ c ∈ clauses, c.isBound = true) → LastTightest clauses →
    ¬ Contradict clauses → ∃ range, VersionRange.read spec = .ok range ∧
      ∀ v, range.contains v = true ↔ ∀ c ∈ clauses, c.Admits v
  /-- Bounds that cannot be met are refused. -/
  contradictory : ∀ clauses, Spells spec clauses → (∀ c ∈ clauses, c.isBound = true) → LastTightest clauses →
    Contradict clauses → VersionRange.read spec = .error (.empty (trim spec))
  /-- Of exact versions one is to be met. -/
  exact : ∀ clauses, Spells spec clauses → (∀ c ∈ clauses, c.isBound = false) →
    ∃ range, VersionRange.read spec = .ok range ∧ ∀ v, range.contains v = true ↔ ∃ c ∈ clauses, c.Admits v
  /-- Nothing else is accepted. -/
  accepted : ∀ range, VersionRange.read spec = .ok range → trim spec = "" ∨ trim spec = "*" ∨
    ∃ clauses, Spells spec clauses ∧ ((∀ c ∈ clauses, c.isBound = true) ∨ ∀ c ∈ clauses, c.isBound = false)

section Clauses

variable {spec : String} {clauses : List Clause}

/-- Bounds that can all be met are read as the range between the last ones. -/
theorem read_bounds (h : Spells spec clauses) (hbounds : ∀ c ∈ clauses, c.isBound = true)
    (hlast : LastTightest clauses) (hmeet : ¬ Contradict clauses) :
    VersionRange.read spec = .ok (.bounded (clauses.filterMap Clause.least?).getLast?
      (clauses.filterMap Clause.greatest?).getLast?) := by
  rw [contradict_iff hlast] at hmeet
  rw [read_of_spells h, filterMap_single?_eq_nil_iff.2 hbounds]
  cases hl : (clauses.filterMap Clause.least?).getLast? with
  | none => rfl
  | some a =>
    cases hg : (clauses.filterMap Clause.greatest?).getLast? with
    | none => rfl
    | some b => exact if_pos (Classical.not_not.1 fun hab => hmeet ⟨a, b, hl, hg, hab⟩)

/-- Bounds that contradict each other are refused. -/
theorem read_contradictory (h : Spells spec clauses) (hbounds : ∀ c ∈ clauses, c.isBound = true)
    (hlast : LastTightest clauses) (hcontradict : Contradict clauses) :
    VersionRange.read spec = .error (.empty (trim spec)) := by
  obtain ⟨a, b, hl, hg, hab⟩ := (contradict_iff hlast).1 hcontradict
  rw [read_of_spells h, filterMap_single?_eq_nil_iff.2 hbounds, hl, hg]
  exact if_neg hab

/-- Exact versions are read as their list. -/
theorem read_exact (h : Spells spec clauses) (hexact : ∀ c ∈ clauses, c.isBound = false) :
    VersionRange.read spec = .ok (.exact (clauses.filterMap Clause.single?)) := by
  obtain ⟨hleast, hgreatest⟩ := filterMap_bounds_eq_nil_iff.2 hexact
  rw [read_of_spells h, hleast, hgreatest]
  cases hsingle : clauses.filterMap Clause.single? with
  | nil =>
    obtain ⟨c, cs, rfl⟩ := List.exists_cons_of_ne_nil h.1
    have hbound := filterMap_single?_eq_nil_iff.1 hsingle c List.mem_cons_self
    rw [hexact c List.mem_cons_self] at hbound
    cases hbound
  | cons a versions => rfl

/-- A range of exact versions holds the versions that one of its clauses admits. -/
theorem contains_exact_iff (hexact : ∀ c ∈ clauses, c.isBound = false) {v : ApiVersion} :
    (VersionRange.exact (clauses.filterMap Clause.single?)).contains v = true ↔ ∃ c ∈ clauses, c.Admits v := by
  rw [VersionRange.contains, List.contains_iff_mem, mem_filterMap_single?]
  constructor
  · exact fun h => ⟨_, h, rfl⟩
  · rintro ⟨c, hc, h⟩
    cases c with
    | exactly a =>
      obtain rfl : v = a := h
      exact hc
    | atLeast a => exact absurd (hexact _ hc) (by simp [Clause.isBound])
    | atMost a => exact absurd (hexact _ hc) (by simp [Clause.isBound])

/-- What is accepted is written as bounds or as exact versions, if it is neither empty nor a star. -/
theorem exists_spells_of_read {range : VersionRange} (h : VersionRange.read spec = .ok range)
    (hany : ¬ (trim spec = "" ∨ trim spec = "*")) :
    ∃ clauses, Spells spec clauses ∧ ((∀ c ∈ clauses, c.isBound = true) ∨ ∀ c ∈ clauses, c.isBound = false) := by
  have hread := h
  have hany' : ¬ (trim spec = "" || trim spec = "*") = true := by simpa using hany
  unfold VersionRange.read at hread
  simp only [if_neg hany'] at hread
  cases hclauses : (wordsOf (trim spec).toList).mapM Clause.read with
  | error fault => simp [hclauses] at hread
  | ok clauses =>
    have hsays := Clause.mapM_eq_ok_iff.1 hclauses
    have hspells : Spells spec clauses := by
      refine ⟨?_, hsays⟩
      rintro rfl
      exact wordsOf_trim_ne_nil (not_or.1 hany).1 (List.forall₂_nil_right_iff.1 hsays)
    refine ⟨clauses, hspells, ?_⟩
    rw [read_of_spells hspells] at h
    cases hsingle : clauses.filterMap Clause.single? with
    | nil => exact .inl (filterMap_single?_eq_nil_iff.1 hsingle)
    | cons a versions =>
      rw [hsingle] at h
      refine .inr (filterMap_bounds_eq_nil_iff.1 ⟨List.getLast?_eq_none_iff.1 ?_, List.getLast?_eq_none_iff.1 ?_⟩)
      · cases hl : (clauses.filterMap Clause.least?).getLast? with
        | none => rfl
        | some a =>
          rw [hl] at h
          cases h
      · cases hg : (clauses.filterMap Clause.greatest?).getLast? with
        | none => rfl
        | some b =>
          rw [hg] at h
          cases hl : (clauses.filterMap Clause.least?).getLast? <;> rw [hl] at h <;> cases h

/-- A range means what its words say, if of the bounds of each kind the last one is the tightest. -/
theorem read_clauses (spec : String) : ReadsClauses spec where
  any h := by
    have hany : (trim spec = "" || trim spec = "*") = true := by simpa using h
    refine ⟨.any, ?_, fun v => rfl⟩
    rw [VersionRange.read]
    exact if_pos hany
  bounds clauses h hbounds hlast hmeet :=
    ⟨_, read_bounds h hbounds hlast hmeet, fun v => contains_bounded_iff hbounds hlast⟩
  contradictory clauses h hbounds hlast hcontradict := read_contradictory h hbounds hlast hcontradict
  exact clauses h hexact := ⟨_, read_exact h hexact, fun v => contains_exact_iff hexact⟩
  accepted range h := by
    by_cases hempty : trim spec = ""
    · exact .inl hempty
    · by_cases hstar : trim spec = "*"
      · exact .inr (.inl hstar)
      · exact .inr (.inr (exists_spells_of_read h (not_or.2 ⟨hempty, hstar⟩)))

end Clauses

/-- The release on the first day of a year. -/
def newYear (year : Nat) (h : year ≤ 9999) : ApiVersion := ⟨year, 1, 1, .released, h, by decide, by decide⟩

/-- Bounds of which the later ones are tighter. -/
def tighteningSpec : String := "  >=2019-01-01 <=2030-01-01\n>=2023-01-01\t<=2026-01-01"

/-- The clauses of these bounds. -/
def tighteningClauses : List Clause :=
  [.atLeast (newYear 2019 (by decide)), .atMost (newYear 2030 (by decide)), .atLeast (newYear 2023 (by decide)),
    .atMost (newYear 2026 (by decide))]

theorem read_clauses_tightening :
    Spells tighteningSpec tighteningClauses ∧ (∀ c ∈ tighteningClauses, c.isBound = true) ∧
      LastTightest tighteningClauses ∧ ¬ Contradict tighteningClauses ∧
      ∃ range, VersionRange.read tighteningSpec = .ok range ∧
        ∀ v, range.contains v = true ↔ ∀ c ∈ tighteningClauses, c.Admits v := by
  have hwords : wordsOf (trim tighteningSpec).toList = [">=2019-01-01".toList, "<=2030-01-01".toList,
      ">=2023-01-01".toList, "<=2026-01-01".toList] := by decide +kernel
  have hspells : Spells tighteningSpec tighteningClauses := by
    refine ⟨List.cons_ne_nil _ _, ?_⟩
    rw [hwords]
    exact .cons (.atLeast (by decide)) (.cons (.atMost (by decide)) (.cons (.atLeast (by decide))
      (.cons (.atMost (by decide)) .nil)))
  have hbounds : ∀ c ∈ tighteningClauses, c.isBound = true := by decide
  have hlast : LastTightest tighteningClauses := by
    constructor
    · intro last hlast a ha
      obtain rfl : newYear 2023 (by decide) = last := Option.some.inj hlast
      obtain rfl | rfl : a = newYear 2019 (by decide) ∨ a = newYear 2023 (by decide) := by
        simpa [tighteningClauses] using ha
      all_goals decide
    · intro last hlast b hb
      obtain rfl : newYear 2026 (by decide) = last := Option.some.inj hlast
      obtain rfl | rfl : b = newYear 2030 (by decide) ∨ b = newYear 2026 (by decide) := by
        simpa [tighteningClauses] using hb
      all_goals decide
  have hmeet : ¬ Contradict tighteningClauses := by
    rw [contradict_iff hlast]
    rintro ⟨a, b, ha, hb, hab⟩
    obtain rfl : newYear 2023 (by decide) = a := Option.some.inj ha
    obtain rfl : newYear 2026 (by decide) = b := Option.some.inj hb
    exact hab (by decide)
  exact ⟨hspells, hbounds, hlast, hmeet, (read_clauses tighteningSpec).bounds _ hspells hbounds hlast hmeet⟩

/-- Bounds of which a later one is looser. -/
def looseningSpec : String := ">=2023-01-01 >=2019-01-01 <=2021-01-01"

/-- The clauses of these bounds. -/
def looseningClauses : List Clause :=
  [.atLeast (newYear 2023 (by decide)), .atLeast (newYear 2019 (by decide)), .atMost (newYear 2021 (by decide))]

/-- A looser bound takes the place of a tighter one before it, though the bounds contradict each other. -/
theorem loosening_accepted :
    Spells looseningSpec looseningClauses ∧ (∀ c ∈ looseningClauses, c.isBound = true) ∧ Contradict looseningClauses ∧
      ∃ range, VersionRange.read looseningSpec = .ok range ∧ range.contains (newYear 2020 (by decide)) = true ∧
        ¬ ∀ c ∈ looseningClauses, c.Admits (newYear 2020 (by decide)) := by
  have hwords : wordsOf (trim looseningSpec).toList = [">=2023-01-01".toList, ">=2019-01-01".toList,
      "<=2021-01-01".toList] := by decide +kernel
  have hspells : Spells looseningSpec looseningClauses := by
    refine ⟨List.cons_ne_nil _ _, ?_⟩
    rw [hwords]
    exact .cons (.atLeast (by decide)) (.cons (.atLeast (by decide)) (.cons (.atMost (by decide)) .nil))
  refine ⟨hspells, by decide, ⟨newYear 2023 (by decide), newYear 2021 (by decide), by decide, by decide, by decide⟩, ?_⟩
  refine ⟨.bounded (some (newYear 2019 (by decide))) (some (newYear 2021 (by decide))), ?_, by decide, fun h => ?_⟩
  · rw [read_of_spells hspells]
    rfl
  · exact absurd (h _ List.mem_cons_self) (show ¬ newYear 2023 (by decide) ≤ newYear 2020 (by decide) by decide)

end BicepMigration.Catalog
