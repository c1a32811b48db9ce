import BicepMigration.Proofs.Catalog.MonthLengths
import BicepMigration.Proofs.Catalog.RangeClauses

/-!
# Narrow ranges

A range between two bounds is as wide as there are days between them, and a list of versions is as large as it is long.
Versions are ordered by year, month and day, and days are counted by the calendar; both agree on days that their months
have. Main statement: a range whose versions another range of its kind holds as well is at least as specific, if the
bounds that matter are such days and no version is listed twice. Without that the width may even be negative.
-/

namespace BicepMigration.Catalog

open Text

namespace ApiVersion

/-- The month of the version has its day. -/
def IsDate (v : ApiVersion) : Prop := v.day ≤ Calendar.daysIn v.year v.month

instance (v : ApiVersion) : Decidable v.IsDate := inferInstanceAs (Decidable (_ ≤ _))

/-- Versions are ordered by year, then by month, then by day. -/
theorem date_le_of_le {a b : ApiVersion} (h : a ≤ b) :
    a.year < b.year ∨ a.year = b.year ∧ (a.month < b.month ∨ a.month = b.month ∧ a.day ≤ b.day) := by
  have hrank : a.rank ≤ b.rank := h
  have hstage (s : Stage) : (if s = .preview then 0 else 1) ≤ 1 := by cases s <;> decide
  have ha := hstage a.stage
  have hb := hstage b.stage
  obtain ⟨-, hmonth⟩ := a.month_mem
  obtain ⟨-, hmonth'⟩ := b.month_mem
  obtain ⟨-, hday⟩ := a.day_mem
  obtain ⟨-, hday'⟩ := b.day_mem
  unfold rank at hrank
  omega

/-- Days are counted in the order of the versions, if the month of the earlier version has its day. -/
theorem dayNumber_le {a b : ApiVersion} (h : a ≤ b) (ha : a.IsDate) : a.dayNumber ≤ b.dayNumber :=
  Calendar.dayNumber_le a.month_mem b.month_mem ha b.day_mem.1 (date_le_of_le h)

end ApiVersion

section Bounds

variable {spec : String} {a b a' b' v : ApiVersion}

/-- A range with two bounds holds the versions between them. -/
theorem contains_between_iff :
    (VersionRange.bounded (some a) (some b)).contains v = true ↔ a ≤ v ∧ v ≤ b := by
  simp [VersionRange.contains]

/-- Bounds that are accepted are in order. -/
theorem le_of_read_bounded (h : VersionRange.read spec = .ok (.bounded (some a) (some b))) : a ≤ b := by
  have hany : ¬ (trim spec = "" ∨ trim spec = "*") := by
    intro hany
    obtain ⟨range, hrange, hall⟩ := (read_clauses spec).any hany
    rw [VersionRange.read, if_pos (by simpa using hany)] at h
    cases h
  obtain ⟨clauses, hspells, -⟩ := exists_spells_of_read h hany
  rw [read_of_spells hspells] at h
  split at h
  · split at h
    · next hle =>
      cases h
      exact hle
    · cases h
  · next hno =>
    simp only [Except.ok.injEq, VersionRange.bounded.injEq] at h
    exact (hno a b h.1 h.2).elim
  · cases h
  · cases h

/-- A range between bounds lies within another one only if its bounds do. -/
theorem bounds_of_subset (hab : a ≤ b) (h : ∀ v, (VersionRange.bounded (some a) (some b)).contains v = true →
    (VersionRange.bounded (some a') (some b')).contains v = true) : a' ≤ a ∧ b ≤ b' := by
  have hleast := contains_between_iff.1 (h a (contains_between_iff.2 ⟨Nat.le_refl _, hab⟩))
  have hgreatest := contains_between_iff.1 (h b (contains_between_iff.2 ⟨hab, Nat.le_refl _⟩))
  exact ⟨hleast.1, hgreatest.2⟩

/-- The wider of two ranges between bounds has the greater width, if its lower bound and the upper bound of the other range
are days of their months. -/
theorem width_le (hleast : a' ≤ a) (hgreatest : b ≤ b') (ha : a'.IsDate) (hb : b.IsDate) :
    b.dayNumber - a.dayNumber ≤ b'.dayNumber - a'.dayNumber := by
  have hfirst := ApiVersion.dayNumber_le hleast ha
  have hlast := ApiVersion.dayNumber_le hgreatest hb
  omega

end Bounds

/-- Ranges of one kind are ranked by what they hold: first the one whose versions the other one holds as well. -/
structure RanksNarrow (spec spec' : String) : Prop where
  /-- Of ranges between bounds the narrower one is at least as specific. -/
  bounded : ∀ a b a' b', VersionRange.read spec = .ok (.bounded (some a) (some b)) →
    VersionRange.read spec' = .ok (.bounded (some a') (some b')) → a'.IsDate → b.IsDate →
    (∀ v, (VersionRange.bounded (some a) (some b)).contains v = true →
      (VersionRange.bounded (some a') (some b')).contains v = true) →
    toLex (VersionRange.bounded (some a) (some b)).specificity ≤
      toLex (VersionRange.bounded (some a') (some b')).specificity
  /-- Of lists the smaller one is at least as specific. -/
  exact : ∀ versions versions', VersionRange.read spec = .ok (.exact versions) →
    VersionRange.read spec' = .ok (.exact versions') → versions.Nodup →
    (∀ v, (VersionRange.exact versions).contains v = true → (VersionRange.exact versions').contains v = true) →
    toLex (VersionRange.exact versions).specificity ≤ toLex (VersionRange.exact versions').specificity
  /-- The width between bounds is not negative. -/
  width : ∀ a b, VersionRange.read spec = .ok (.bounded (some a) (some b)) → a.IsDate →
    0 ≤ (VersionRange.bounded (some a) (some b)).specificity.2

/-- Narrower ranges come first, if the lower bound of the wider range and the upper bound of the narrower one are days of
their months, and the smaller list repeats no version. -/
theorem narrow_ranks_first (spec spec' : String) : RanksNarrow spec spec' where
  bounded a b a' b' h _ ha hb hsubset := by
    obtain ⟨hleast, hgreatest⟩ := bounds_of_subset (le_of_read_bounded h) hsubset
    exact Prod.Lex.toLex_le_toLex.2 (.inr ⟨rfl, width_le hleast hgreatest ha hb⟩)
  exact versions versions' _ _ hnodup hsubset := by
    have hmem : versions ⊆ versions' := fun v hv =>
      List.contains_iff_mem.1 (hsubset v (List.contains_iff_mem.2 hv))
    have hlength : versions.length ≤ versions'.length := hnodup.length_le_of_subset hmem
    exact Prod.Lex.toLex_le_toLex.2 (.inr ⟨rfl, Int.ofNat_le.2 hlength⟩)
  width a b h ha := Int.sub_nonneg_of_le (ApiVersion.dayNumber_le (le_of_read_bounded h) ha)

/-- The year 2023 has four digits. -/
theorem year2023_le : 2023 ≤ 9999 := by decide

/-- Every month has a first day. -/
theorem firstDay_mem : 1 ≤ 1 ∧ 1 ≤ 31 := by decide

/-- The release on a day of the year 2023. -/
def dayOf2023 (month day : Nat) (hmonth : 1 ≤ month ∧ month ≤ 12) (hday : 1 ≤ day ∧ day ≤ 31) : ApiVersion :=
  ⟨2023, month, day, .released, year2023_le, hmonth, hday⟩

/-- The last day of a February. -/
def lastOfFebruary : ApiVersion := dayOf2023 2 28 (by decide) (by decide)

/-- A day that February does not have. -/
def pastFebruary : ApiVersion := dayOf2023 2 31 (by decide) (by decide)

/-- The first day of a March. -/
def firstOfMarch : ApiVersion := dayOf2023 3 1 (by decide) firstDay_mem

theorem narrow_ranks_first_march :
    VersionRange.read ">=2023-02-28 <=2023-03-01" = .ok (.bounded (some lastOfFebruary) (some firstOfMarch)) ∧
      VersionRange.read " >=2022-01-01 <=2024-01-01" =
        .ok (.bounded (some (newYear 2022 (by decide))) (some (newYear 2024 (by decide)))) ∧
      VersionRange.read "2023-03-01" = .ok (.exact [firstOfMarch]) ∧
      VersionRange.read "2023-02-28 2023-03-01" = .ok (.exact [lastOfFebruary, firstOfMarch]) ∧
      toLex (VersionRange.bounded (some lastOfFebruary) (some firstOfMarch)).specificity ≤
        toLex (VersionRange.bounded (some (newYear 2022 (by decide))) (some (newYear 2024 (by decide)))).specificity ∧
      toLex (VersionRange.exact [firstOfMarch]).specificity ≤
        toLex (VersionRange.exact [lastOfFebruary, firstOfMarch]).specificity ∧
      0 ≤ (VersionRange.bounded (some lastOfFebruary) (some firstOfMarch)).specificity.2 := by
  have hnarrow : VersionRange.read ">=2023-02-28 <=2023-03-01" =
      .ok (.bounded (some lastOfFebruary) (some firstOfMarch)) := by decide +kernel
  have hwide : VersionRange.read " >=2022-01-01 <=2024-01-01" =
      .ok (.bounded (some (newYear 2022 (by decide))) (some (newYear 2024 (by decide)))) := by decide +kernel
  have hsingle : VersionRange.read "2023-03-01" = .ok (.exact [firstOfMarch]) := by decide +kernel
  have hpair : VersionRange.read "2023-02-28 2023-03-01" = .ok (.exact [lastOfFebruary, firstOfMarch]) := by
    decide +kernel
  refine ⟨hnarrow, hwide, hsingle, hpair, ?_, ?_, ?_⟩
  · refine (narrow_ranks_first _ _).bounded _ _ _ _ hnarrow hwide (by decide) (by decide) fun v hv => ?_
    obtain ⟨hleast, hgreatest⟩ := contains_between_iff.1 hv
    exact contains_between_iff.2 ⟨ApiVersion.le_trans (by decide) hleast, ApiVersion.le_trans hgreatest (by decide)⟩
  · refine (narrow_ranks_first _ _).exact _ _ hsingle hpair (by decide) fun v hv => ?_
    simp only [VersionRange.contains, List.contains_iff_mem] at hv ⊢
    exact List.mem_cons_of_mem _ hv
  · exact (narrow_ranks_first _ "").width _ _ hnarrow (by decide)

/-- With days that a month does not have, a width can be negative and a narrower range can be ranked after a wider one. With
a version that is listed twice, so can a list after one that holds the same. -/
theorem narrow_ranks_last :
    VersionRange.read ">=2023-02-31 <=2023-03-01" = .ok (.bounded (some pastFebruary) (some firstOfMarch)) ∧
      (VersionRange.bounded (some pastFebruary) (some firstOfMarch)).specificity = (1, -2) ∧
      VersionRange.read ">=2023-02-28 <=2023-02-31" = .ok (.bounded (some lastOfFebruary) (some pastFebruary)) ∧
      VersionRange.read ">=2023-02-28 <=2023-03-01" = .ok (.bounded (some lastOfFebruary) (some firstOfMarch)) ∧
      (∀ v, (VersionRange.bounded (some lastOfFebruary) (some pastFebruary)).contains v = true →
        (VersionRange.bounded (some lastOfFebruary) (some firstOfMarch)).contains v = true) ∧
      ¬ toLex (VersionRange.bounded (some lastOfFebruary) (some pastFebruary)).specificity ≤
        toLex (VersionRange.bounded (some lastOfFebruary) (some firstOfMarch)).specificity ∧
      VersionRange.read "2023-03-01 2023-03-01" = .ok (.exact [firstOfMarch, firstOfMarch]) ∧
      VersionRange.read "2023-03-01" = .ok (.exact [firstOfMarch]) ∧
      (∀ v, (VersionRange.exact [firstOfMarch, firstOfMarch]).contains v = true →
        (VersionRange.exact [firstOfMarch]).contains v = true) ∧
      ¬ toLex (VersionRange.exact [firstOfMarch, firstOfMarch]).specificity ≤
        toLex (VersionRange.exact [firstOfMarch]).specificity := by
  refine ⟨by decide +kernel, by decide, by decide +kernel, by decide +kernel, fun v hv => ?_, by decide,
    by decide +kernel, by decide +kernel, fun v hv => ?_, by decide⟩
  · obtain ⟨hleast, hgreatest⟩ := contains_between_iff.1 hv
    exact contains_between_iff.2 ⟨hleast, ApiVersion.le_trans hgreatest (by decide)⟩
  · simpa [VersionRange.contains] using hv

end BicepMigration.Catalog
