import BicepMigration.Text.Span

/-!
# Slices between character boundaries

A byte offset is a boundary of a text if some characters at its start take exactly that many bytes. Slices
between boundaries behave like parts of a list of characters: two slices that meet at a boundary join.
Offsets inside a character are not spoken about.
-/

namespace BicepMigration.Text

/-- The offset falls between two characters, or at an end of the text. -/
def IsBoundary (cs : List Char) (n : Nat) : Prop :=
  ∃ before after, cs = before ++ after ∧ byteLength before = n

/-- A text starts at a boundary. -/
theorem isBoundary_zero (cs : List Char) : IsBoundary cs 0 := ⟨[], cs, rfl, rfl⟩

/-- A nonempty list of characters takes bytes. -/
theorem byteLength_pos {cs : List Char} (h : cs ≠ []) : 0 < byteLength cs := by
  cases cs with
  | nil => exact absurd rfl h
  | cons c cs =>
    have hc := c.utf8Size_pos
    rw [byteLength_cons]
    omega

/-- Only the empty text has no bytes. -/
theorem byteLength_eq_zero {cs : List Char} : byteLength cs = 0 ↔ cs = [] := by
  constructor
  · intro h
    cases cs with
    | nil => rfl
    | cons c cs =>
      have hp := (@byteLength_pos (c :: cs)) (by simp)
      omega
  · rintro rfl
    rfl

/-- Taking more bytes than a start has takes that start whole. -/
theorem takeBytes_append (a b : List Char) (n : Nat) :
    takeBytes (byteLength a + n) (a ++ b) = a ++ takeBytes n b := by
  induction a with
  | nil => simp
  | cons c cs ih =>
    have hc := c.utf8Size_pos
    have h : c.utf8Size + byteLength cs + n = (c.utf8Size + byteLength cs + n - 1) + 1 := by omega
    have hr : c.utf8Size + byteLength cs + n - c.utf8Size = byteLength cs + n := by omega
    rw [byteLength_cons, h, List.cons_append, takeBytes, ← h, hr, ih, List.cons_append]

/-- Fewer bytes are the start of more bytes. -/
theorem takeBytes_start {m n : Nat} (h : m ≤ n) (cs : List Char) : takeBytes m cs <+: takeBytes n cs := by
  induction cs generalizing m n with
  | nil => cases m <;> cases n <;> exact List.nil_prefix
  | cons c cs ih =>
    cases m with
    | zero => exact List.nil_prefix
    | succ m =>
      obtain ⟨n, rfl⟩ := Nat.exists_eq_succ_of_ne_zero (Nat.ne_of_gt (Nat.lt_of_lt_of_le (Nat.succ_pos m) h))
      rw [takeBytes, takeBytes, List.prefix_cons_inj]
      exact ih (Nat.sub_le_sub_right h _)

/-- Dropping more bytes than a start has drops that start whole. -/
theorem dropBytes_append (a b : List Char) (n : Nat) : dropBytes (byteLength a + n) (a ++ b) = dropBytes n b := by
  induction a with
  | nil => simp
  | cons c cs ih =>
    have hc := c.utf8Size_pos
    have h : c.utf8Size + byteLength cs + n = (c.utf8Size + byteLength cs + n - 1) + 1 := by omega
    have hr : c.utf8Size + byteLength cs + n - c.utf8Size = byteLength cs + n := by omega
    rw [byteLength_cons, h, List.cons_append, dropBytes, ← h, hr, ih]

/-- Of two starts of one text the shorter one starts the longer one. -/
theorem exists_append_of_byteLength_le {a b c d : List Char} (h : a ++ b = c ++ d)
    (hl : byteLength a ≤ byteLength c) : ∃ e, c = a ++ e ∧ b = e ++ d := by
  rcases List.append_eq_append_iff.1 h with ⟨e, hc, hb⟩ | ⟨e, ha, hd⟩
  · exact ⟨e, hc, hb⟩
  · have he : e = [] := by
      rw [ha, byteLength_append] at hl
      exact byteLength_eq_zero.1 (by omega)
    subst he
    exact ⟨[], by simpa using ha.symm, by simpa using hd.symm⟩

/-- The characters of a slice whose ends are known by their parts. -/
theorem toList_slice_of_append {text : String} {before middle after : List Char} {s : Span}
    (h : text.toList = before ++ (middle ++ after)) (hs : s.start = byteLength before)
    (ht : s.stop = s.start + byteLength middle) : (slice text s).toList = middle := by
  have hn : s.stop - s.start = byteLength middle := by omega
  rw [slice, String.toList_ofList, h, hn, hs, dropBytes_byteLength_append, takeBytes_byteLength_append]

/-- The bytes of a text are those of its characters. -/
theorem byteLength_toList (text : String) : byteLength text.toList = text.utf8ByteSize := by
  have h (cs : List Char) : byteLength cs = (String.ofList cs).utf8ByteSize := by
    induction cs with
    | nil => rfl
    | cons c cs ih =>
      have hj : String.ofList (c :: cs) = String.singleton c ++ String.ofList cs := by
        rw [← String.toList_inj]
        simp
      rw [hj, String.utf8ByteSize_append, String.utf8ByteSize_singleton, byteLength_cons, ih]
  have ht := h text.toList
  rwa [String.ofList_toList] at ht

/-- Slices that meet at a boundary join. -/
theorem toList_slice_append {text : String} {a b c : Nat} (ha : IsBoundary text.toList a)
    (hb : IsBoundary text.toList b) (hab : a ≤ b) (hbc : b ≤ c) :
    (slice text ⟨a, c⟩).toList = (slice text ⟨a, b⟩).toList ++ (slice text ⟨b, c⟩).toList := by
  obtain ⟨x, y, hx, rfl⟩ := ha
  obtain ⟨z, w, hz, rfl⟩ := hb
  obtain ⟨e, rfl, rfl⟩ := exists_append_of_byteLength_le (hx.symm.trans hz) hab
  have hm : (slice text ⟨byteLength x, byteLength (x ++ e)⟩).toList = e :=
    toList_slice_of_append hx rfl (by rw [byteLength_append])
  have hn : c - byteLength x = byteLength e + (c - byteLength (x ++ e)) := by
    rw [byteLength_append] at hbc ⊢
    omega
  rw [hm]
  simp only [slice, String.toList_ofList]
  rw [hz, hn, dropBytes_byteLength_append, List.append_assoc, dropBytes_byteLength_append, takeBytes_append]

end BicepMigration.Text
