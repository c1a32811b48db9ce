import BicepMigration.Proofs.Text.Slice

/-!
# Checked slices

A slice can be taken if its ends stand in order, lie in the text and cut no character. The checked slice fails
otherwise. Main statement: the checked slice gives a text exactly for the spans of a text, and it is then the
slice.
-/

namespace BicepMigration.Text

/-- The span is one of the text: its ends stand in order and in the text, and between characters. -/
structure IsSpan (text : String) (s : Span) : Prop where
  start_le : s.start ≤ s.stop
  stop_le : s.stop ≤ text.utf8ByteSize
  start_boundary : IsBoundary text.toList s.start
  stop_boundary : IsBoundary text.toList s.stop

/-- The characters of the first `n` bytes and the characters after them. Nothing if there are fewer bytes, or if
`n` cuts a character. -/
def splitBytes? : Nat → List Char → Option (List Char × List Char)
  | 0, cs => some ([], cs)
  | _ + 1, [] => none
  | n + 1, c :: cs =>
    if c.utf8Size ≤ n + 1 then (splitBytes? (n + 1 - c.utf8Size) cs).map fun (before, after) => (c :: before, after)
    else none

/-- The text of a span. Nothing if the span is none of the text. -/
def slice? (text : String) (s : Span) : Option String :=
  if s.start ≤ s.stop then
    (splitBytes? s.start text.toList).bind fun parts =>
      (splitBytes? (s.stop - s.start) parts.2).map fun rest => String.ofList rest.1
  else none

/-- A text is cut between two parts. -/
theorem splitBytes?_append (a b : List Char) : splitBytes? (byteLength a) (a ++ b) = some (a, b) := by
  induction a with
  | nil => cases b <;> rfl
  | cons c cs ih =>
    have hc := c.utf8Size_pos
    have h : c.utf8Size + byteLength cs = (c.utf8Size + byteLength cs - 1) + 1 := by omega
    have hle : c.utf8Size ≤ c.utf8Size + byteLength cs := by omega
    rw [byteLength_cons, h, List.cons_append, splitBytes?, ← h, if_pos hle, Nat.add_sub_cancel_left, ih,
      Option.map_some]

/-- A text is cut after so many bytes exactly if they are whole characters. -/
theorem splitBytes?_eq_some_iff {n : Nat} {cs before after : List Char} :
    splitBytes? n cs = some (before, after) ↔ cs = before ++ after ∧ byteLength before = n := by
  constructor
  · intro h
    induction cs generalizing n before with
    | nil =>
      cases n with
      | zero =>
        obtain ⟨rfl, rfl⟩ := Prod.mk.inj (Option.some.inj h)
        exact ⟨rfl, rfl⟩
      | succ n => cases h
    | cons c cs ih =>
      cases n with
      | zero =>
        obtain ⟨rfl, rfl⟩ := Prod.mk.inj (Option.some.inj h)
        exact ⟨rfl, rfl⟩
      | succ n =>
        unfold splitBytes? at h
        split at h
        · next hle =>
          obtain ⟨⟨a, b⟩, hr, he⟩ := Option.map_eq_some_iff.1 h
          obtain ⟨rfl, rfl⟩ := Prod.mk.inj he
          obtain ⟨rfl, hlen⟩ := ih hr
          refine ⟨rfl, ?_⟩
          rw [byteLength_cons, hlen]
          omega
        · cases h
  · rintro ⟨rfl, rfl⟩
    exact splitBytes?_append before after

/-- Parts of a text give a span of it. -/
theorem isSpan_of_append {text : String} {before middle after : List Char} {s : Span}
    (h : text.toList = before ++ (middle ++ after)) (hs : s.start = byteLength before)
    (ht : s.stop = s.start + byteLength middle) : IsSpan text s where
  start_le := by omega
  stop_le := by
    rw [← byteLength_toList, h, byteLength_append, byteLength_append]
    omega
  start_boundary := ⟨before, middle ++ after, h, hs.symm⟩
  stop_boundary := ⟨before ++ middle, after, by rw [h, List.append_assoc], by rw [byteLength_append, ht, hs]⟩

/-- A span of a text parts it. -/
theorem IsSpan.exists_parts {text : String} {s : Span} (h : IsSpan text s) :
    ∃ before middle after, text.toList = before ++ (middle ++ after) ∧ s.start = byteLength before ∧
      s.stop = s.start + byteLength middle := by
  obtain ⟨before, rest, hbefore, hstart⟩ := h.start_boundary
  obtain ⟨through, after, hthrough, hstop⟩ := h.stop_boundary
  have hle : byteLength before ≤ byteLength through := by
    rw [hstart, hstop]
    exact h.start_le
  obtain ⟨middle, rfl, rfl⟩ := exists_append_of_byteLength_le (hbefore.symm.trans hthrough) hle
  refine ⟨before, middle, after, hbefore, hstart.symm, ?_⟩
  rw [← hstop, ← hstart, byteLength_append]

/-- The text of a span whose ends are known by their parts. -/
theorem slice?_of_append {text : String} {before middle after : List Char} {s : Span}
    (h : text.toList = before ++ (middle ++ after)) (hs : s.start = byteLength before)
    (ht : s.stop = s.start + byteLength middle) : slice? text s = some (String.ofList middle) := by
  have hle : s.start ≤ s.stop := by omega
  have hlen : s.stop - s.start = byteLength middle := by omega
  rw [slice?, if_pos hle, hlen, hs, h, splitBytes?_append, Option.bind_some, splitBytes?_append, Option.map_some]

/-- A span of a text can be sliced. -/
theorem IsSpan.slice?_eq {text : String} {s : Span} (h : IsSpan text s) : slice? text s = some (slice text s) := by
  obtain ⟨before, middle, after, htext, hstart, hstop⟩ := h.exists_parts
  rw [slice?_of_append htext hstart hstop, ← toList_slice_of_append htext hstart hstop, String.ofList_toList]

/-- What can be sliced is a span of the text. -/
theorem isSpan_of_slice? {text sub : String} {s : Span} (h : slice? text s = some sub) : IsSpan text s := by
  unfold slice? at h
  split at h
  · next hle =>
    obtain ⟨⟨before, rest⟩, hbefore, h⟩ := Option.bind_eq_some_iff.1 h
    obtain ⟨⟨middle, after⟩, hmiddle, -⟩ := Option.map_eq_some_iff.1 h
    obtain ⟨htext, hstart⟩ := splitBytes?_eq_some_iff.1 hbefore
    obtain ⟨rfl, hlen⟩ := splitBytes?_eq_some_iff.1 hmiddle
    refine isSpan_of_append htext hstart.symm ?_
    rw [hlen]
    omega
  · cases h

/-- The spans of a text are those that can be sliced. -/
theorem isSpan_iff {text : String} {s : Span} : IsSpan text s ↔ ∃ sub, slice? text s = some sub :=
  ⟨fun h => ⟨_, h.slice?_eq⟩, fun ⟨_, h⟩ => isSpan_of_slice? h⟩

/-- A span between boundaries that stand in order. -/
theorem isSpan_of_boundaries {text : String} {a b : Nat} (ha : IsBoundary text.toList a)
    (hb : IsBoundary text.toList b) (hab : a ≤ b) : IsSpan text ⟨a, b⟩ := by
  refine ⟨hab, ?_, ha, hb⟩
  obtain ⟨before, after, htext, hlen⟩ := hb
  rw [← byteLength_toList, htext, byteLength_append, ← hlen]
  exact Nat.le_add_right ..

/-- The whole text is a span of itself. -/
theorem isSpan_whole (text : String) : IsSpan text ⟨0, text.utf8ByteSize⟩ := by
  refine isSpan_of_boundaries (isBoundary_zero _) ⟨text.toList, [], (List.append_nil _).symm, ?_⟩ (Nat.zero_le _)
  exact byteLength_toList text

/-- A span of a text is one of every longer text. -/
theorem IsSpan.append {text : String} {s : Span} (h : IsSpan text s) (more : String) : IsSpan (text ++ more) s := by
  obtain ⟨before, middle, after, htext, hstart, hstop⟩ := h.exists_parts
  refine @isSpan_of_append _ before middle (after ++ more.toList) _ ?_ hstart hstop
  rw [String.toList_append, htext, List.append_assoc, List.append_assoc]

/-- A span of a text has the same text in every longer text. -/
theorem IsSpan.slice_append {text : String} {s : Span} (h : IsSpan text s) (more : String) :
    slice (text ++ more) s = slice text s := by
  obtain ⟨before, middle, after, htext, hstart, hstop⟩ := h.exists_parts
  apply String.toList_injective
  rw [toList_slice_of_append htext hstart hstop]
  refine @toList_slice_of_append _ before middle (after ++ more.toList) _ ?_ hstart hstop
  rw [String.toList_append, htext, List.append_assoc, List.append_assoc]

/-- The text from a boundary on goes on in a longer text. -/
theorem slice_append_of_boundary {text : String} {n : Nat} (h : IsBoundary text.toList n) (more : String) :
    slice (text ++ more) ⟨n, (text ++ more).utf8ByteSize⟩ = slice text ⟨n, text.utf8ByteSize⟩ ++ more := by
  obtain ⟨before, after, htext, hn⟩ := h
  apply String.toList_injective
  rw [String.toList_append,
    @toList_slice_of_append text before after [] _ (by rw [htext, List.append_nil]) hn.symm
      (by rw [← byteLength_toList, htext, byteLength_append, hn]),
    @toList_slice_of_append (text ++ more) before (after ++ more.toList) [] _
      (by rw [String.toList_append, htext, List.append_nil, List.append_assoc]) hn.symm
      (by rw [← byteLength_toList, String.toList_append, htext, List.append_assoc, byteLength_append, hn])]

/-- A span that ends inside a character is none. -/
example : slice? "é" ⟨0, 1⟩ = none := by decide

end BicepMigration.Text
