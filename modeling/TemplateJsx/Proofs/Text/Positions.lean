import TemplateJsx.Proofs.Text.LineIndex

/-!
# Positions and offsets

A position counts the line feeds before an offset and the UTF-16 units since the
last of them (`Position.origin_after`).  Every character moves the position on,
so positions grow strictly with offsets (`Text.before_iff_lt`), and an offset is
found again from its position (`Text.exists_position_of_isBoundary`).

The way back answers a little more often than that.  It goes along one line, the
line feed included; so the column just past a line feed leads to the start of
the next line, which has a position of its own.  `Text.offset?_answers` says
that this is the only case.
-/

namespace TemplateJsx

/-! ## The order of positions -/

namespace Position

variable {p q r : Position}

theorem atMost_iff :
    p.atMost q = true ↔ p.line < q.line ∨ p.line = q.line ∧
      p.column ≤ q.column := by
  simp [atMost]

theorem atMost_refl (p : Position) : p.atMost p = true := by
  rw [atMost_iff]
  omega

theorem atMost_trans (hpq : p.atMost q = true) (hqr : q.atMost r = true) :
    p.atMost r = true := by
  rw [atMost_iff] at hpq hqr ⊢
  omega

/-- Strictly earlier: on an earlier line, or on the same line and in an earlier
column. -/
def Before (p q : Position) : Prop :=
  p.line < q.line ∨ p.line = q.line ∧ p.column < q.column

instance (p q : Position) : Decidable (p.Before q) :=
  inferInstanceAs (Decidable (p.line < q.line ∨ p.line = q.line ∧
    p.column < q.column))

theorem before_iff : p.Before q ↔ q.atMost p = false := by
  rw [← Bool.not_eq_true, atMost_iff]
  unfold Before
  omega

theorem step_atMost (p : Position) (c : Char) :
    p.atMost (p.step c) = true ∧ (p.step c).atMost p = false := by
  have hc := unitLength_pos c
  rw [← Bool.not_eq_true, atMost_iff, atMost_iff]
  by_cases hline : c = '\n'
  · have hstep : p.step c = ⟨p.line + 1, 0⟩ := by simp [step, hline]
    simp only [hstep]
    omega
  · have hstep : p.step c = ⟨p.line, p.column + unitLength c⟩ := by
      simp [step, hline]
    simp only [hstep, true_and]
    omega

theorem atMost_after (p : Position) (w : Text) :
    p.atMost (p.after w) = true := by
  induction w generalizing p with
  | nil => exact atMost_refl p
  | cons c w ih => exact atMost_trans (step_atMost p c).1 (ih (p.step c))

/-- A text that is not empty moves the position on. -/
theorem after_atMost {w : Text} (h : w ≠ []) (p : Position) :
    (p.after w).atMost p = false := by
  cases w with
  | nil => exact absurd rfl h
  | cons c w =>
      cases hback : (p.after (c :: w)).atMost p with
      | false => rfl
      | true =>
          have hstep := atMost_trans (atMost_after (p.step c) w) hback
          rw [(step_atMost p c).2] at hstep
          exact absurd hstep (by simp)

end Position

namespace Text

variable {t : Text}

/-- The end of a first part of a text is where the part leads to. -/
theorem position?_append (u v : Text) :
    position? (u ++ v) u.byteLength = some (Position.origin.after u) :=
  LineIndex.position?_append rfl

/-- A position is what the first part of the text up to its offset leads to.
With `position?_append` this says all there is to say of positions. -/
theorem position?_eq_some {offset : Nat} {p : Position}
    (h : t.position? offset = some p) :
    ∃ u v, t = u ++ v ∧ byteLength u = min offset t.byteLength ∧
      p = Position.origin.after u :=
  LineIndex.position?_eq_some h

/-- The position after a word is that of its start moved on over the word. -/
theorem Stands.position? {w : Text} {s e : Nat} (h : t.Stands s w e) :
    ∃ p, t.position? s = some p ∧ t.position? e = some (p.after w) := by
  obtain ⟨before, after, rfl, rfl, rfl⟩ := h
  refine ⟨Position.origin.after before,
    position?_append before (w ++ after), ?_⟩
  rw [← byteLength_append, ← List.append_assoc, ← Position.after_append]
  exact position?_append (before ++ w) after

/-- Positions grow with offsets, so the order of mappings may be read off
either. -/
theorem position?_atMost {a b : Nat} {p q : Position}
    (hp : t.position? a = some p) (hq : t.position? b = some q) (hab : a ≤ b) :
    p.atMost q = true := by
  obtain ⟨u, v, ht, hu, rfl⟩ := position?_eq_some hp
  obtain ⟨u', v', ht', hu', rfl⟩ := position?_eq_some hq
  obtain ⟨w, rfl, -⟩ :=
    exists_append_of_byteLength_le (ht.symm.trans ht') (by omega)
  rw [Position.after_append]
  exact Position.atMost_after _ w

end Text

/-! ## What a position counts -/

/-- A text as UTF-16 units: a character below 2¹⁶ is one unit, its own number;
any other is a pair of surrogates, which hold the ten high and the ten low bits
of what its number exceeds 2¹⁶ by. -/
inductive Utf16 : Text → List UInt16 → Prop where
  | nil : Utf16 [] []
  | single {c : Char} {u : UInt16} {t : Text} {us : List UInt16}
      (unit : u.toNat = c.toNat) (rest : Utf16 t us) : Utf16 (c :: t) (u :: us)
  | pair {c : Char} {hi lo : UInt16} {high low : Nat} {t : Text}
      {us : List UInt16} (number : c.toNat = 0x10000 + (0x400 * high + low))
      (highBits : high < 0x400) (lowBits : low < 0x400)
      (hiUnit : hi.toNat = 0xD800 + high) (loUnit : lo.toNat = 0xDC00 + low)
      (rest : Utf16 t us) : Utf16 (c :: t) (hi :: lo :: us)

/-- No character lies above the planes that surrogates can write. -/
theorem toNat_lt_of_char (c : Char) : c.toNat < 0x110000 := by
  rcases c.valid with hlow | ⟨-, hhigh⟩
  · exact Nat.lt_trans hlow (by decide)
  · exact hhigh

theorem toNat_toUInt16 {n : Nat} (h : n < 0x10000) : n.toUInt16.toNat = n :=
  UInt16.toNat_ofNat_of_lt' h

/-- Encoding a text gives its units. -/
theorem utf16_form (t : Text) : Utf16 t t.utf16 := by
  induction t with
  | nil => exact .nil
  | cons c t ih =>
      have hform : Text.utf16 (c :: t) = utf16 c ++ Text.utf16 t := rfl
      have hc := toNat_lt_of_char c
      rw [hform, utf16]
      split
      · rename_i hsmall
        exact .single (toNat_toUInt16 hsmall) ih
      · rename_i hlarge
        have hnumber : c.toNat = 0x10000 +
            (0x400 * ((c.toNat - 0x10000) / 0x400) +
            (c.toNat - 0x10000) % 0x400) := by
          omega
        exact .pair hnumber (by omega) (by omega) (toNat_toUInt16 (by omega))
          (toNat_toUInt16 (by omega)) ih

namespace Position

open Text

/-- No character has more units than bytes: one of three bytes is one unit, and
one of four is two. -/
theorem unitLength_le_utf8Size (c : Char) : unitLength c ≤ c.utf8Size := by
  have hsize := c.utf8Size_pos
  rw [unitLength_eq]
  split
  · exact hsize
  · rename_i hwide
    have hlong : c.utf8Size ≠ 1 := by
      intro hone
      have hsmall : c.toNat ≤ 127 := Char.utf8Size_eq_one_iff.1 hone
      omega
    omega

/-- A position counts the line feeds, and the units since the last of them. -/
theorem origin_after (w : Text) :
    origin.after w = ⟨w.count '\n', unitCount (lastLine w)⟩ := by
  obtain ⟨front, line, rfl, hfront, hline⟩ := exists_lines w
  rw [origin_after_append hfront hline, lastLine_append hfront hline,
    List.count_append, List.count_eq_zero.2 hline, Nat.add_zero]

/-- A position counts no more than the bytes in front of it. -/
theorem line_add_column_le (p : Position) (w : Text) :
    (p.after w).line + (p.after w).column ≤
      p.line + p.column + byteLength w := by
  induction w generalizing p with
  | nil => simp
  | cons c w ih =>
      have hstep : (p.step c).line + (p.step c).column ≤
          p.line + p.column + c.utf8Size := by
        have hsize := c.utf8Size_pos
        by_cases hc : c = '\n'
        · simp only [step, hc, if_true] at hsize ⊢
          omega
        · have hunits : unitLength c ≤ c.utf8Size := unitLength_le_utf8Size c
          simp only [step, hc, if_false]
          omega
      have hrest := ih (p.step c)
      rw [after_cons, byteLength_cons]
      omega

end Position

/-! ## From a position back to the offset -/

namespace Text

variable {t : Text}

/-- An offset is found from the position of a first part of the text, and from
the column past it where a line feed comes next. -/
theorem offset?_eq_some {p : Position} {o : Nat} :
    t.offset? p = some o ↔ ∃ u v feed, t = u ++ v ∧
      (feed = 0 ∨ feed = 1 ∧ v.head? = some '\n') ∧
      p = ⟨(Position.origin.after u).line,
        (Position.origin.after u).column + feed⟩ ∧
      o = byteLength u + feed :=
  LineIndex.offset?_eq_some

theorem before_iff_lt {a b : Nat} {p q : Position} (ha : t.isBoundary a = true)
    (hb : t.isBoundary b = true) (hp : t.position? a = some p)
    (hq : t.position? b = some q) : p.Before q ↔ a < b := by
  rw [Position.before_iff]
  constructor
  · intro hbefore
    apply Nat.lt_of_not_le
    intro hba
    rw [position?_atMost hq hp hba] at hbefore
    exact absurd hbefore (by simp)
  · intro hab
    obtain ⟨w, hw⟩ :=
      (isBoundary_iff.1 ha).between (isBoundary_iff.1 hb) (Nat.le_of_lt hab)
    obtain ⟨p', hstart, hstop⟩ := hw.position?
    obtain rfl := Option.some.inj (hp.symm.trans hstart)
    obtain rfl := Option.some.inj (hq.symm.trans hstop)
    exact Position.after_atMost (hw.ne_nil hab) p

/-- **A position counts line feeds and UTF-16 units, grows with the offset, and
leads back to it.**  Source maps are written in positions while templates are
cut at byte offsets, so nothing may be lost on the way.  A position counts no
more than the bytes before the offset: in a text of less than 2³² bytes both of
its numbers have room in 32 bits. -/
theorem exists_position_of_isBoundary {o : Nat} (h : t.isBoundary o = true) :
    ∃ (before : Text) (units : List UInt16) (p : Position),
      t.slice? ⟨0, o⟩ = some before ∧ Utf16 (lastLine before) units ∧
      p = ⟨before.count '\n', units.length⟩ ∧
      t.position? o = some p ∧ t.offset? p = some o ∧ p.line + p.column ≤ o ∧
      ∀ o' q, t.isBoundary o' = true → t.position? o' = some q →
        (p.Before q ↔ o < o') := by
  obtain ⟨before, after, rfl, rfl, -⟩ := isBoundary_iff.1 h
  have hposition := position?_append before after
  have hslice : slice? (before ++ after) ⟨0, byteLength before⟩ = some before :=
    slice?_eq_some.2 ⟨[], after, rfl, rfl, by simp⟩
  refine ⟨before, utf16 (lastLine before), Position.origin.after before, hslice,
    utf16_form _, ?_, hposition, ?_, ?_, ?_⟩
  · rw [length_utf16]
    exact Position.origin_after before
  · exact offset?_eq_some.2 ⟨before, after, 0, rfl, Or.inl rfl, rfl, rfl⟩
  · simpa [Position.origin] using Position.line_add_column_le
      Position.origin before
  · intro o' q ho' hq
    exact before_iff_lt h ho' hposition hq

/-- A place on the second line, after a character of two bytes and one of four,
which takes up two columns. -/
theorem exists_position_of_isBoundary_wide :
    isBoundary "é\n𝄞x".toList 7 = true ∧ ∃ before units,
      slice? "é\n𝄞x".toList ⟨0, 7⟩ = some before ∧
      Utf16 (lastLine before) units ∧
      before.count '\n' = 1 ∧ units.length = 2 ∧
      position? "é\n𝄞x".toList 7 = some ⟨1, 2⟩ ∧
      offset? "é\n𝄞x".toList ⟨1, 2⟩ = some 7 ∧
      ∀ o' q, isBoundary "é\n𝄞x".toList o' = true →
        position? "é\n𝄞x".toList o' = some q →
        ((⟨1, 2⟩ : Position).Before q ↔ 7 < o') := by
  have hboundary : isBoundary "é\n𝄞x".toList 7 = true := by decide
  have hlooked : position? "é\n𝄞x".toList 7 = some ⟨1, 2⟩ := by decide +kernel
  obtain ⟨before, units, p, hslice, hunits, hp, hposition, hoffset,
      -, horder⟩ :=
    exists_position_of_isBoundary hboundary
  obtain rfl : p = ⟨1, 2⟩ := Option.some.inj (hposition.symm.trans hlooked)
  obtain ⟨hlines, hcolumns⟩ := Position.mk.inj hp
  exact ⟨hboundary, before, units, hslice, hunits, hlines.symm, hcolumns.symm,
    hlooked, hoffset, horder⟩

/-- The column just past the line feed that stands right before an offset. -/
def PastLineFeed (t : Text) (p : Position) (o : Nat) : Prop :=
  ∃ k q, t.Stands k ['\n'] o ∧ t.position? k = some q ∧
    p = ⟨q.line, q.column + 1⟩

/-- A line starts where the line feed before it ends. -/
theorem PastLineFeed.position? {p : Position} {o : Nat}
    (h : t.PastLineFeed p o) :
    t.position? o = some ⟨p.line + 1, 0⟩ := by
  obtain ⟨k, q, hfeed, hq, rfl⟩ := h
  obtain ⟨q', hstart, hstop⟩ := hfeed.position?
  obtain rfl := Option.some.inj (hq.symm.trans hstart)
  simpa [Position.step] using hstop

/-- Only one column is just past a line feed. -/
theorem PastLineFeed.unique {p q : Position} {o : Nat} (hp : t.PastLineFeed p o)
    (hq : t.PastLineFeed q o) :
    p = q := by
  obtain ⟨k, p', hfeed, hp', rfl⟩ := hp
  obtain ⟨l, q', hfeed', hq', rfl⟩ := hq
  have hk := hfeed.stop_eq
  have hl := hfeed'.stop_eq
  obtain rfl : k = l := by omega
  obtain rfl := Option.some.inj (hp'.symm.trans hq')
  rfl

/-- The positions from which an offset is found. -/
theorem offset?_iff {p : Position} {o : Nat} :
    t.offset? p = some o ↔ t.isBoundary o = true ∧
      (t.position? o = some p ∨ t.PastLineFeed p o) := by
  rw [offset?_eq_some]
  constructor
  · rintro ⟨u, v, feed, rfl, hfeed, rfl, rfl⟩
    rcases hfeed with rfl | ⟨rfl, hv⟩
    · exact ⟨isBoundary_iff.2 ⟨u, v, rfl, rfl, rfl⟩,
        Or.inl (position?_append u v)⟩
    · obtain ⟨v', rfl⟩ := List.head?_eq_some_iff.1 hv
      have hstands : Stands (u ++ '\n' :: v') (byteLength u) ['\n']
          (byteLength u + 1) := ⟨u, v', rfl, rfl, rfl⟩
      exact ⟨isBoundary_iff.2 hstands.right,
        Or.inr ⟨byteLength u, _, hstands, position?_append u _, rfl⟩⟩
  · rintro ⟨hboundary, hposition | ⟨k, q, hfeed, hq, rfl⟩⟩
    · obtain ⟨u, v, rfl, rfl, -⟩ := isBoundary_iff.1 hboundary
      obtain rfl :=
        Option.some.inj (hposition.symm.trans (position?_append u v))
      exact ⟨u, v, 0, rfl, Or.inl rfl, rfl, rfl⟩
    · obtain ⟨u, v, rfl, rfl, rfl⟩ := hfeed
      obtain rfl := Option.some.inj (hq.symm.trans (position?_append u _))
      exact ⟨u, ['\n'] ++ v, 1, rfl, Or.inr ⟨rfl, rfl⟩, rfl, rfl⟩

/-- **An offset is found only from its own position, or from the column just
past the line feed right before it.**  So two positions that lead to one offset
are the start of a line and the column past the end of the line before. -/
theorem offset?_answers (t : Text) :
    (∀ p o, t.offset? p = some o ↔
      t.isBoundary o = true ∧ (t.position? o = some p ∨ t.PastLineFeed p o)) ∧
    ∀ p q o, t.offset? p = some o → t.offset? q = some o → p = q ∨
    p = ⟨q.line + 1, 0⟩ ∨ q = ⟨p.line + 1, 0⟩ := by
  refine ⟨fun p o => offset?_iff, ?_⟩
  intro p q o hp hq
  obtain ⟨-, hp | hp⟩ :=
    offset?_iff.1 hp <;> obtain ⟨-, hq | hq⟩ := offset?_iff.1 hq
  · exact Or.inl (Option.some.inj (hp.symm.trans hq))
  · exact Or.inr (Or.inl (Option.some.inj (hp.symm.trans hq.position?)))
  · exact Or.inr (Or.inr (Option.some.inj (hq.symm.trans hp.position?)))
  · exact Or.inl (hp.unique hq)

/-- The end of the first line leads to the start of the second, as that start
does itself. -/
theorem offset?_answers_twice :
    offset? "a\nb".toList ⟨0, 2⟩ = some 2 ∧
      offset? "a\nb".toList ⟨1, 0⟩ = some 2 ∧
      PastLineFeed "a\nb".toList ⟨0, 2⟩ 2 := by
  have hfound := ((offset?_answers "a\nb".toList).1 ⟨0, 2⟩ 2).1 (by decide)
  exact ⟨by decide, by decide, hfound.2.resolve_left (by decide +kernel)⟩

/-- Not every offset is found from its own position only. -/
theorem offset?_past_lineFeed :
    ¬∀ (t : Text) (p : Position) (o : Nat), t.offset? p = some o →
      t.isBoundary o = true ∧ t.position? o = some p := by
  intro h
  have hposition := (h "a\nb".toList ⟨0, 2⟩ 2 (by decide)).2
  exact absurd hposition (by decide +kernel)

end Text

end TemplateJsx
