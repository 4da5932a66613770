import Mathlib.Data.List.Induction
import TemplateJsx.Proofs.Text.Stands
import TemplateJsx.Text.LineIndex

/-!
# What the table of lines holds

Every text is whole lines and a last line (`Text.exists_lines`).  The table
lists, under each number of line feeds, where the whole lines with so many of
them end (`LineIndex.getElem?_starts_append`), and nothing else
(`LineIndex.exists_of_getElem?_starts`).  The line that halving finds for an
offset is thus the number of line feeds before it (`LineIndex.line_append`), so
looking an offset up comes to the same as counting from the start of the text
(`Text.position?_append`).
-/

namespace TemplateJsx

/-- Halving finds the number from which on a test fails, if the test passes
below that number and fails from there on.  The loop keeps the number between
its two ends. -/
theorem partitionPoint_eq {passes : Nat → Bool} {low k high : Nat}
    (hlow : low ≤ k) (hhigh : k ≤ high)
    (hpass : ∀ i, low ≤ i → i < k → passes i = true)
    (hfail : ∀ i, k ≤ i → i < high → passes i = false) :
    partitionPoint passes low high = k := by
  fun_induction partitionPoint passes low high with
  | case1 low high hlt middle hmiddle ih =>
      have hbefore : middle < k := by
        apply Nat.lt_of_not_le
        intro hle
        have hfails := hfail middle hle (by omega)
        rw [hmiddle] at hfails
        cases hfails
      exact ih hbefore hhigh (fun i hi => hpass i (by omega)) hfail
  | case2 low high hlt middle hmiddle ih =>
      have hafter : k ≤ middle := by
        apply Nat.le_of_not_lt
        intro hbefore
        exact hmiddle (hpass middle (by omega) hbefore)
      exact ih hlow hafter hpass (fun i hi hi' => hfail i hi (by omega))
  | case3 low high hge => omega

/-! ## Units -/

theorem unitLength_eq (c : Char) :
    unitLength c = if c.toNat < 0x10000 then 1 else 2 := by
  unfold unitLength utf16
  split <;> rfl

theorem unitLength_pos (c : Char) : 0 < unitLength c := by
  rw [unitLength_eq]
  split <;> omega

namespace Text

variable {t : Text}

/-- Units of the UTF-16 form of a text, character by character.  Columns are
counted in them, while offsets count bytes. -/
def unitCount : Text → Nat
  | [] => 0
  | c :: t => unitLength c + unitCount t

@[simp] theorem unitCount_nil : unitCount [] = 0 := rfl

@[simp] theorem unitCount_cons (c : Char) (t : Text) :
    unitCount (c :: t) = unitLength c + unitCount t := rfl

theorem unitCount_append (s t : Text) :
    unitCount (s ++ t) = unitCount s + unitCount t := by
  induction s with
  | nil => simp
  | cons c s ih => simp [ih, Nat.add_assoc]

theorem length_utf16 (t : Text) : t.utf16.length = unitCount t := by
  induction t with
  | nil => rfl
  | cons c t ih =>
      simp only [Text.utf16, List.flatMap_cons, List.length_append] at ih ⊢
      rw [ih]
      rfl

/-! ## Whole lines -/

/-- The part of a text after its last line feed. -/
def lastLine (t : Text) : Text := (t.reverse.takeWhile (· != '\n')).reverse

/-- A text of whole lines: whatever it ends in is a line feed.  The line table
has the ends of such first parts of the text and nothing else. -/
def WholeLines (t : Text) : Prop := ∀ c ∈ t.getLast?, c = '\n'

theorem wholeLines_nil : WholeLines [] := by simp [WholeLines]

theorem wholeLines_concat (t : Text) : WholeLines (t ++ ['\n']) := by
  simp [WholeLines]

/-- A text of whole lines is empty or has a line feed at its end. -/
theorem WholeLines.cases (h : WholeLines t) :
    t = [] ∨ ∃ u, t = u ++ ['\n'] := by
  rcases List.eq_nil_or_concat t with rfl | ⟨u, c, rfl⟩
  · exact Or.inl rfl
  · have hc : c = '\n' := h c (by simp)
    exact Or.inr ⟨u, by simp [hc]⟩

/-- The last line comes after whole lines and has no line feed. -/
theorem lastLine_append {front line : Text} (hfront : WholeLines front)
    (hline : '\n' ∉ line) : lastLine (front ++ line) = line := by
  have hall : ∀ c ∈ line.reverse, (c != '\n') = true := by
    intro c hc
    simp only [bne_iff_ne]
    intro heq
    exact hline (by simpa [heq] using hc)
  have hstop : front.reverse.takeWhile (· != '\n') = [] := by
    rcases hfront.cases with rfl | ⟨u, rfl⟩
    · rfl
    · simp
  rw [lastLine, List.reverse_append, List.takeWhile_append_of_pos hall, hstop,
    List.append_nil, List.reverse_reverse]

/-- Every text is whole lines and a last line, which has no line feed. -/
theorem exists_lines (t : Text) :
    ∃ front line, t = front ++ line ∧ WholeLines front ∧ '\n' ∉ line := by
  induction t using List.reverseRecOn with
  | nil => exact ⟨[], [], rfl, wholeLines_nil, by simp⟩
  | append_singleton t c ih =>
      by_cases hc : c = '\n'
      · exact ⟨t ++ [c], [], by simp, hc ▸ wholeLines_concat t, by simp⟩
      · obtain ⟨front, line, rfl, hfront, hline⟩ := ih
        exact ⟨front, line ++ [c], by simp, hfront, by simp [hline, Ne.symm hc]⟩

/-- A text with at least `n` line feeds begins with `n` whole lines. -/
theorem exists_wholeLines {n : Nat} (h : n ≤ t.count '\n') :
    ∃ front rest, t = front ++ rest ∧ WholeLines front ∧
      front.count '\n' = n := by
  induction t using List.reverseRecOn with
  | nil =>
      have hn : n = 0 := by simpa using h
      exact ⟨[], [], rfl, wholeLines_nil, hn.symm⟩
  | append_singleton t c ih =>
      by_cases hn : n ≤ t.count '\n'
      · obtain ⟨front, rest, rfl, hfront, hcount⟩ := ih hn
        exact ⟨front, rest ++ [c], by simp, hfront, hcount⟩
      · -- One more line is asked for than `t` has, so `c` has to end it.
        have hc : c = '\n' := by
          apply Classical.byContradiction
          intro hc
          rw [List.count_append, List.count_singleton,
            if_neg (by simpa using hc)] at h
          omega
        subst hc
        rw [List.count_append, List.count_singleton_self] at h
        refine ⟨t ++ ['\n'], [], by simp, wholeLines_concat t, ?_⟩
        rw [List.count_append, List.count_singleton_self]
        omega

/-- The first line of a text ends at a line feed or at the end of the text. -/
theorem exists_firstLine (t : Text) :
    ∃ line rest, t = line ++ rest ∧ '\n' ∉ line ∧
      (rest = [] ∨ ∃ v, rest = '\n' :: v) := by
  induction t with
  | nil => exact ⟨[], [], rfl, by simp, Or.inl rfl⟩
  | cons c t ih =>
      by_cases hc : c = '\n'
      · exact ⟨[], c :: t, rfl, by simp, Or.inr ⟨t, by rw [hc]⟩⟩
      · obtain ⟨line, rest, rfl, hline, hrest⟩ := ih
        exact ⟨c :: line, rest, rfl, by simp [hline, Ne.symm hc], hrest⟩

/-! ## Where lines start -/

theorem feedStops_append (offset : Nat) (s t : Text) :
    feedStops offset (s ++ t) =
      feedStops offset s ++ feedStops (offset + byteLength s) t := by
  induction s generalizing offset with
  | nil => simp [feedStops]
  | cons c s ih =>
      simp only [List.cons_append, feedStops, ih, byteLength_cons,
        Nat.add_assoc]
      split <;> rfl

theorem length_feedStops (offset : Nat) (t : Text) :
    (feedStops offset t).length = t.count '\n' := by
  induction t generalizing offset with
  | nil => rfl
  | cons c t ih =>
      by_cases hc : c = '\n'
      · simp [feedStops, hc, ih]
      · simp [feedStops, hc, ih]

/-- A line starts after its text begins and not past where its text ends. -/
theorem bounds_of_mem_feedStops {offset k : Nat} (h : k ∈ feedStops offset t) :
    offset < k ∧ k ≤ offset + byteLength t := by
  induction t generalizing offset with
  | nil => cases h
  | cons c t ih =>
      have hc := c.utf8Size_pos
      have hrest : k ∈ feedStops (offset + c.utf8Size) t →
          offset < k ∧ k ≤ offset + byteLength (c :: t) := by
        intro hk
        have hbounds := ih hk
        rw [byteLength_cons]
        omega
      simp only [feedStops] at h
      split at h
      · rcases List.mem_cons.1 h with rfl | h
        · rw [byteLength_cons]
          omega
        · exact hrest h
      · exact hrest h

end Text

namespace Position

open Text

/-- Every line feed begins a line. -/
theorem after_line (p : Position) (w : Text) :
    (p.after w).line = p.line + w.count '\n' := by
  induction w generalizing p with
  | nil => rfl
  | cons c w ih =>
      rw [after_cons, ih]
      by_cases hc : c = '\n'
      · simp only [step, hc, if_true, List.count_cons_self]
        omega
      · simp [step, hc]

/-- Along a line only the column grows. -/
theorem after_of_not_mem (p : Position) {w : Text} (h : '\n' ∉ w) :
    p.after w = ⟨p.line, p.column + unitCount w⟩ := by
  induction w generalizing p with
  | nil => rfl
  | cons c w ih =>
      simp only [List.mem_cons, not_or] at h
      have hstep : p.step c = ⟨p.line, p.column + unitLength c⟩ := by
        simp [step, Ne.symm h.1]
      rw [after_cons, hstep, ih _ h.2, unitCount_cons, Nat.add_assoc]

/-- Whole lines lead to the start of a line, and the rest of the way is the last
line. -/
theorem origin_after_append {front line : Text} (hfront : WholeLines front)
    (hline : '\n' ∉ line) :
    origin.after (front ++ line) = ⟨front.count '\n', unitCount line⟩ := by
  have hstart : origin.after front = ⟨front.count '\n', 0⟩ := by
    rcases hfront.cases with rfl | ⟨u, rfl⟩
    · rfl
    · have hlines := after_line origin u
      simp only [origin, Nat.zero_add] at hlines
      simp [step, origin, hlines]
  rw [after_append, hstart, after_of_not_mem _ hline, Nat.zero_add]

end Position

/-! ## The table -/

namespace LineIndex

open Text

variable {x : LineIndex}

theorem size_starts (x : LineIndex) :
    x.starts.size = x.text.count '\n' + 1 := by
  rw [x.starts_eq, List.size_toArray, List.length_cons, length_feedStops]

/-- The table has the end of whole lines under the number of their line
feeds. -/
theorem getElem?_starts_append {front rest : Text} (hx : x.text = front ++ rest)
    (hfront : WholeLines front) :
    x.starts[front.count '\n']? = some (byteLength front) := by
  rw [x.starts_eq, List.getElem?_toArray, hx]
  rcases hfront.cases with rfl | ⟨u, rfl⟩
  · rfl
  · have hcount : (u ++ ['\n']).count '\n' = (feedStops 0 u).length + 1 := by
      rw [List.count_append, List.count_singleton_self, length_feedStops]
    have hsize : Char.utf8Size '\n' = 1 := rfl
    rw [hcount, List.getElem?_cons_succ, List.append_assoc, feedStops_append]
    simp [feedStops, hsize]

/-- The table has nothing but the ends of whole lines. -/
theorem exists_of_getElem?_starts {n start : Nat}
    (h : x.starts[n]? = some start) :
    ∃ front rest, x.text = front ++ rest ∧ WholeLines front ∧
      front.count '\n' = n ∧ byteLength front = start := by
  have hlt : n < x.starts.size := (Array.getElem?_eq_some_iff.1 h).1
  rw [size_starts] at hlt
  obtain ⟨front, rest, hx, hfront, rfl⟩ :=
    exists_wholeLines (Nat.le_of_lt_succ hlt)
  have hstart := getElem?_starts_append hx hfront
  exact ⟨front, rest, hx, hfront, rfl, Option.some.inj (hstart.symm.trans h)⟩

/-- **Halving finds the line of an offset**, which is the number of line feeds
before it.  The table of line starts is ascending, and an entry is at most the
offset just if its line feed comes before. -/
theorem line_append {before after : Text} (hx : x.text = before ++ after) :
    x.line (byteLength before) = before.count '\n' := by
  have hpoint : partitionPoint (fun i =>
        x.starts[i]?.any (· ≤ byteLength before)) 0 x.starts.size =
      before.count '\n' + 1 := by
    have hsize := x.size_starts
    have hcount : before.count '\n' ≤ x.text.count '\n' := by
      rw [hx, List.count_append]
      omega
    have hstarts : x.starts = ((0 :: feedStops 0 before) ++
        feedStops (byteLength before) after).toArray := by
      rw [x.starts_eq, hx, feedStops_append, Nat.zero_add, List.cons_append]
    have hlength : (0 :: feedStops 0 before).length =
        before.count '\n' + 1 := by
      rw [List.length_cons, length_feedStops]
    refine partitionPoint_eq (Nat.zero_le _) (by omega) ?_ ?_
    · intro i _ hi
      rw [hstarts, List.getElem?_toArray, List.getElem?_append_left (by omega)]
      obtain ⟨start, hstart⟩ : ∃ start, (0 :: feedStops 0 before)[i]? =
          some start :=
        ⟨_, List.getElem?_eq_getElem (by omega)⟩
      have hle : start ≤ byteLength before := by
        rcases List.mem_cons.1 (List.mem_of_getElem? hstart) with rfl | hmem
        · exact Nat.zero_le _
        · have hbounds := bounds_of_mem_feedStops hmem
          omega
      simp [hstart, hle]
    · intro i hi _
      rw [hstarts, List.getElem?_toArray, List.getElem?_append_right (by omega)]
      cases hstart : (feedStops (byteLength before) after)[i -
        (0 :: feedStops 0 before).length]? with
      | none => rfl
      | some start =>
          have hbounds := bounds_of_mem_feedStops (List.mem_of_getElem? hstart)
          simp [hbounds.1]
  rw [line, hpoint, Nat.add_sub_cancel]

/-- **The position of the end of a first part of the text is where the part
leads to**, character by character.  So the table and the halving may be
forgotten: positions are a fold over the text. -/
theorem position?_append {before after : Text} (hx : x.text = before ++ after) :
    x.position? (byteLength before) = some (Position.origin.after before) := by
  obtain ⟨front, line, rfl, hfront, hline⟩ := exists_lines before
  have hmin : min (byteLength (front ++ line)) (byteLength x.text) =
      byteLength (front ++ line) := by
    rw [hx, byteLength_append _ after]
    omega
  have hcount : (front ++ line).count '\n' = front.count '\n' := by
    rw [List.count_append, List.count_eq_zero.2 hline, Nat.add_zero]
  have hlines : x.text = front ++ (line ++ after) := by
    rw [hx, List.append_assoc]
  have hstart := getElem?_starts_append hlines hfront
  have hslice : x.text.slice? ⟨byteLength front, byteLength (front ++ line)⟩ =
      some line :=
    slice?_eq_some.2 ⟨front, after, hlines, rfl, by simp⟩
  simp only [position?, hmin, line_append hx, hcount, hstart, hslice,
    Option.bind_eq_bind, Option.bind_some, Option.pure_def, length_utf16]
  rw [Position.origin_after_append hfront hline]

theorem position?_min (x : LineIndex) (offset : Nat) :
    x.position? (min offset x.text.byteLength) = x.position? offset := by
  simp only [position?, Nat.min_assoc, Nat.min_self]

/-- Only an offset between two characters has a position, where one past the end
is taken for the end. -/
theorem position?_eq_some {offset : Nat} {p : Position}
    (h : x.position? offset = some p) :
    ∃ before after, x.text = before ++ after ∧
      byteLength before = min offset x.text.byteLength ∧
      p = Position.origin.after before := by
  have hfound := h
  simp only [position?, Option.bind_eq_bind, Option.bind_eq_some_iff] at hfound
  obtain ⟨start, -, inside, hslice, -⟩ := hfound
  obtain ⟨before, after, hx, hlength, -⟩ := (slice?_eq_some.1 hslice).right
  have hposition := position?_append hx
  rw [hlength, position?_min, h] at hposition
  exact ⟨before, after, hx, hlength, Option.some.inj hposition⟩

/-! ## From a position back to the offset -/

/-- Going along a text reaches a column after the characters that take up the
columns before it. -/
theorem reach?_eq_some {column offset units k : Nat} {w : Text} :
    reach? column offset units w = some k ↔
      ∃ u v, w = u ++ v ∧ column = units + unitCount u ∧
      k = offset + byteLength u := by
  induction w generalizing offset units with
  | nil =>
      simp only [reach?, Option.ite_none_right_eq_some, Option.some.injEq]
      constructor
      · rintro ⟨rfl, rfl⟩
        exact ⟨[], [], rfl, by simp, by simp⟩
      · rintro ⟨u, v, hw, rfl, rfl⟩
        obtain ⟨rfl, -⟩ := List.append_eq_nil_iff.1 hw.symm
        exact ⟨by simp, by simp⟩
  | cons c w ih =>
      have hc := unitLength_pos c
      simp only [reach?]
      split
      · rename_i hcolumn
        simp only [Option.some.injEq]
        constructor
        · rintro rfl
          exact ⟨[], c :: w, rfl, by simp [hcolumn], by simp⟩
        · rintro ⟨u, v, hw, hunits, rfl⟩
          cases u with
          | nil => simp
          | cons d u =>
              obtain ⟨rfl, -⟩ := List.cons.inj hw
              rw [unitCount_cons] at hunits
              omega
      · rename_i hcolumn
        rw [ih]
        constructor
        · rintro ⟨u, v, rfl, rfl, rfl⟩
          exact ⟨c :: u, v, rfl, by simp [Nat.add_assoc],
            by simp [Nat.add_assoc]⟩
        · rintro ⟨u, v, hw, hunits, rfl⟩
          cases u with
          | nil => exact absurd hunits.symm hcolumn
          | cons d u =>
              obtain ⟨rfl, rfl⟩ := List.cons.inj hw
              exact ⟨u, v, rfl, by simp [hunits, Nat.add_assoc],
                by simp [Nat.add_assoc]⟩

/-- A position is looked for on its line and in the line feed that ends it, so
the column just past a line feed is found, and leads to the start of the next
line. -/
theorem offset?_line {front line rest : Text}
    (hx : x.text = front ++ (line ++ rest)) (hfront : WholeLines front)
    (hline : '\n' ∉ line) (hrest : rest = [] ∨ ∃ v, rest = '\n' :: v)
    (column : Nat) :
    x.offset? ⟨front.count '\n', column⟩ =
      reach? column (byteLength front) 0 (line ++ rest.take 1) := by
  have hstart := getElem?_starts_append hx hfront
  have hstop : x.starts[front.count '\n' + 1]?.getD x.text.byteLength =
      byteLength front + byteLength (line ++ rest.take 1) := by
    rcases hrest with rfl | ⟨v, rfl⟩
    · have hnone : x.starts[front.count '\n' + 1]? = none := by
        rw [Array.getElem?_eq_none_iff, size_starts, hx]
        simp [List.count_append, List.count_eq_zero.2 hline]
      rw [hnone, hx]
      simp
    · have hcount : (front ++ line ++ ['\n']).count '\n' =
          front.count '\n' + 1 := by
        rw [List.count_append, List.count_append, List.count_eq_zero.2 hline,
          List.count_singleton_self, Nat.add_zero]
      have hlines : x.text = front ++ line ++ ['\n'] ++ v := by simp [hx]
      have hnext :=
        getElem?_starts_append hlines (wholeLines_concat (front ++ line))
      rw [hcount] at hnext
      rw [hnext]
      simp
  have hslice : x.text.slice? ⟨byteLength front,
        byteLength front + byteLength (line ++ rest.take 1)⟩ =
      some (line ++ rest.take 1) := by
    refine slice?_eq_some.2 ⟨front, rest.drop 1, ?_, rfl, rfl⟩
    rw [hx, List.append_assoc line, List.take_append_drop]
  simp only [offset?, hstart, hstop, hslice, Option.bind_eq_bind,
    Option.bind_some]

/-- The line feed that ends a line is one unit and one byte of it. -/
theorem size_append_feed (line : Text) :
    unitCount (line ++ ['\n']) = unitCount line + 1 ∧
      byteLength (line ++ ['\n']) = byteLength line + 1 := by
  rw [unitCount_append, byteLength_append]
  exact ⟨rfl, rfl⟩

/-- A first part of a line with its line feed ends in the line, or it is all of
them. -/
theorem part_of_line {line rest u v : Text}
    (hrest : rest = [] ∨ ∃ w, rest = '\n' :: w)
    (h : line ++ rest.take 1 = u ++ v) :
    (∃ m, line = u ++ m) ∨ ∃ w, rest = '\n' :: w ∧ u = line ++ ['\n'] := by
  rcases List.append_eq_append_iff.1 h with ⟨m, rfl, htake⟩ | ⟨m, rfl, -⟩
  · cases m with
    | nil => exact Or.inl ⟨[], by simp⟩
    | cons d m =>
        rcases hrest with rfl | ⟨w, rfl⟩
        · cases htake
        · simp only [List.take_succ_cons, List.take_zero, List.cons_append,
            List.cons.injEq, List.nil_eq, List.append_eq_nil_iff] at htake
          obtain ⟨rfl, rfl, -⟩ := htake
          exact Or.inr ⟨w, rfl, rfl⟩
  · exact Or.inl ⟨m, rfl⟩

/-- Where an offset is found, it is the end of a first part of the text, or one
past it where a line feed comes next. -/
theorem exists_of_offset? {p : Position} {o : Nat} (h : x.offset? p = some o) :
    ∃ u v feed, x.text = u ++ v ∧
      (feed = 0 ∨ feed = 1 ∧ v.head? = some '\n') ∧
      p = ⟨(Position.origin.after u).line,
        (Position.origin.after u).column + feed⟩ ∧
      o = byteLength u + feed := by
  obtain ⟨start, hstart, -⟩ := Option.bind_eq_some_iff.1 h
  obtain ⟨front, after, hx, hfront, hlines, -⟩ :=
    exists_of_getElem?_starts hstart
  obtain ⟨line, rest, rfl, hline, hrest⟩ := exists_firstLine after
  obtain ⟨lines, column⟩ := p
  obtain rfl : front.count '\n' = lines := hlines
  rw [offset?_line hx hfront hline hrest, reach?_eq_some] at h
  obtain ⟨u, v, hsplit, hcolumn, rfl⟩ := h
  rw [Nat.zero_add] at hcolumn
  rcases part_of_line hrest hsplit with ⟨m, rfl⟩ | ⟨w, rfl, rfl⟩
  · refine ⟨front ++ u, m ++ rest, 0, by simp [hx], Or.inl rfl, ?_, by simp⟩
    have hu : '\n' ∉ u := fun hmem => hline (List.mem_append_left _ hmem)
    rw [Position.origin_after_append hfront hu, hcolumn, Nat.add_zero]
  · obtain ⟨hunits, hbytes⟩ := size_append_feed line
    refine ⟨front ++ line, '\n' :: w, 1, by simp [hx], Or.inr ⟨rfl, rfl⟩,
      ?_, ?_⟩
    · rw [Position.origin_after_append hfront hline, hcolumn, hunits]
    · rw [hbytes, byteLength_append, Nat.add_assoc]

/-- **An offset is found from the position of a first part of the text, and from
the column past it where a line feed comes next.**  The second case is why the
way back is not quite the inverse of the way there. -/
theorem offset?_eq_some {p : Position} {o : Nat} :
    x.offset? p = some o ↔ ∃ u v feed, x.text = u ++ v ∧
      (feed = 0 ∨ feed = 1 ∧ v.head? = some '\n') ∧
      p = ⟨(Position.origin.after u).line,
        (Position.origin.after u).column + feed⟩ ∧
      o = byteLength u + feed := by
  refine ⟨exists_of_offset?, ?_⟩
  rintro ⟨u, v, feed, hx, hfeed, rfl, rfl⟩
  obtain ⟨front, line, rfl, hfront, hline⟩ := exists_lines u
  obtain ⟨more, rest, rfl, hmore, hrest⟩ := exists_firstLine v
  have hall : '\n' ∉ line ++ more := by simp [hline, hmore]
  rw [Position.origin_after_append hfront hline,
    offset?_line (by simp [hx]) hfront hall hrest, reach?_eq_some]
  rcases hfeed with rfl | ⟨rfl, hhead⟩
  · exact ⟨line, more ++ rest.take 1, by simp, by simp, by simp⟩
  · obtain rfl : more = [] := by
      cases more with
      | nil => rfl
      | cons d more =>
          obtain rfl : d = '\n' := by simpa using hhead
          simp at hmore
    obtain ⟨w, rfl⟩ := List.head?_eq_some_iff.1 hhead
    obtain ⟨hunits, hbytes⟩ := size_append_feed line
    refine ⟨line ++ ['\n'], [], by simp, ?_, ?_⟩
    · rw [hunits, Nat.zero_add]
    · rw [hbytes, byteLength_append, Nat.add_assoc]

end LineIndex

end TemplateJsx
