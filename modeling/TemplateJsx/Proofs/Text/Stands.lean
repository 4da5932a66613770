import TemplateJsx.Text.Basic

/-!
# Words standing in a text

`t.Stands s w e` says that the word `w` is what the text `t` reads from the byte
offset `s` to the byte offset `e`.  Slices and boundaries are questions about
such words, and here each of them is turned into one.  Words that meet join
(`Stands.append`), a word made of two falls apart (`Stands.split`), and two
offsets determine the word between them (`Stands.unique`).
-/

namespace TemplateJsx

namespace Text

/-- The word that a text reads from one byte offset to another.  Nearly
everything that is said of spans comes down to this: both offsets fall between
characters, they are in order, and the word between them is known. -/
def Stands (t : Text) (start : Nat) (word : Text) (stop : Nat) : Prop :=
  ∃ before after, t = before ++ (word ++ after) ∧ byteLength before = start ∧
    stop = start + byteLength word

/-- A span in order whose two offsets fall between characters of the text, so
that a word can be cut out there. -/
def Cuts (t : Text) (x : Span) : Prop :=
  x.start ≤ x.stop ∧ t.isBoundary x.start = true ∧ t.isBoundary x.stop = true

instance (t : Text) (x : Span) : Decidable (t.Cuts x) :=
  inferInstanceAs (Decidable (x.start ≤ x.stop ∧ t.isBoundary x.start = true ∧
    t.isBoundary x.stop = true))

@[simp] theorem byteLength_eq_zero {t : Text} : byteLength t = 0 ↔ t = [] := by
  cases t with
  | nil => simp
  | cons c t =>
      have hc := c.utf8Size_pos
      simp only [byteLength_cons, reduceCtorEq, iff_false]
      omega

/-- A text is cut in one way only by the length of its first part.  Lengths are
in bytes, and no character has none. -/
theorem append_inj_byteLength {a b c d : Text} (h : a ++ b = c ++ d)
    (hlen : byteLength a = byteLength c) : a = c ∧ b = d := by
  have ha := splitAt?_append a b
  rw [h, hlen, splitAt?_append c d] at ha
  simpa [eq_comm] using ha

/-- Of two first parts of one text the shorter is the beginning of the
longer. -/
theorem exists_append_of_byteLength_le {a b c d : Text} (h : a ++ b = c ++ d)
    (hlen : byteLength a ≤ byteLength c) : ∃ m, c = a ++ m ∧ b = m ++ d := by
  rcases List.append_eq_append_iff.1 h with ⟨m, hc, hb⟩ | ⟨m, ha, hd⟩
  · exact ⟨m, hc, hb⟩
  · have hm : m = [] := by
      rw [ha, byteLength_append] at hlen
      exact byteLength_eq_zero.1 (by omega)
    subst hm
    exact ⟨[], by simpa using ha.symm, by simpa using hd.symm⟩

/-- The second part of a cut, read off from an offset. -/
theorem dropTo?_eq_some {t rest : Text} {offset : Nat} :
    t.dropTo? offset = some rest ↔
      ∃ before, t = before ++ rest ∧ byteLength before = offset := by
  rw [dropTo?_eq, Option.map_eq_some_iff]
  constructor
  · rintro ⟨⟨before, after⟩, hsplit, rfl⟩
    exact ⟨before, splitAt?_eq_some hsplit⟩
  · rintro ⟨before, rfl, rfl⟩
    exact ⟨(before, rest), splitAt?_append before rest, rfl⟩

/-- A slice is the word that stands between the two offsets.  This takes the
model's operation over into the relation, and is used in both directions. -/
theorem slice?_eq_some {t word : Text} {start stop : Nat} :
    t.slice? ⟨start, stop⟩ = some word ↔ t.Stands start word stop := by
  constructor
  · intro h
    by_cases hle : start ≤ stop
    · simp only [slice?, hle, if_true, Option.bind_eq_bind,
        Option.bind_eq_some_iff, Option.pure_def, Option.some.injEq] at h
      obtain ⟨rest, hdrop, ⟨inside, after⟩, hsplit, rfl⟩ := h
      obtain ⟨before, rfl, hbefore⟩ := dropTo?_eq_some.1 hdrop
      obtain ⟨rfl, hinside⟩ := splitAt?_eq_some hsplit
      have hstop : stop = start + byteLength inside := by omega
      exact ⟨before, after, rfl, hbefore, hstop⟩
    · simp [slice?, hle] at h
  · rintro ⟨before, after, rfl, rfl, rfl⟩
    have hdrop : dropTo? (before ++ (word ++ after)) (byteLength before) =
        some (word ++ after) :=
      dropTo?_eq_some.2 ⟨before, rfl, rfl⟩
    simp [slice?, hdrop, splitAt?_append]

/-- A boundary is where the empty word stands. -/
theorem isBoundary_iff {t : Text} {offset : Nat} :
    t.isBoundary offset = true ↔ t.Stands offset [] offset := by
  rw [isBoundary, Option.isSome_iff_exists]
  constructor
  · rintro ⟨rest, hrest⟩
    obtain ⟨before, rfl, hbefore⟩ := dropTo?_eq_some.1 hrest
    exact ⟨before, rest, rfl, hbefore, rfl⟩
  · rintro ⟨before, rest, rfl, hbefore, -⟩
    exact ⟨rest, dropTo?_eq_some.2 ⟨before, rfl, hbefore⟩⟩

/-- The whole text stands between its two ends. -/
theorem stands_self (t : Text) : t.Stands 0 t t.byteLength :=
  ⟨[], [], by simp, rfl, by simp⟩

namespace Stands

variable {t u v w : Text} {s m e : Nat}

theorem stop_eq (h : t.Stands s w e) : e = s + byteLength w := by
  obtain ⟨_, _, _, _, he⟩ := h
  exact he

theorem le (h : t.Stands s w e) : s ≤ e := by
  have he := h.stop_eq
  omega

theorem stop_le (h : t.Stands s w e) : e ≤ t.byteLength := by
  obtain ⟨before, after, rfl, rfl, rfl⟩ := h
  simp only [byteLength_append]
  omega

theorem lt (h : t.Stands s w e) (hw : w ≠ []) : s < e := by
  have he := h.stop_eq
  have hpos : byteLength w ≠ 0 := fun h0 => hw (byteLength_eq_zero.1 h0)
  omega

theorem ne_nil (h : t.Stands s w e) (hlt : s < e) : w ≠ [] := by
  intro hw
  have he := h.stop_eq
  rw [hw, byteLength_nil] at he
  omega

theorem eq_nil (h : t.Stands s w s) : w = [] := by
  have he := h.stop_eq
  exact byteLength_eq_zero.1 (by omega)

theorem eq_of_nil (h : t.Stands s [] e) : e = s := by
  simpa using h.stop_eq

/-- Words that meet make one word. -/
theorem append (h : t.Stands s v m) (h' : t.Stands m w e) :
    t.Stands s (v ++ w) e := by
  obtain ⟨before, after, rfl, rfl, rfl⟩ := h
  obtain ⟨before', after', ht, hlen, rfl⟩ := h'
  have hcut : (before ++ v) ++ after = before' ++ (w ++ after') := by
    simpa using ht
  obtain ⟨-, rfl⟩ := append_inj_byteLength hcut (by simp [hlen])
  exact ⟨before, after', by simp, rfl, by simp only [byteLength_append]; omega⟩

/-- A word made of two falls apart where they meet. -/
theorem split (h : t.Stands s (v ++ w) e) :
    t.Stands s v (s + byteLength v) ∧ t.Stands (s + byteLength v) w e := by
  obtain ⟨before, after, rfl, rfl, rfl⟩ := h
  refine ⟨⟨before, w ++ after, by simp, rfl, rfl⟩,
    ⟨before ++ v, after, by simp, by simp, ?_⟩⟩
  simp only [byteLength_append]
  omega

theorem uncons {c : Char} (h : t.Stands s (c :: w) e) :
    t.Stands s [c] (s + c.utf8Size) ∧ t.Stands (s + c.utf8Size) w e := by
  simpa using split (v := [c]) h

/-- Two offsets determine the word between them. -/
theorem unique (h : t.Stands s v e) (h' : t.Stands s w e) : v = w := by
  rw [← slice?_eq_some] at h h'
  exact Option.some.inj (h.symm.trans h')

theorem left (h : t.Stands s w e) : t.Stands s [] s := by
  obtain ⟨before, after, rfl, rfl, rfl⟩ := h
  exact ⟨before, w ++ after, rfl, rfl, rfl⟩

theorem right (h : t.Stands s w e) : t.Stands e [] e := by
  have hsplit := (show t.Stands s (w ++ []) e by simpa using h).split.2
  rwa [← h.stop_eq] at hsplit

/-- Between two boundaries in order some word stands, namely what is left when
both cuts are made. -/
theorem between (h : t.Stands s [] s) (h' : t.Stands e [] e) (hle : s ≤ e) :
    ∃ w, t.Stands s w e := by
  obtain ⟨before, after, rfl, rfl, -⟩ := h
  obtain ⟨before', after', ht, rfl, -⟩ := h'
  obtain ⟨w, rfl, hafter⟩ := exists_append_of_byteLength_le ht hle
  exact ⟨w, before, after', by simpa using hafter, rfl, by simp⟩

/-- Between the two ends of a character there is no boundary. -/
theorem boundary_le {c : Char} {k : Nat} (h : t.Stands s [c] e)
    (hk : t.Stands k [] k) (hlt : k < e) :
    k ≤ s := by
  refine Nat.le_of_not_lt fun hsk => ?_
  obtain ⟨u, hu⟩ := h.left.between hk (Nat.le_of_lt hsk)
  obtain ⟨v, hv⟩ := hk.between h.right (Nat.le_of_lt hlt)
  have hlength := congrArg List.length (h.unique (hu.append hv))
  have hu' := List.length_pos_iff.2 (hu.ne_nil hsk)
  have hv' := List.length_pos_iff.2 (hv.ne_nil hlt)
  simp only [List.length_cons, List.length_nil, List.length_append] at hlength
  omega

theorem dropTo? (h : t.Stands s w e) :
    ∃ rest, t.dropTo? s = some (w ++ rest) ∧ t.dropTo? e = some rest := by
  obtain ⟨before, rest, rfl, rfl, rfl⟩ := h
  exact ⟨rest, dropTo?_eq_some.2 ⟨before, rfl, rfl⟩,
    dropTo?_eq_some.2 ⟨before ++ w, by simp, by simp⟩⟩

/-- What is left of the text from an offset on stands up to the end. -/
theorem of_dropTo? (h : t.dropTo? s = some w) : t.Stands s w t.byteLength := by
  obtain ⟨before, rfl, rfl⟩ := dropTo?_eq_some.1 h
  exact ⟨before, [], by simp, rfl, by simp⟩

theorem cuts (h : t.Stands s w e) : t.Cuts ⟨s, e⟩ :=
  ⟨h.le, isBoundary_iff.2 h.left, isBoundary_iff.2 h.right⟩

end Stands

namespace Cuts

variable {t : Text} {s m e : Nat}

theorem trans (h : t.Cuts ⟨s, m⟩) (h' : t.Cuts ⟨m, e⟩) : t.Cuts ⟨s, e⟩ :=
  ⟨Nat.le_trans h.1 h'.1, h.2.1, h'.2.2⟩

theorem stands (h : t.Cuts ⟨s, e⟩) : ∃ w, t.Stands s w e :=
  (isBoundary_iff.1 h.2.1).between (isBoundary_iff.1 h.2.2) h.1

end Cuts

end Text

end TemplateJsx
