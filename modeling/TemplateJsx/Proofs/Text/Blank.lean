import TemplateJsx.Text.Blank
import TemplateJsx.Proofs.Text.Stands

/-!
# White space around a word

`Text.trimSpan?` moves the ends of a span over white space.  `trimSpan?_eq_some`
says what is left: white space, a word without white space at its ends, and
white space again.
-/

namespace TemplateJsx

def blankCodes : List Nat :=
  [9, 10, 11, 12, 13, 0x20, 0x85, 0xA0, 0x1680, 0x2000, 0x2001, 0x2002, 0x2003,
    0x2004, 0x2005, 0x2006, 0x2007, 0x2008, 0x2009, 0x200A, 0x2028, 0x2029,
    0x202F, 0x205F, 0x3000]

theorem exists_blankCode {c : Char} (h : isBlank c = true) :
    ∃ n ∈ blankCodes, c = Char.ofNat n := by
  refine ⟨c.toNat, ?_, (Char.ofNat_toNat c).symm⟩
  simp only [isBlank, Bool.or_eq_true, Bool.and_eq_true, decide_eq_true_eq,
    beq_iff_eq] at h
  simp only [blankCodes, List.mem_cons, List.not_mem_nil, or_false]
  omega

namespace Text

/-- Nothing but white space. -/
def Blank (w : Text) : Prop := ∀ c ∈ w, isBlank c = true

/-- White space that is there. -/
def Gap (w : Text) : Prop := Blank w ∧ w ≠ []

/-- No white space at either end.  The empty text counts as trimmed. -/
def Trimmed (w : Text) : Prop :=
  (∀ c ∈ w.head?, isBlank c = false) ∧ ∀ c ∈ w.getLast?, isBlank c = false

/-- A trimmed word stands at a span. -/
def TrimmedAt (t : Text) (x : Span) : Prop :=
  ∃ w, Trimmed w ∧ t.Stands x.start w x.stop

/-- Between two offsets stands a trimmed word with white space around it.  It is
how the tree records an expression: the span leaves out the white space between
the expression and the braces. -/
structure TrimmedTo (t : Text) (s e : Nat) (x : Span) : Prop where
  before : ∃ g, Blank g ∧ t.Stands s g x.start
  inside : TrimmedAt t x
  after : ∃ h, Blank h ∧ t.Stands x.stop h e

theorem TrimmedAt.cuts {t : Text} {x : Span} (h : t.TrimmedAt x) :
    t.Cuts x := by
  obtain ⟨w, -, hw⟩ := h
  exact hw.cuts

theorem blank_nil : Blank [] := by simp [Blank]

theorem Blank.append {v w : Text} (hv : Blank v) (hw : Blank w) :
    Blank (v ++ w) := by
  intro c hc
  rcases List.mem_append.1 hc with h | h
  · exact hv c h
  · exact hw c h

theorem Gap.append {v w : Text} (hv : Gap v) (hw : Blank w) : Gap (v ++ w) :=
  ⟨hv.1.append hw, by simp [hv.2]⟩

theorem Blank.append_gap {v w : Text} (hv : Blank v) (hw : Gap w) :
    Gap (v ++ w) :=
  ⟨hv.append hw.1, by simp [hw.2]⟩

@[simp] theorem byteLength_reverse (t : Text) :
    byteLength t.reverse = byteLength t := by
  induction t with
  | nil => rfl
  | cons c t ih => simp [ih, Nat.add_comm]

/-- Leading white space is all that is taken from in front of a trimmed word. -/
theorem takeWhile_blank_append {g r : Text} (hg : Blank g)
    (hr : ∀ c ∈ r.head?, isBlank c = false) :
    (g ++ r).takeWhile isBlank = g := by
  rw [List.takeWhile_append_of_pos hg]
  cases r with
  | nil => simp
  | cons c r => simp [hr c rfl]

theorem exists_blank_append (w : Text) :
    ∃ g r, w = g ++ r ∧ Blank g ∧ ∀ c ∈ r.head?, isBlank c = false := by
  refine ⟨w.takeWhile isBlank, w.dropWhile isBlank,
    List.takeWhile_append_dropWhile.symm, ?_, ?_⟩
  · intro c hc
    exact List.all_eq_true.1 List.all_takeWhile c hc
  · intro c hc
    have hhead := List.head?_dropWhile_not isBlank w
    rw [Option.mem_def.1 hc] at hhead
    simpa using hhead

/-- What comes first after white space is the first character that is none. -/
theorem exists_blank_of_trimLeft {w : Text} {c : Char}
    (h : w.trimLeft.head? = some c) :
    ∃ g r, w = g ++ c :: r ∧ Blank g := by
  obtain ⟨g, r, rfl, hg, hr⟩ := exists_blank_append w
  have hdrop : trimLeft (g ++ r) = r := by
    rw [trimLeft, List.dropWhile_append_of_pos hg]
    cases r with
    | nil => rfl
    | cons d r => simp [hr d rfl]
  rw [hdrop] at h
  obtain ⟨rest, rfl⟩ := List.head?_eq_some_iff.1 h
  exact ⟨g, rest, rfl, hg⟩

theorem exists_append_blank (w : Text) :
    ∃ y h, w = y ++ h ∧ Blank h ∧ ∀ c ∈ y.getLast?, isBlank c = false := by
  obtain ⟨g, r, hw, hg, hr⟩ := exists_blank_append w.reverse
  refine ⟨r.reverse, g.reverse, ?_, fun c hc =>
    hg c (by simpa using hc), by simpa using hr⟩
  rw [← List.reverse_append, ← hw, List.reverse_reverse]

/-- A word is white space, a trimmed word and white space again.  The trimmed
word is empty only if there is white space alone. -/
theorem exists_trimmed_parts (w : Text) :
    Blank w ∨ ∃ g y h, w = g ++ (y ++ h) ∧ Blank g ∧ Blank h ∧ Trimmed y ∧
      y ≠ [] := by
  obtain ⟨g, r, rfl, hg, hr⟩ := exists_blank_append w
  obtain ⟨y, h, rfl, hh, hy⟩ := exists_append_blank r
  by_cases hnil : y = []
  · subst hnil
    exact Or.inl (hg.append hh)
  · refine Or.inr ⟨g, y, h, rfl, hg, hh, ⟨?_, hy⟩, hnil⟩
    simpa [hnil] using hr

/-- Trimming a span leaves a trimmed word with white space around it, and the
trimmed span is cut out of the same text: the offsets it gets are boundaries
again. -/
theorem trimSpan?_eq_some {t w : Text} {s e : Nat} (h : t.Stands s w e) :
    ∃ x, t.trimSpan? ⟨s, e⟩ = some x ∧ TrimmedTo t s e x := by
  have hslice : t.slice? ⟨s, e⟩ = some w := slice?_eq_some.2 h
  have hstop := h.stop_eq
  rcases exists_trimmed_parts w with hblank | ⟨g, y, k, rfl, hg, hk, hy, hne⟩
  · -- Nothing but white space: the span shrinks to its start.
    refine ⟨⟨s, s⟩, ?_, ⟨[], blank_nil, h.left⟩,
      ⟨[], by simp [Trimmed], h.left⟩, ⟨w, hblank, h⟩⟩
    have htake : w.takeWhile isBlank = w := by
      simpa using takeWhile_blank_append (r := []) hblank (by simp)
    have htake' : w.reverse.takeWhile isBlank = w.reverse := by
      simpa using takeWhile_blank_append (g := w.reverse) (r := [])
        (fun c hc => hblank c (by simpa using hc)) (by simp)
    have hback : e - byteLength w = s := by omega
    simp only [trimSpan?, hslice, htake, htake', byteLength_reverse, hback,
      Option.bind_eq_bind, Option.bind_some, Option.pure_def,
      Option.some.injEq, Span.point]
    split
    · rfl
    · have hzero : byteLength w = 0 := by omega
      simp [hzero]
  · obtain ⟨hleft, hrest⟩ := h.split
    obtain ⟨hmiddle, hright⟩ := hrest.split
    refine ⟨⟨s + byteLength g, s + byteLength g + byteLength y⟩, ?_,
      ⟨g, hg, hleft⟩, ⟨y, hy, hmiddle⟩, ⟨k, hk, hright⟩⟩
    have htake : (g ++ (y ++ k)).takeWhile isBlank = g :=
      takeWhile_blank_append hg (by simpa [hne] using hy.1)
    have htake' : (g ++ (y ++ k)).reverse.takeWhile isBlank = k.reverse := by
      have hk' : Blank k.reverse := fun c hc => hk c (by simpa using hc)
      have hy' : ∀ c ∈ (y.reverse ++ g.reverse).head?, isBlank c = false := by
        simpa [hne] using hy.2
      simpa using takeWhile_blank_append hk' hy'
    have hback : e - byteLength k = s + byteLength g + byteLength y := by
      simp only [byteLength_append] at hstop
      omega
    simp only [trimSpan?, hslice, htake, htake', byteLength_reverse, hback,
      Option.bind_eq_bind, Option.bind_some, Option.pure_def, Option.some.injEq]
    rw [if_neg (by omega)]

/-- A span without white space at its ends is left alone. -/
theorem trimSpan?_self {t w : Text} {x : Span} (h : t.slice? x = some w)
    (hw : Trimmed w) :
    t.trimSpan? x = some x := by
  have hhead : w.takeWhile isBlank = [] := by
    simpa using takeWhile_blank_append (g := []) blank_nil hw.1
  have hlast : w.reverse.takeWhile isBlank = [] := by
    simpa using takeWhile_blank_append (g := []) (r := w.reverse) blank_nil
      (by simpa using hw.2)
  have hle : x.start ≤ x.stop := (slice?_eq_some.1 h).le
  simp only [trimSpan?, h, hhead, hlast, byteLength_nil, Nat.add_zero,
    Nat.sub_zero, Option.bind_eq_bind, Option.bind_some, Option.pure_def]
  rw [if_neg (by omega)]

end Text

end TemplateJsx
