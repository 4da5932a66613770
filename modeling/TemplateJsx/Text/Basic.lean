import TemplateJsx.Text.Span

/-!
# Texts and byte offsets

A text is the list of its characters.  Every offset in this library counts the
bytes of the UTF-8 form, so an offset may lie past the end of the text or inside
a character.  `Text.splitAt?` decides that, `Text.dropTo?` is its second half,
and slices and boundaries are read off from them.
-/

namespace TemplateJsx

/-- A text, character by character.  Offsets into it count the bytes of its
UTF-8 form, as spans of a template do. -/
abbrev Text := List Char

namespace Text

/-- Number of bytes of the UTF-8 form. -/
def byteLength : Text → Nat
  | [] => 0
  | c :: t => c.utf8Size + byteLength t

@[simp] theorem byteLength_nil : byteLength [] = 0 := rfl

@[simp] theorem byteLength_cons (c : Char) (t : Text) :
    byteLength (c :: t) = c.utf8Size + byteLength t := rfl

@[simp] theorem byteLength_append (s t : Text) :
    byteLength (s ++ t) = byteLength s + byteLength t := by
  induction s with
  | nil => simp
  | cons c s ih => simp [ih, Nat.add_assoc]

/-- The characters before a byte offset and those after it.  There are none when
the offset lies past the end or inside a character. -/
def splitAt? : Text → Nat → Option (Text × Text)
  | t, 0 => some ([], t)
  | [], _ + 1 => none
  | c :: t, n + 1 =>
    if c.utf8Size ≤ n + 1 then
      (splitAt? t (n + 1 - c.utf8Size)).map fun parts => (c :: parts.1, parts.2)
    else
      none

theorem splitAt?_append (s t : Text) :
    splitAt? (s ++ t) (byteLength s) = some (s, t) := by
  induction s with
  | nil => simp [splitAt?]
  | cons c s ih =>
    have hc := c.utf8Size_pos
    obtain ⟨n, hn⟩ : ∃ n, c.utf8Size + byteLength s = n + 1 :=
      ⟨c.utf8Size + byteLength s - 1, by omega⟩
    have hrest : n + 1 - c.utf8Size = byteLength s := by omega
    simp only [List.cons_append, byteLength_cons, hn, splitAt?]
    rw [if_pos (by omega), hrest, ih]
    rfl

theorem splitAt?_eq_some {t a b : Text} {n : Nat}
    (h : splitAt? t n = some (a, b)) :
    t = a ++ b ∧ byteLength a = n := by
  induction t generalizing a n with
  | nil =>
    cases n with
    | zero => simp_all [splitAt?]
    | succ n => simp [splitAt?] at h
  | cons c t ih =>
    cases n with
    | zero => simp_all [splitAt?]
    | succ n =>
      simp only [splitAt?] at h
      split at h
      · obtain ⟨⟨a', b'⟩, hsplit, heq⟩ := Option.map_eq_some_iff.1 h
        simp only [Prod.mk.injEq] at heq
        obtain ⟨ha, hb⟩ := heq
        subst ha hb
        obtain ⟨ht, hlen⟩ := ih hsplit
        exact ⟨by simp [ht], by simp only [byteLength_cons]; omega⟩
      · simp at h

/-- The characters from a byte offset on, under the same condition. -/
def dropTo? : Text → Nat → Option Text
  | t, 0 => some t
  | [], _ + 1 => none
  | c :: t, n + 1 =>
    if c.utf8Size ≤ n + 1 then dropTo? t (n + 1 - c.utf8Size) else none

/-- What comes from an offset on is the second part of the split there. -/
theorem dropTo?_eq (t : Text) (n : Nat) :
    dropTo? t n = (splitAt? t n).map Prod.snd := by
  induction t generalizing n with
  | nil => cases n <;> simp [dropTo?, splitAt?]
  | cons c t ih =>
    cases n with
    | zero => simp [dropTo?, splitAt?]
    | succ n =>
      simp only [dropTo?, splitAt?]
      split
      · simp [ih, Function.comp_def]
      · rfl

/-- An offset that falls between two characters, or at either end. -/
def isBoundary (t : Text) (offset : Nat) : Bool := (t.dropTo? offset).isSome

/-- The characters covered by a span; there are none when the span is reversed,
reaches past the end or cuts a character. -/
def slice? (t : Text) (s : Span) : Option Text :=
  if s.start ≤ s.stop then do
    let rest ← t.dropTo? s.start
    let (inside, _) ← rest.splitAt? (s.stop - s.start)
    return inside
  else
    none

end Text

end TemplateJsx
