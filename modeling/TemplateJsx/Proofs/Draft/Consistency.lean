import TemplateJsx.Proofs.Draft.Items

/-!
# Consistent drafts

A draft is consistent when all its splices can be made at once: each is part of
the text and cuts no character, no byte is in two ranges, and no insertion
stands strictly inside a range.  Nothing of this speaks of the test that a draft
makes when it is given a splice.

The test is exact (`submit_eq_ok_iff`): a draft takes a splice just when it
stays consistent with the splice at the end.  So every draft that can be come by
is consistent, and such a draft can be rendered.
-/

namespace TemplateJsx

def Span.Covers (x : Span) (k : Nat) : Prop := x.start ≤ k ∧ k < x.stop

/-- Two spans that cover something share a byte when each starts before the
other stops. -/
theorem Span.exists_covers {x y : Span} (hx : x.start < x.stop)
    (hy : y.start < y.stop) (hxy : x.start < y.stop) (hyx : y.start < x.stop) :
    ∃ k, x.Covers k ∧ y.Covers k := by
  refine ⟨max x.start y.start, ?_, ?_⟩ <;> simp only [Span.Covers] <;> omega

namespace Splice

variable {a b : Splice}

/-- Two ranges conflict when they share a byte.  Ranges that meet at an offset
do not. -/
theorem conflictsWith_range_range (ha : a.isInsert = false)
    (hb : b.isInsert = false) (hane : a.span.start < a.span.stop)
    (hbne : b.span.start < b.span.stop) :
    a.conflictsWith b = false ↔ ∀ k, ¬(a.span.Covers k ∧ b.span.Covers k) := by
  simp only [conflictsWith, ha, hb, Bool.and_eq_false_iff,
    decide_eq_false_iff_not, Nat.not_lt]
  constructor
  · rintro hfree k ⟨hka, hkb⟩
    simp only [Span.Covers] at hka hkb
    omega
  · intro hdisjoint
    by_cases hab : a.span.start < b.span.stop
    · by_cases hba : b.span.start < a.span.stop
      · obtain ⟨k, hk⟩ := Span.exists_covers hane hbne hab hba
        exact absurd hk (hdisjoint k)
      · exact Or.inr (by omega)
    · exact Or.inl (by omega)

/-- An insertion and a range conflict when the insertion stands strictly inside
the range.  At either end of it there is a place for the insertion. -/
theorem conflictsWith_insert_range (ha : a.isInsert = true)
    (hb : b.isInsert = false) :
    a.conflictsWith b = false ↔
      ¬(b.span.start < a.span.start ∧ a.span.start < b.span.stop) := by
  simp only [conflictsWith, ha, hb, Bool.and_eq_false_iff,
    decide_eq_false_iff_not]
  omega

/-- Insertions never conflict. -/
theorem conflictsWith_insert_insert (ha : a.isInsert = true)
    (hb : b.isInsert = true) :
    a.conflictsWith b = false := by
  simp only [conflictsWith, ha, hb]

end Splice

namespace Draft

variable {d d' : Draft} {s : Splice}

/-- All splices of a draft can be made at once: each is a part of the text or a
place in it, no two ranges share a byte and nothing is inserted inside a range.
It is stated in bytes and offsets, without the test that recording makes. -/
structure Consistent (d : Draft) : Prop where
  /-- No splice is reversed or reaches past the end of the text. -/
  inside : ∀ s ∈ d.splices, s.span.start ≤ s.span.stop ∧
    s.span.stop ≤ d.text.byteLength
  /-- No splice cuts a character. -/
  whole : ∀ s ∈ d.splices, d.text.isBoundary s.span.start = true ∧
    d.text.isBoundary s.span.stop = true
  /-- Only insertions cover nothing. -/
  nonempty : ∀ s ∈ d.splices, s.isInsert = false → s.span.isEmpty = false
  /-- No byte is in two ranges. -/
  disjoint : d.splices.Pairwise fun a b =>
    a.isInsert = false → b.isInsert = false →
      ∀ k, ¬(a.span.Covers k ∧ b.span.Covers k)
  /-- No insertion stands strictly inside a range. -/
  outside : ∀ i ∈ d.splices, i.isInsert = true →
    ∀ r ∈ d.splices, r.isInsert = false →
    ¬(r.span.start < i.span.start ∧ i.span.start < r.span.stop)

/-- The draft with one more splice at the end. -/
def extend (d : Draft) (s : Splice) : Draft :=
  { d with splices := d.splices ++ [s] }

theorem Consistent.fits (h : d.Consistent) :
    ∀ s ∈ d.splices, s.Fits d.text := by
  intro s hs
  refine ⟨⟨(h.inside s hs).1, h.whole s hs⟩, fun hrange => ?_⟩
  have hle := (h.inside s hs).1
  have hne := h.nonempty s hs hrange
  simp only [Span.isEmpty, beq_eq_false_iff_ne] at hne
  omega

theorem Consistent.sound (h : d.Consistent) : d.Sound := by
  refine ⟨h.fits, h.disjoint.imp_of_mem ?_⟩
  intro a b ha hb hdisjoint
  cases hai : a.isInsert <;> cases hbi : b.isInsert
  · exact (Splice.conflictsWith_range_range hai hbi ((h.fits a ha).nonempty hai)
      ((h.fits b hb).nonempty hbi)).2 (hdisjoint hai hbi)
  · rw [Splice.conflictsWith_comm]
    exact (Splice.conflictsWith_insert_range hbi hai).2
      (h.outside b hb hbi a ha hai)
  · exact (Splice.conflictsWith_insert_range hai hbi).2
      (h.outside a ha hai b hb hbi)
  · exact Splice.conflictsWith_insert_insert hai hbi

theorem Sound.consistent (h : d.Sound) : d.Consistent := by
  refine ⟨?_, fun s hs => (h.fits s hs).cuts.2, ?_, ?_, ?_⟩
  · intro s hs
    exact ⟨(h.fits s hs).cuts.1,
      (Text.isBoundary_iff.1 (h.fits s hs).cuts.2.2).stop_le⟩
  · intro s hs hrange
    have hlt := (h.fits s hs).nonempty hrange
    simp only [Span.isEmpty, beq_eq_false_iff_ne]
    omega
  · refine h.apart.imp_of_mem ?_
    intro a b ha hb hfree hai hbi
    exact (Splice.conflictsWith_range_range hai hbi ((h.fits a ha).nonempty hai)
      ((h.fits b hb).nonempty hbi)).1 hfree
  · intro i hi hinsert r hr hrange
    -- An insertion is no range, so the two stand at different places of the
    -- list.
    have hfree : i.conflictsWith r = false := by
      rcases pairwise_cases h.apart hi hr with heq | hfree | hfree
      · rw [heq, hrange] at hinsert
        cases hinsert
      · exact hfree
      · rwa [Splice.conflictsWith_comm]
    exact (Splice.conflictsWith_insert_range hinsert hrange).1 hfree

/-- **The test that recording makes comes to this.**  The test compares ends of
spans; what it is meant to ensure is about the bytes they cover. -/
theorem consistent_iff_sound : d.Consistent ↔ d.Sound :=
  ⟨Consistent.sound, Sound.consistent⟩

/-- A draft with one more splice is sound when the draft is, the splice fits and
it conflicts with none. -/
theorem sound_extend (h : d.Sound) :
    (d.extend s).Sound ↔ s.Fits d.text ∧ ∀ e ∈ d.splices,
      e.conflictsWith s = false := by
  constructor
  · intro hextend
    exact hextend.admits
  · rintro ⟨hfits, hfree⟩
    exact h.record (record_eq_ok.2 ⟨hfits, hfree, rfl⟩)

/-- **A splice is taken just when the draft stays consistent**, and then it
comes last.  The test refuses nothing that could be made and takes nothing that
could not. -/
theorem Consistent.submit_eq_ok_iff (h : d.Consistent) :
    d.submit s = (.ok (), d') ↔ (d.extend s).Consistent ∧ d' = d.extend s := by
  rw [submit_eq_ok, consistent_iff_sound, sound_extend h.sound, and_assoc]
  rfl

/-- Some calls, taken or refused, lead from a text to a draft.  Texts put in
front and behind are calls as well. -/
def Reachable (d : Draft) (text : Text) : Prop :=
  ∃ edits, (ofText text).performAll edits = d

/-- **Every draft that can be reached is consistent.**  It takes just the
splices with which it stays so, a refusal leaves it as it is, and rendering it
never asks for a part that the text does not have.  Whoever splices a template
may therefore ignore a refusal and go on with the same draft. -/
theorem reachable_consistent {text : Text} (h : d.Reachable text) :
    d.text = text ∧ d.Consistent ∧
      (∀ s d', d.submit s = (.ok (), d') ↔
        (d.extend s).Consistent ∧ d' = d.extend s) ∧
      (∀ s fault d', d.submit s = (.error fault, d') → d' = d) ∧
      ∃ r, d.render? = some r := by
  obtain ⟨edits, rfl⟩ := h
  obtain ⟨hsound, htext⟩ := performAll_sound (sound_ofText text) edits
  refine ⟨htext, hsound.consistent, ?_, ?_, _, hsound.render?⟩
  · intro s d'
    exact hsound.consistent.submit_eq_ok_iff
  · intro s fault d' hrefused
    exact eq_of_submit_eq_error hrefused

/-- After a range over a character of two bytes, an insertion at its end is
taken, one inside the character is refused, and so is a range that starts where
no offset of a text lies; the draft is then still the same. -/
theorem reachable_consistent_two_bytes :
    ∃ d : Draft, d.Reachable "aéb".toList ∧
      d.splices = [.overwrite ⟨1, 3⟩ "xy".toList] ∧ d.Consistent ∧
      d.submit (.insert 3 "z".toList) =
        (.ok (), d.extend (.insert 3 "z".toList)) ∧
      ¬(d.extend (.insert 2 "z".toList)).Consistent ∧
      (∃ fault, d.submit (.remove ⟨18446744073709551615, 0⟩) =
        (.error fault, d)) ∧
      ∃ r, d.render? = some r := by
  obtain ⟨d, hd⟩ : ∃ d, (ofText "aéb".toList).performAll
      [.splice (.overwrite ⟨1, 3⟩ "xy".toList),
        .splice (.insert 2 "z".toList)] = d :=
    ⟨_, rfl⟩
  have hd' : d = ⟨"aéb".toList, [.overwrite ⟨1, 3⟩ "xy".toList], [], []⟩ :=
    hd.symm
  obtain ⟨-, hconsistent, htaken, hrefused, hrender⟩ :=
    reachable_consistent ⟨_, hd⟩
  refine ⟨d, ⟨_, hd⟩, by rw [hd'], hconsistent, ?_, ?_, ?_, hrender⟩
  · rw [hd']
    rfl
  · intro hextend
    have hsubmit := (htaken _ _).2 ⟨hextend, rfl⟩
    rw [hd'] at hsubmit
    cases hsubmit
  · have hfault : (d.submit (.remove ⟨18446744073709551615, 0⟩)).1 =
        .error (.outside ⟨18446744073709551615, 0⟩ 4) := by
      rw [hd']
      rfl
    cases hsubmit : d.submit (.remove ⟨18446744073709551615, 0⟩) with
    | mk outcome after =>
        rw [hsubmit] at hfault
        obtain rfl : outcome = .error (.outside ⟨18446744073709551615, 0⟩ 4) :=
          hfault
        exact ⟨_, by rw [hrefused _ _ _ hsubmit]⟩

end Draft

end TemplateJsx
