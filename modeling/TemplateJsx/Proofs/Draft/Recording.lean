import TemplateJsx.Draft.Basic
import TemplateJsx.Proofs.Order
import TemplateJsx.Proofs.Text.Stands

/-!
# What a draft records

A draft takes a splice when the splice fits the text and conflicts with none
before it, and is the same draft as before when it refuses one (`submit_cases`).
So whatever is done to a draft, and however often it refuses, its splices fit
the text and keep out of each other's way (`performAll_sound`).  In the order in
which they come out each stops before the next one starts (`Sound.ordered`).
-/

namespace TemplateJsx

namespace Splice

/-- The range of a splice is part of the text, and only an insertion covers
nothing. -/
structure Fits (t : Text) (s : Splice) : Prop where
  cuts : t.Cuts s.span
  nonempty : s.isInsert = false → s.span.start < s.span.stop

theorem span_of_isInsert {s : Splice} (h : s.isInsert = true) :
    s.span.stop = s.span.start := by
  cases s with
  | overwrite span text => simp [isInsert] at h
  | remove span => simp [isInsert] at h
  | insert offset text => rfl

theorem conflictsWith_comm (a b : Splice) :
    a.conflictsWith b = b.conflictsWith a := by
  unfold conflictsWith
  cases a.isInsert <;> cases b.isInsert <;> simp [Bool.and_comm]

def isInsertAt (s : Splice) (offset : Nat) : Bool :=
  s.span.start == offset && s.isInsert

def isRangeAt (s : Splice) (offset : Nat) : Bool :=
  s.span.start == offset && !s.isInsert

theorem isRangeAt_iff {s : Splice} {offset : Nat} :
    s.isRangeAt offset = true ↔ s.span.start = offset ∧ s.isInsert = false := by
  simp [isRangeAt]

/-- The place of a splice in the order in which splices come out: by where it
starts, and at one offset insertions before ranges. -/
def rank (s : Splice) : Nat := 2 * s.span.start + if s.isInsert then 0 else 1

theorem rank_of_isInsert {s : Splice} (h : s.isInsert = true) :
    s.rank = 2 * s.span.start := by
  simp [rank, h]

theorem rank_of_range {s : Splice} (h : s.isInsert = false) :
    s.rank = 2 * s.span.start + 1 := by
  simp [rank, h]

theorem atMost_iff {a b : Splice} : a.atMost b = true ↔ a.rank ≤ b.rank := by
  simp only [atMost, rank, Bool.or_eq_true, decide_eq_true_eq,
    Bool.and_eq_true, beq_iff_eq]
  cases a.isInsert <;> cases b.isInsert <;> simp <;> omega

theorem atMost_total (a b : Splice) (h : a.atMost b = false) :
    b.atMost a = true := by
  rw [← Bool.not_eq_true, atMost_iff] at h
  rw [atMost_iff]
  omega

theorem atMost_trans (a b c : Splice) (hab : a.atMost b = true)
    (hbc : b.atMost c = true) :
    a.atMost c = true := by
  rw [atMost_iff] at hab hbc ⊢
  omega

/-- Of two splices that do not conflict the one that comes out first stops
before the other starts.  Sorting therefore is enough for rendering to go over
the text once. -/
theorem stop_le_of_atMost {t : Text} {a b : Splice} (hb : b.Fits t)
    (hab : a.atMost b = true) (hfree : a.conflictsWith b = false) :
    a.span.stop ≤ b.span.start := by
  rw [atMost_iff] at hab
  simp only [rank] at hab
  cases hai : a.isInsert <;> cases hbi : b.isInsert
  · have hlt := hb.nonempty hbi
    simp only [hai, hbi, conflictsWith, Bool.and_eq_false_iff,
      decide_eq_false_iff_not] at hab hfree
    omega
  · simp only [hai, hbi, conflictsWith, Bool.and_eq_false_iff,
      decide_eq_false_iff_not, if_true, Bool.false_eq_true,
      if_false] at hab hfree
    omega
  · have hstop := span_of_isInsert hai
    simp only [hai, hbi, if_true, Bool.false_eq_true, if_false] at hab
    omega
  · have hstop := span_of_isInsert hai
    simp only [hai, hbi] at hab
    omega

end Splice

namespace Draft

variable {t : Text} {d d' : Draft} {s : Splice}

/-- A range has no fault when it is part of the text. -/
theorem rangeFault?_eq_none : rangeFault? t s = none ↔ s.Fits t := by
  constructor
  · intro h
    simp only [rangeFault?] at h
    split at h
    · simp at h
    · rename_i hrange
      split at h
      · simp at h
      · rename_i hcut
        split at h
        · simp at h
        · rename_i hempty
          simp only [Bool.or_eq_true, decide_eq_true_eq, not_or, Nat.not_lt,
            Bool.not_eq_true', Bool.and_eq_false_iff, not_or, Bool.not_eq_false,
            Bool.and_eq_true, Span.isEmpty, beq_iff_eq,
            not_and] at hrange hcut hempty
          refine ⟨⟨hrange.1, hcut.1, hcut.2⟩, ?_⟩
          intro hinsert
          have hne := hempty hinsert
          omega
  · rintro ⟨⟨hle, hstart, hstop⟩, hnonempty⟩
    have hend := (Text.isBoundary_iff.1 hstop).stop_le
    have hempty : (!s.isInsert && s.span.isEmpty) = false := by
      cases hinsert : s.isInsert with
      | true => rfl
      | false =>
          have hlt := hnonempty hinsert
          simp only [Bool.not_false, Bool.true_and, Span.isEmpty,
            beq_eq_false_iff_ne]
          omega
    simp only [rangeFault?, hstart, hstop, hempty, Bool.and_self, Bool.not_true,
      Bool.false_eq_true, if_false]
    rw [if_neg]
    simp only [Bool.or_eq_true, decide_eq_true_eq]
    omega

/-- The splices of a draft fit its text and do not conflict.  Recording keeps
this, and it is all that rendering needs. -/
structure Sound (d : Draft) : Prop where
  fits : ∀ s ∈ d.splices, s.Fits d.text
  apart : d.splices.Pairwise fun a b => a.conflictsWith b = false

/-- **What becomes of a call.**  A splice is taken when it fits and conflicts
with none before it, and then it comes last.  If it is refused, the draft stays
as it is. -/
theorem submit_cases (d : Draft) (s : Splice) :
    (s.Fits d.text ∧ (∀ e ∈ d.splices, e.conflictsWith s = false) ∧
      d.submit s = (.ok (), { d with splices := d.splices ++ [s] })) ∨
    ¬(s.Fits d.text ∧ ∀ e ∈ d.splices, e.conflictsWith s = false) ∧
      ∃ fault, d.submit s = (.error fault, d) := by
  unfold submit
  cases hrange : rangeFault? d.text s with
  | some fault =>
      have hfits : ¬s.Fits d.text :=
        fun h => by simp [rangeFault?_eq_none.2 h] at hrange
      exact Or.inr ⟨fun h => hfits h.1, fault, rfl⟩
  | none =>
      have hfits := rangeFault?_eq_none.1 hrange
      cases hfind : d.splices.find? (·.conflictsWith s) with
      | some earlier =>
          have hmem := List.mem_of_find?_eq_some hfind
          have hclash : earlier.conflictsWith s = true := by
            simpa using List.find?_some hfind
          refine Or.inr ⟨fun h => ?_, _, rfl⟩
          simp [h.2 earlier hmem] at hclash
      | none =>
          have hfree : ∀ e ∈ d.splices, e.conflictsWith s = false := by
            simpa using List.find?_eq_none.1 hfind
          exact Or.inl ⟨hfits, hfree, rfl⟩

theorem submit_eq_ok : d.submit s = (.ok (), d') ↔
    s.Fits d.text ∧ (∀ e ∈ d.splices, e.conflictsWith s = false) ∧
      d' = { d with splices := d.splices ++ [s] } := by
  rcases submit_cases d s with ⟨hfits, hfree, htaken⟩ | ⟨hno, fault, hrefused⟩
  · rw [htaken]
    constructor
    · intro h
      exact ⟨hfits, hfree, (Prod.mk.inj h).2.symm⟩
    · rintro ⟨-, -, rfl⟩
      rfl
  · rw [hrefused]
    constructor
    · intro h
      cases h
    · rintro ⟨hfits, hfree, -⟩
      exact absurd ⟨hfits, hfree⟩ hno

theorem eq_of_submit_eq_error {fault : SpliceFault}
    (h : d.submit s = (.error fault, d')) : d' = d := by
  rcases submit_cases d s with ⟨-, -, htaken⟩ | ⟨-, fault', hrefused⟩
  · rw [htaken] at h
    cases h
  · rw [hrefused] at h
    exact (Prod.mk.inj h).2.symm

theorem record_eq_ok_iff_submit :
    d.record s = .ok d' ↔ d.submit s = (.ok (), d') := by
  unfold record
  cases hsubmit : d.submit s with
  | mk outcome after =>
      cases outcome with
      | error fault => simp
      | ok u => simp

theorem record_eq_ok : d.record s = .ok d' ↔
    s.Fits d.text ∧ (∀ e ∈ d.splices, e.conflictsWith s = false) ∧
      d' = { d with splices := d.splices ++ [s] } :=
  record_eq_ok_iff_submit.trans submit_eq_ok

theorem sound_ofText (t : Text) : (ofText t).Sound :=
  ⟨by simp [ofText], by simp [ofText]⟩

theorem Sound.record (h : d.Sound) (hrecord : d.record s = .ok d') :
    d'.Sound := by
  obtain ⟨hfits, hfree, rfl⟩ := record_eq_ok.1 hrecord
  refine ⟨?_, ?_⟩
  · intro e he
    rcases List.mem_append.1 he with he | he
    · exact h.fits e he
    · rwa [List.mem_singleton.1 he]
  · refine List.pairwise_append.2 ⟨h.apart, List.pairwise_singleton _ _, ?_⟩
    intro a ha b hb
    rw [List.mem_singleton.1 hb]
    exact hfree a ha

theorem Sound.admits {rest : List Splice}
    (h : Sound { d with splices := d.splices ++ s :: rest }) :
    s.Fits d.text ∧ ∀ e ∈ d.splices, e.conflictsWith s = false := by
  refine ⟨h.fits s (by simp), fun e he => ?_⟩
  exact (List.pairwise_append.1 h.apart).2.2 e he s List.mem_cons_self

/-- A splice of a sound draft is taken after those before it, whatever comes
later.  So a sound draft can be built up again, one splice at a time. -/
theorem Sound.record_next {rest : List Splice}
    (h : Sound { d with splices := d.splices ++ s :: rest }) :
    d.record s = .ok { d with splices := d.splices ++ [s] } := by
  obtain ⟨hfits, hfree⟩ := h.admits
  exact record_eq_ok.2 ⟨hfits, hfree, rfl⟩

theorem Sound.ordered (h : d.Sound) :
    (Splice.ordered d.splices).Pairwise fun a b =>
      a.span.stop ≤ b.span.start := by
  have hperm := sortBy_perm Splice.atMost d.splices
  have hsorted :=
    sortBy_pairwise Splice.atMost_total Splice.atMost_trans d.splices
  have hapart : (Splice.ordered d.splices).Pairwise fun a b =>
      a.conflictsWith b = false :=
    (hperm.pairwise_iff fun {a b} hab => by rwa [Splice.conflictsWith_comm]).2
      h.apart
  refine (hsorted.and hapart).imp_of_mem ?_
  rintro a b - hb ⟨hab, hfree⟩
  exact Splice.stop_le_of_atMost (h.fits b (hperm.mem_iff.1 hb)) hab hfree

/-- At an offset at most one range starts. -/
theorem Sound.rangesAt (h : d.Sound) (offset : Nat) :
    d.splices.filter (·.isRangeAt offset) =
      (d.splices.find? (·.isRangeAt offset)).toList := by
  rw [← List.head?_filter]
  cases hranges : d.splices.filter (·.isRangeAt offset) with
  | nil => rfl
  | cons a rest =>
      cases rest with
      | nil => rfl
      | cons b rest =>
          -- Two of them would share the byte at which both start.
          have hmem : ∀ {s}, s ∈ a :: b :: rest → s ∈ d.splices ∧
              s.isRangeAt offset = true := by
            intro s hs
            rw [← hranges] at hs
            exact List.mem_filter.1 hs
          obtain ⟨ha, hastart, harange⟩ :=
            (hmem List.mem_cons_self).imp_right Splice.isRangeAt_iff.1
          obtain ⟨hb, hbstart, hbrange⟩ :=
            (hmem (by simp)).imp_right (Splice.isRangeAt_iff (s := b)).1
          have halt := (h.fits a ha).nonempty harange
          have hblt := (h.fits b hb).nonempty hbrange
          have hapart := h.apart.filter (·.isRangeAt offset)
          rw [hranges] at hapart
          have hfree := (List.pairwise_cons.1 hapart).1 b List.mem_cons_self
          simp only [Splice.conflictsWith, harange, hbrange,
            Bool.and_eq_false_iff, decide_eq_false_iff_not] at hfree
          omega

end Draft

/-- What can be done to a draft: a splice, which may be refused, and texts in
front of and behind everything. -/
inductive Edit where
  | splice (s : Splice)
  | prepend (text : Text)
  | append (text : Text)

namespace Draft

/-- Does one thing to a draft, and goes on with the draft that is there after
it, whether or not a splice was refused. -/
def perform (d : Draft) : Edit → Draft
  | .splice s => (d.submit s).2
  | .prepend text => d.prepend text
  | .append text => d.append text

/-- Does one thing after another, whatever is refused on the way. -/
def performAll (d : Draft) (edits : List Edit) : Draft := edits.foldl perform d

/-- A splice that is taken is recorded, and one that is refused changes
nothing. -/
theorem perform_splice (d : Draft) (s : Splice) : d.perform (.splice s) =
    match d.record s with
    | .ok d' => d'
    | .error _ => d := by
  have hperform : d.perform (.splice s) = (d.submit s).2 := rfl
  rw [hperform, record]
  rcases submit_cases d s with ⟨-, -, htaken⟩ | ⟨-, fault, hrefused⟩
  · rw [htaken]
  · rw [hrefused]

theorem perform_sound {d : Draft} (h : d.Sound) (e : Edit) :
    (d.perform e).Sound ∧ (d.perform e).text = d.text := by
  cases e with
  | splice s =>
      rw [perform_splice]
      split
      · rename_i hrecord
        refine ⟨h.record hrecord, ?_⟩
        rw [(record_eq_ok.1 hrecord).2.2]
      · exact ⟨h, rfl⟩
  | prepend text => exact ⟨⟨h.fits, h.apart⟩, rfl⟩
  | append text => exact ⟨⟨h.fits, h.apart⟩, rfl⟩

theorem performAll_sound {d : Draft} (h : d.Sound) (edits : List Edit) :
    (d.performAll edits).Sound ∧ (d.performAll edits).text = d.text := by
  induction edits generalizing d with
  | nil => exact ⟨h, rfl⟩
  | cons e edits ih =>
      obtain ⟨hsound, htext⟩ := perform_sound h e
      obtain ⟨hsound', htext'⟩ := ih hsound
      exact ⟨hsound', htext'.trans htext⟩

end Draft

end TemplateJsx
