import TemplateJsx.Proofs.Draft.Items

/-!
# Drafts as scans of the text

What a draft comes to can be told by one pass over its text.  At every boundary
come first the texts inserted there, in the order of the calls.  If a range
starts there its text follows and the pass goes on where the range stops;
otherwise the character of the text follows.  `scan` is this pass.

Rendering knows nothing of it: it sorts the splices and moves a cursor.
`performAll_code` says that the code is that of the scan, whatever was done to
the draft, with the texts in front and behind around it, and that every splice
that was taken comes out just once.
-/

namespace TemplateJsx

def Item.splice? : Item → Option Splice
  | kept _ _ => none
  | brought s => some s

/-- What one pass over a text puts out.  Up to the offset `resume` the text is
passed over, as it is inside a range.  The pass knows the offset and how far to
skip, and looks up what starts where it stands. -/
def scan (splices : List Splice) : (resume offset : Nat) → Text → List Item
  | resume, offset, [] =>
    if offset < resume then [] else
      (splices.filter (·.isInsertAt offset)).map .brought
  | resume, offset, c :: t =>
    if offset < resume then scan splices resume (offset + c.utf8Size) t
    else
      (splices.filter (·.isInsertAt offset)).map .brought ++
        match splices.find? (·.isRangeAt offset) with
        | some s =>
          .brought s :: scan splices s.span.stop (offset + c.utf8Size) t
        | none => .kept offset c :: scan splices resume (offset + c.utf8Size) t

namespace Draft

variable {d : Draft}

theorem Sound.not_inside (h : d.Sound) {s r : Splice} (hs : s ∈ d.splices)
    (hr : r ∈ d.splices) (hstart : s.span.start < r.span.start) :
    s.span.stop ≤ r.span.start := by
  have hfree : s.conflictsWith r = false := by
    rcases pairwise_cases h.apart hs hr with heq | hfree | hfree
    · rw [heq] at hstart
      omega
    · exact hfree
    · rwa [Splice.conflictsWith_comm]
  refine Splice.stop_le_of_atMost (h.fits r hr) ?_ hfree
  simp only [Splice.atMost, hstart, decide_true, Bool.true_or]

/-- Where the pass stands: the text is passed over just while the offset is
strictly inside a range, and then up to the end of the range.  This is what
every step of the pass keeps. -/
structure Passing (d : Draft) (resume offset : Nat) : Prop where
  ahead : offset < resume → ∃ s ∈ d.splices, s.span.start < offset ∧
    s.span.stop = resume
  inside : ∀ s ∈ d.splices, s.span.start < offset → offset < s.span.stop →
    resume = s.span.stop

/-- What starts before the next boundary starts at this one or before it. -/
theorem Sound.start_le (h : d.Sound) {s : Splice} (hs : s ∈ d.splices)
    {c : Char} {offset next : Nat} (hc : d.text.Stands offset [c] next)
    (hlt : s.span.start < next) : s.span.start ≤ offset :=
  hc.boundary_le (Text.isBoundary_iff.1 (h.fits s hs).cuts.2.1) hlt

theorem Sound.scan_nil (h : d.Sound) {resume : Nat}
    (hpassing : d.Passing resume d.text.byteLength) :
    scan d.splices resume d.text.byteLength [] =
      TemplateJsx.items d.splices d.text.byteLength [] := by
  have hend : ∀ s ∈ d.splices, s.span.stop ≤ d.text.byteLength := fun s hs =>
    (Text.isBoundary_iff.1 (h.fits s hs).cuts.2.2).stop_le
  have hresume : ¬d.text.byteLength < resume := by
    intro hlt
    obtain ⟨s, hs, -, rfl⟩ := hpassing.ahead hlt
    have := hend s hs
    omega
  have hranges : d.splices.filter (·.isRangeAt d.text.byteLength) = [] := by
    rw [List.filter_eq_nil_iff]
    intro s hs hrange
    obtain ⟨hstart, hinsert⟩ := Splice.isRangeAt_iff.1 hrange
    have hlt := (h.fits s hs).nonempty hinsert
    have hle := hend s hs
    omega
  rw [scan, if_neg hresume, TemplateJsx.items, broughtAt_eq, hranges,
    List.append_nil]

theorem Sound.items_passed (h : d.Sound) {resume offset : Nat}
    (hpassing : d.Passing resume offset) (hlt : offset < resume) (c : Char)
    (w : Text) :
    TemplateJsx.items d.splices offset (c :: w) =
      TemplateJsx.items d.splices (offset + c.utf8Size) w := by
  obtain ⟨s, hs, hstart, rfl⟩ := hpassing.ahead hlt
  have hnone : broughtAt d.splices offset = [] := by
    refine broughtAt_eq_nil fun r hr heq => ?_
    have := h.not_inside hs hr (by omega)
    omega
  have hcovered : covered d.splices offset = true := by
    simp only [covered, List.any_eq_true, Bool.and_eq_true, decide_eq_true_eq]
    exact ⟨s, hs, by omega, hlt⟩
  rw [TemplateJsx.items, hnone, hcovered]
  rfl

/-- Outside of ranges a character is covered just when a range starts at it. -/
theorem Sound.covered_eq (h : d.Sound) {resume offset : Nat}
    (hpassing : d.Passing resume offset) (hle : resume ≤ offset) :
    covered d.splices offset = (d.splices.find?
      (·.isRangeAt offset)).isSome := by
  rw [Bool.eq_iff_iff]
  simp only [covered, List.any_eq_true, Bool.and_eq_true, decide_eq_true_eq,
    List.find?_isSome]
  constructor
  · rintro ⟨s, hs, hstart, hstop⟩
    have heq : s.span.start = offset := by
      by_cases hlt : s.span.start < offset
      · have := hpassing.inside s hs hlt hstop
        omega
      · omega
    refine ⟨s, hs, Splice.isRangeAt_iff.2 ⟨heq, ?_⟩⟩
    cases hinsert : s.isInsert with
    | false => rfl
    | true =>
        have := Splice.span_of_isInsert hinsert
        omega
  · rintro ⟨s, hs, hrange⟩
    obtain ⟨hstart, hinsert⟩ := Splice.isRangeAt_iff.1 hrange
    have hlt := (h.fits s hs).nonempty hinsert
    exact ⟨s, hs, by omega, by omega⟩

section Next

variable {c : Char} {resume offset next : Nat}

theorem Sound.passing_over (h : d.Sound) (hc : d.text.Stands offset [c] next)
    (hpassing : d.Passing resume offset) (hlt : offset < resume) :
    d.Passing resume next := by
  have hnext := hc.lt (by simp)
  obtain ⟨s, hs, hstart, hstop⟩ := hpassing.ahead hlt
  refine ⟨fun _ => ⟨s, hs, by omega, hstop⟩, fun r hr hrstart hrstop => ?_⟩
  have hle := h.start_le hr hc hrstart
  have hne : r.span.start ≠ offset := fun heq => by
    have := h.not_inside hs hr (by omega)
    omega
  exact hpassing.inside r hr (by omega) (by omega)

/-- Outside of ranges, one that goes on at the next boundary starts here. -/
theorem Sound.isRangeAt_of_inside (h : d.Sound)
    (hc : d.text.Stands offset [c] next) (hpassing : d.Passing resume offset)
    (hle : resume ≤ offset) {r : Splice} (hr : r ∈ d.splices)
    (hstart : r.span.start < next) (hstop : next < r.span.stop) :
    r.isRangeAt offset = true := by
  have hnext := hc.lt (by simp)
  have hrle := h.start_le hr hc hstart
  have heq : r.span.start = offset := by
    by_cases hrlt : r.span.start < offset
    · have := hpassing.inside r hr hrlt (by omega)
      omega
    · omega
  refine Splice.isRangeAt_iff.2 ⟨heq, ?_⟩
  cases hinsert : r.isInsert with
  | false => rfl
  | true =>
      have := Splice.span_of_isInsert hinsert
      omega

/-- Where a range starts the pass goes on inside it. -/
theorem Sound.passing_range (h : d.Sound) (hc : d.text.Stands offset [c] next)
    (hpassing : d.Passing resume offset) (hle : resume ≤ offset) {s : Splice}
    (hs : d.splices.find? (·.isRangeAt offset) = some s) :
    d.Passing s.span.stop next := by
  have hnext := hc.lt (by simp)
  have hat : s.isRangeAt offset = true := by simpa using List.find?_some hs
  have hstart := (Splice.isRangeAt_iff.1 hat).1
  refine ⟨fun _ =>
    ⟨s, List.mem_of_find?_eq_some hs, by omega, rfl⟩,
    fun r hr hrstart hrstop => ?_⟩
  have hmem : r ∈ d.splices.filter (·.isRangeAt offset) :=
    List.mem_filter.2 ⟨hr, h.isRangeAt_of_inside hc hpassing hle hr
      hrstart hrstop⟩
  rw [h.rangesAt, hs] at hmem
  rw [List.mem_singleton.1 hmem]

/-- Past a character that is kept the pass is inside no range. -/
theorem Sound.passing_kept (h : d.Sound) (hc : d.text.Stands offset [c] next)
    (hpassing : d.Passing resume offset) (hle : resume ≤ offset)
    (hnone : d.splices.find? (·.isRangeAt offset) = none) :
    d.Passing resume next := by
  have hnext := hc.lt (by simp)
  refine ⟨fun _ => by omega, fun r hr hrstart hrstop => ?_⟩
  have hat := h.isRangeAt_of_inside hc hpassing hle hr hrstart hrstop
  have hnot := List.find?_eq_none.1 hnone r hr
  exact absurd hat hnot

end Next

/-- **The pass puts out the items of the draft.**  By induction on the text,
with the state of the pass as what every character keeps. -/
theorem Sound.scan_eq_items (h : d.Sound) {resume offset : Nat} {w : Text}
    (hw : d.text.Stands offset w d.text.byteLength)
    (hpassing : d.Passing resume offset) :
    scan d.splices resume offset w = TemplateJsx.items d.splices offset w := by
  induction w generalizing resume offset with
  | nil =>
      obtain rfl : d.text.byteLength = offset := hw.eq_of_nil
      exact h.scan_nil hpassing
  | cons c w ih =>
      obtain ⟨hc, hw'⟩ :=
        (show d.text.Stands offset ([c] ++ w) d.text.byteLength from hw).split
      have hlength : Text.byteLength [c] = c.utf8Size := by simp
      rw [hlength] at hc hw'
      by_cases hlt : offset < resume
      · rw [scan, if_pos hlt, h.items_passed hpassing hlt]
        exact ih hw' (h.passing_over hc hpassing hlt)
      · have hle : resume ≤ offset := Nat.le_of_not_lt hlt
        rw [scan, if_neg hlt, TemplateJsx.items, broughtAt_eq, h.rangesAt,
          h.covered_eq hpassing hle]
        cases hrange : d.splices.find? (·.isRangeAt offset) with
        | some s =>
            have hnext := ih hw' (h.passing_range hc hpassing hle hrange)
            simp [hnext]
        | none =>
            have hnext := ih hw' (h.passing_kept hc hpassing hle hrange)
            simp [hnext]

def broughtIn (is : List Item) : List Splice := is.filterMap Item.splice?

theorem broughtIn_keptFrom (offset : Nat) (w : Text) :
    broughtIn (keptFrom offset w) = [] := by
  induction w generalizing offset with
  | nil => rfl
  | cons c w ih =>
      simpa [keptFrom, broughtIn, Item.splice?] using ih (offset + c.utf8Size)

/-- Splices in a row come out in their order. -/
theorem broughtIn_items {t : Text} {splices : List Splice}
    (hfits : ∀ s ∈ splices, s.Fits t)
    (hrow : splices.Pairwise fun a b => a.span.stop ≤ b.span.start)
    {cursor : Nat} {w : Text} (hw : t.Stands cursor w t.byteLength)
    (hcursor : ∀ s ∈ splices, cursor ≤ s.span.start) :
    broughtIn (TemplateJsx.items splices cursor w) = splices := by
  induction splices generalizing cursor w with
  | nil =>
      have hitems : TemplateJsx.items [] cursor (w ++ []) =
          keptFrom cursor w ++ TemplateJsx.items []
            (cursor + w.byteLength) [] :=
        items_append (by simp)
      rw [List.append_nil] at hitems
      rw [hitems, broughtIn, List.filterMap_append, ← broughtIn,
        broughtIn_keptFrom]
      rfl
  | cons s rest ih =>
      obtain ⟨hstop, hrow⟩ := List.pairwise_cons.1 hrow
      obtain ⟨u, v, hu, hv, hitems⟩ :=
        items_row (hfits s (by simp)) hstop hw (hcursor s (by simp))
      have hrest : broughtIn (TemplateJsx.items rest s.span.stop v) = rest :=
        ih (fun r hr => hfits r (by simp [hr])) hrow hv hstop
      rw [hitems, broughtIn, List.filterMap_append, ← broughtIn,
        broughtIn_keptFrom]
      simpa [Item.splice?, broughtIn] using hrest

theorem Sound.broughtIn_items (h : d.Sound) :
    broughtIn (TemplateJsx.items d.splices 0 d.text) =
      Splice.ordered d.splices := by
  have hmem : ∀ {s}, s ∈ Splice.ordered d.splices → s ∈ d.splices := fun hs =>
    (sortBy_perm Splice.atMost d.splices).mem_iff.1 hs
  rw [← items_ordered]
  exact Draft.broughtIn_items (fun s hs => h.fits s (hmem hs)) h.ordered
    (Text.stands_self d.text) (fun s _ => Nat.zero_le _)

/-! ## What was done to a draft -/

/-- The splices that a draft takes, in the order of the calls.  A splice that is
refused does not count for those after it. -/
def accepted (d : Draft) : List Edit → List Splice
  | [] => []
  | .splice s :: edits =>
    match d.record s with
    | .ok d => s :: accepted d edits
    | .error _ => accepted d edits
  | e :: edits => accepted (d.perform e) edits

/-- The texts that are put in front, in the order of the calls. -/
def prepended (edits : List Edit) : List Text :=
  edits.filterMap fun
    | .prepend text => some text
    | _ => none

/-- The texts that are put behind, in the order of the calls. -/
def appended (edits : List Edit) : List Text :=
  edits.filterMap fun
    | .append text => some text
    | _ => none

theorem performAll_eq (d : Draft) (edits : List Edit) :
    d.performAll edits =
      ⟨d.text, d.splices ++ d.accepted edits,
        (prepended edits).reverse.flatten ++ d.intro,
        d.outro ++ (appended edits).flatten⟩ := by
  induction edits generalizing d with
  | nil => simp [performAll, accepted, prepended, appended]
  | cons e edits ih =>
      have hstep : d.performAll (e :: edits) = (d.perform e).performAll edits :=
        rfl
      rw [hstep, ih]
      cases e with
      | prepend text =>
          simp [perform, Draft.prepend, accepted, prepended, appended]
      | append text =>
          simp [perform, Draft.append, accepted, prepended, appended]
      | splice s =>
          cases hrecord : d.record s with
          | error fault =>
              simp [perform_splice, accepted, hrecord, prepended, appended]
          | ok d' =>
              obtain ⟨-, -, rfl⟩ := record_eq_ok.1 hrecord
              simp [perform_splice, accepted, hrecord, prepended, appended]

/-- **The code of a draft is that of one pass over the text**, between the texts
put in front, the last one first, and those put behind.  Every splice that was
taken comes out just once, after all that stops before it.  This is the whole of
what whoever records splices can count on. -/
theorem performAll_code (text : Text) (edits : List Edit) :
    ∃ r, ((ofText text).performAll edits).render? = some r ∧
      r.code = (prepended edits).reverse.flatten ++
        itemText (scan ((ofText text).accepted edits) 0 0 text) ++
        (appended edits).flatten ∧
      (broughtIn (scan ((ofText text).accepted edits) 0 0 text)).Perm
        ((ofText text).accepted edits) ∧
      (broughtIn (scan ((ofText text).accepted edits) 0 0 text)).Pairwise
        fun a b => a.span.stop ≤ b.span.start := by
  obtain ⟨hsound, htext⟩ := performAll_sound (sound_ofText text) edits
  have hscan := hsound.scan_eq_items (Text.stands_self _)
    (⟨fun hlt => by omega, fun s _ hlt _ => by omega⟩ : Passing _ 0 0)
  have hbrought := hsound.broughtIn_items
  have hperm :=
    sortBy_perm Splice.atMost ((ofText text).performAll edits).splices
  have hordered := hsound.ordered
  refine ⟨_, hsound.render?, ?_⟩
  rw [← hscan] at hbrought ⊢
  rw [← Splice.ordered, ← hbrought] at hperm
  rw [← hbrought] at hordered
  rw [htext] at hperm hordered ⊢
  rw [performAll_eq] at hperm hordered ⊢
  exact ⟨by simp [ofText], hperm, hordered⟩

/-- Two insertions between two ranges that meet come after the one and before
the other, in the order of the calls; a range that spans them is refused, and of
two texts in front the later one comes first. -/
theorem performAll_code_between :
    (ofText "aéc".toList).accepted
      [.splice (.overwrite ⟨1, 3⟩ "E".toList), .splice (.insert 1 "1".toList),
        .prepend ">".toList, .splice (.overwrite ⟨0, 1⟩ "A".toList),
        .splice (.insert 1 "2".toList), .splice (.remove ⟨0, 4⟩),
        .prepend "<".toList, .append "!".toList] =
      [.overwrite ⟨1, 3⟩ "E".toList, .insert 1 "1".toList,
        .overwrite ⟨0, 1⟩ "A".toList, .insert 1 "2".toList] ∧
    ∃ r, ((ofText "aéc".toList).performAll
        [.splice (.overwrite ⟨1, 3⟩ "E".toList), .splice (.insert 1 "1".toList),
          .prepend ">".toList, .splice (.overwrite ⟨0, 1⟩ "A".toList),
          .splice (.insert 1 "2".toList), .splice (.remove ⟨0, 4⟩),
          .prepend "<".toList, .append "!".toList]).render? = some r ∧
      r.code = "<>A12Ec!".toList := by
  refine ⟨rfl, ?_⟩
  obtain ⟨r, hr, hcode, -⟩ :=
    performAll_code "aéc".toList
      [.splice (.overwrite ⟨1, 3⟩ "E".toList), .splice (.insert 1 "1".toList),
        .prepend ">".toList, .splice (.overwrite ⟨0, 1⟩ "A".toList),
        .splice (.insert 1 "2".toList), .splice (.remove ⟨0, 4⟩),
        .prepend "<".toList, .append "!".toList]
  exact ⟨r, hr, hcode⟩

end Draft

end TemplateJsx
