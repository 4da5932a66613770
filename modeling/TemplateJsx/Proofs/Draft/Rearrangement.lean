import TemplateJsx.Proofs.Draft.Items

/-!
# The order of recording

Splices that are all taken in one order are all taken in any other, since
whether two of them conflict does not depend on which comes first.  The draft is
rendered to the same code and the same mappings, as long as the insertions at
each offset keep their order: ranges never tie, and nothing else is told apart
by the order of the calls (`Sound.render?_perm`).
-/

namespace TemplateJsx

/-- What comes out depends on the splices only by what starts at each offset and
by what is covered.  Any two drafts that agree in this are rendered alike. -/
theorem items_congr {splices splices' : List Splice}
    (hbrought : ∀ offset, broughtAt splices offset = broughtAt splices' offset)
    (hcovered : ∀ offset, covered splices offset = covered splices' offset)
    (offset : Nat) (w : Text) :
    items splices offset w = items splices' offset w := by
  induction w generalizing offset with
  | nil => simp only [items, hbrought]
  | cons c w ih => simp only [items, hbrought, hcovered, ih]

/-- The same splices in another order, in which the insertions at each offset
stand as before.  Their order is the one thing about the order of recording that
can be seen in the code. -/
structure Rearranged (splices splices' : List Splice) : Prop where
  perm : splices.Perm splices'
  insertions : ∀ offset, splices.filter (·.isInsertAt offset) =
    splices'.filter (·.isInsertAt offset)

namespace Draft

variable {d d' : Draft} {splices splices' : List Splice}

theorem Sound.perm (h : d.Sound) (htext : d'.text = d.text)
    (hperm : d.splices.Perm d'.splices) : d'.Sound := by
  refine ⟨fun s hs => ?_, ?_⟩
  · rw [htext]
    exact h.fits s (hperm.mem_iff.2 hs)
  · exact (hperm.pairwise_iff fun {a b}
      hab => by rwa [Splice.conflictsWith_comm]).1 h.apart

theorem Sound.rangesAt_perm (h : d.Sound) (hperm : d.splices.Perm d'.splices)
    (offset : Nat) :
    d.splices.filter (·.isRangeAt offset) =
      d'.splices.filter (·.isRangeAt offset) := by
  have hfilter := hperm.filter (·.isRangeAt offset)
  rw [h.rangesAt] at hfilter ⊢
  cases hrange : d.splices.find? (·.isRangeAt offset) with
  | none =>
      rw [hrange] at hfilter
      exact hfilter.symm.eq_nil.symm
  | some s =>
      rw [hrange] at hfilter
      exact (List.perm_singleton.1 hfilter.symm).symm

/-- **A sound draft is rendered alike** when its splices are rearranged: ranges
have no order at an offset, and insertions keep theirs. -/
theorem Sound.render?_perm (h : d.Sound) (htext : d'.text = d.text)
    (hintro : d'.intro = d.intro) (houtro : d'.outro = d.outro)
    (hrearranged : Rearranged d.splices d'.splices) :
    d'.render? = d.render? := by
  have hitems : ∀ offset w, TemplateJsx.items d'.splices offset w =
      TemplateJsx.items d.splices offset w := by
    refine items_congr (fun offset => ?_) (fun offset =>
      hrearranged.perm.symm.any_eq)
    rw [broughtAt_eq, broughtAt_eq, hrearranged.insertions,
      h.rangesAt_perm hrearranged.perm]
  rw [(h.perm htext hrearranged.perm).render?, h.render?, hitems, htext,
    hintro, houtro]

/-- Records one splice after another, up to the first that is refused. -/
def recordAll (d : Draft) (splices : List Splice) : Except SpliceFault Draft :=
  splices.foldlM record d

/-- Splices are all taken when they make a sound draft together with those
before them. -/
theorem Sound.recordAll_eq_ok (h : d.Sound) :
    d.recordAll splices = .ok d' ↔
      d' = { d with splices := d.splices ++ splices } ∧ d'.Sound := by
  induction splices generalizing d with
  | nil =>
      have hnil : d.recordAll [] = .ok d := rfl
      rw [hnil, List.append_nil, Except.ok.injEq]
      exact ⟨fun heq => ⟨heq.symm, heq ▸ h⟩, fun hand => hand.1.symm⟩
  | cons s splices ih =>
      have hstep : d.recordAll (s :: splices) = d.record s >>= fun d =>
          d.recordAll splices := rfl
      have hsplices : d.splices ++ s :: splices =
          d.splices ++ [s] ++ splices := by
        simp
      rw [hstep]
      cases hrecord : d.record s with
      | ok next =>
          obtain ⟨-, -, hnext⟩ := record_eq_ok.1 hrecord
          have hrest := ih (h.record hrecord)
          rw [hnext] at hrest ⊢
          rw [hsplices]
          exact hrest
      | error fault =>
          -- Were the whole draft sound, the splice would have been taken.
          refine ⟨fun hok => (by cases hok), ?_⟩
          rintro ⟨rfl, hsound⟩
          rw [hsound.record_next] at hrecord
          cases hrecord

/-- **The order of recording does not matter.**  Splices that are all taken in
one order are all taken when they are rearranged, and the draft is rendered to
the same code and the same mappings.  So a walk over a tree may record the tags
of a block before or after those of the blocks inside. -/
theorem recordAll_rearranged {text : Text}
    (h : (ofText text).recordAll splices = .ok d)
    (hrearranged : Rearranged splices splices') :
    ∃ d' r, (ofText text).recordAll splices' = .ok d' ∧ d.render? = some r ∧
      d'.render? = some r := by
  obtain ⟨rfl, hsound⟩ := (sound_ofText text).recordAll_eq_ok.1 h
  have hsound' : Sound ⟨text, splices', [], []⟩ :=
    hsound.perm rfl hrearranged.perm
  have hrender : render? ⟨text, splices', [], []⟩ = _ :=
    hsound.render?_perm rfl rfl rfl hrearranged
  exact ⟨_, _, (sound_ofText text).recordAll_eq_ok.2 ⟨rfl, hsound'⟩,
    hsound.render?, hrender.trans hsound.render?⟩

/-- Two insertions at one offset with a range on either side, the ranges
recorded last or between. -/
theorem recordAll_rearranged_meeting :
    ∃ d d' r, (ofText "aé\nc".toList).recordAll
      [.insert 3 "1".toList, .insert 3 "2".toList,
        .overwrite ⟨1, 3⟩ "x\ny".toList, .remove ⟨3, 4⟩] = .ok d ∧
      (ofText "aé\nc".toList).recordAll [.remove ⟨3, 4⟩, .insert 3 "1".toList,
        .overwrite ⟨1, 3⟩ "x\ny".toList, .insert 3 "2".toList] = .ok d' ∧
      d.render? = some r ∧ d'.render? = some r ∧
      r.code = "ax\ny12c".toList := by
  have hd : (ofText "aé\nc".toList).recordAll
      [.insert 3 "1".toList, .insert 3 "2".toList,
        .overwrite ⟨1, 3⟩ "x\ny".toList, .remove ⟨3, 4⟩] =
      .ok ⟨"aé\nc".toList, [.insert 3 "1".toList, .insert 3 "2".toList,
          .overwrite ⟨1, 3⟩ "x\ny".toList, .remove ⟨3, 4⟩], [], []⟩ := rfl
  have hrearranged : Rearranged
      [.insert 3 "1".toList, .insert 3 "2".toList,
        .overwrite ⟨1, 3⟩ "x\ny".toList, .remove ⟨3, 4⟩]
      [.remove ⟨3, 4⟩, .insert 3 "1".toList, .overwrite ⟨1, 3⟩ "x\ny".toList,
        .insert 3 "2".toList] := by
    refine ⟨by decide, fun offset => ?_⟩
    by_cases hoffset : 3 = offset
    · subst hoffset
      rfl
    · simp [Splice.isInsertAt, Splice.isInsert, Splice.span,
        Span.point, hoffset]
  obtain ⟨d', r, hd', hr, hr'⟩ := recordAll_rearranged hd hrearranged
  have hcode :
      (render? ⟨"aé\nc".toList, [.insert 3 "1".toList, .insert 3 "2".toList,
            .overwrite ⟨1, 3⟩ "x\ny".toList, .remove ⟨3, 4⟩], [], []⟩).map
        Rendered.code =
        some "ax\ny12c".toList := by decide +kernel
  rw [hr] at hcode
  exact ⟨_, d', r, hd, hd', hr, hr', Option.some.inj hcode⟩

end Draft

end TemplateJsx
