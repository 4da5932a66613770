import TemplateJsx.Proofs.Draft.Items

/-!
# Texts patched from left to right

`Patched t a S w b` reads the text `t` from the offset `a` to the offset `b` and
writes the code `w`: it copies what stands in the text or takes the next splice
of `S`.  Parts that meet are patched one after the other (`Patched.append`).  A
draft that has the splices of `S`, recorded in whatever order, is rendered to
the code (`Patched.render?`).
-/

namespace TemplateJsx

/-- Code that comes of a text between two offsets by copying it and taking
splices in order.  No two of them are insertions at one offset, and none is an
insertion at the end, so parts that meet can be put together. -/
inductive Patched (t : Text) : Nat → List Splice → Text → Nat → Prop
  | done {a : Nat} (h : t.Stands a [] a) : Patched t a [] [] a
  | copy {a m b : Nat} {splices : List Splice} {w v : Text} (h : t.Stands a w m)
      (rest : Patched t m splices v b) : Patched t a splices (w ++ v) b
  | range {a m b : Nat} {splices : List Splice} {v : Text} {s : Splice}
      (hrange : s.isInsert = false) (hspan : s.span = ⟨a, m⟩)
      (hcuts : t.Cuts ⟨a, m⟩) (hlt : a < m) (rest : Patched t m splices v b) :
      Patched t a (s :: splices) (s.text ++ v) b
  | insert {a b : Nat} {splices : List Splice} {v : Text} (text : Text)
      (hlt : a < b)
      (hfree : ∀ s ∈ splices, s.isInsert = true → a < s.span.start)
      (rest : Patched t a splices v b) :
      Patched t a (.insert a text :: splices) (text ++ v) b

namespace Patched

variable {t w v : Text} {a m b : Nat} {splices : List Splice}

theorem overwrite {u : Text} (h : t.Stands a u m) (hu : u ≠ []) (code : Text)
    (rest : Patched t m splices v b) :
    Patched t a (.overwrite ⟨a, m⟩ code :: splices) (code ++ v) b :=
  .range rfl rfl h.cuts (h.lt hu) rest

theorem remove {u : Text} (h : t.Stands a u m) (hu : u ≠ [])
    (rest : Patched t m splices v b) :
    Patched t a (.remove ⟨a, m⟩ :: splices) v b :=
  .range rfl rfl h.cuts (h.lt hu) rest

theorem insert_range {s : Splice} (hs : s.isInsert = false) (hlt : a < b)
    (text : Text) (rest : Patched t a [s] v b) :
    Patched t a [.insert a text, s] (text ++ v) b := by
  refine .insert text hlt (fun r hr hinsert => ?_) rest
  rw [List.mem_singleton.1 hr, hs] at hinsert
  exact absurd hinsert (by simp)

theorem bounds (h : Patched t a splices w b) :
    t.Cuts ⟨a, b⟩ ∧ ∀ s ∈ splices, s.Fits t ∧ a ≤ s.span.start ∧
      s.span.stop ≤ b := by
  induction h with
  | done h => exact ⟨h.cuts, by simp⟩
  | copy h rest ih =>
      refine ⟨h.cuts.trans ih.1, fun s hs => ?_⟩
      obtain ⟨hfits, hstart, hstop⟩ := ih.2 s hs
      exact ⟨hfits, Nat.le_trans h.le hstart, hstop⟩
  | range hrange hspan hcuts hlt rest ih =>
      refine ⟨hcuts.trans ih.1, fun s hs => ?_⟩
      rcases List.mem_cons.1 hs with rfl | hs
      · refine ⟨⟨by rwa [hspan], fun _ => by rwa [hspan]⟩, ?_, ?_⟩
        · simp only [hspan, Nat.le_refl]
        · rw [hspan]
          exact ih.1.1
      · obtain ⟨hfits, hstart, hstop⟩ := ih.2 s hs
        exact ⟨hfits, Nat.le_trans hcuts.1 hstart, hstop⟩
  | insert text hlt hfree rest ih =>
      refine ⟨ih.1, fun s hs => ?_⟩
      rcases List.mem_cons.1 hs with rfl | hs
      · refine ⟨⟨⟨Nat.le_refl _, ih.1.2.1, ih.1.2.1⟩,
          fun h => by simp [Splice.isInsert] at h⟩, ?_, ?_⟩
        · exact Nat.le_refl _
        · exact Nat.le_of_lt hlt
      · exact ih.2 s hs

/-- Parts that meet are patched one after the other.  This is what lets the
lowering of a block be put together from that of its tags and its bodies. -/
theorem append {splices' : List Splice} (h : Patched t a splices w m)
    (h' : Patched t m splices' v b) :
    Patched t a (splices ++ splices') (w ++ v) b := by
  induction h with
  | done h => exact h'
  | copy h rest ih =>
      rw [List.append_assoc]
      exact .copy h (ih h')
  | range hrange hspan hcuts hlt rest ih =>
      rw [List.append_assoc]
      exact .range hrange hspan hcuts hlt (ih h')
  | insert text hlt hfree rest ih =>
      rw [List.append_assoc]
      -- The insertion stands before the end of the first part, so before all
      -- insertions of the second.
      refine .insert text (Nat.lt_of_lt_of_le hlt h'.bounds.1.1) ?_ (ih h')
      intro s hs hinsert
      rcases List.mem_append.1 hs with hs | hs
      · exact hfree s hs hinsert
      · exact Nat.lt_of_lt_of_le hlt (h'.bounds.2 s hs).2.1

/-- Each splice comes strictly before the next. -/
theorem ascending (h : Patched t a splices w b) :
    splices.Pairwise fun x y =>
      x.span.stop ≤ y.span.start ∧ x.rank < y.rank := by
  induction h with
  | done h => exact .nil
  | copy h rest ih => exact ih
  | range hrange hspan hcuts hlt rest ih =>
      refine List.pairwise_cons.2 ⟨fun y hy => ?_, ih⟩
      have hstart := (rest.bounds.2 y hy).2.1
      rw [Splice.rank_of_range hrange, hspan]
      refine ⟨hstart, ?_⟩
      simp only [Splice.rank]
      omega
  | @insert a b splices v text hlt hfree rest ih =>
      refine List.pairwise_cons.2 ⟨fun y hy => ?_, ih⟩
      have hstart := (rest.bounds.2 y hy).2.1
      refine ⟨hstart, ?_⟩
      have hrank : (Splice.insert a text).rank = 2 * a := rfl
      cases hinsert : y.isInsert with
      | true =>
          have hlt := hfree y hy hinsert
          rw [hrank, Splice.rank_of_isInsert hinsert]
          omega
      | false =>
          rw [hrank, Splice.rank_of_range hinsert]
          omega

theorem itemText_items (h : Patched t a splices w b) (hend : b = t.byteLength)
    {u : Text} (hu : t.Stands a u t.byteLength) :
    itemText (items splices a u) = w := by
  induction h generalizing u with
  | done h =>
      subst hend
      rw [hu.eq_nil]
      rfl
  | copy h rest ih =>
      obtain ⟨u', hu'⟩ := h.right.between (Text.stands_self t).right h.stop_le
      rw [hu.unique (h.append hu'), items_append, ← h.stop_eq, itemText_append,
        Draft.itemText_keptFrom, ih hend hu']
      intro s hs
      rw [← h.stop_eq]
      exact (rest.bounds.2 s hs).2.1
  | @range a m b splices v s hrange hspan hcuts hlt rest ih =>
      have hfits : s.Fits t := ⟨by rwa [hspan], fun _ => by rwa [hspan]⟩
      have hrest : ∀ r ∈ splices, s.span.stop ≤ r.span.start := fun r hr => by
        rw [hspan]
        exact (rest.bounds.2 r hr).2.1
      obtain ⟨u', hu', hitems⟩ := Draft.items_cons hfits hrest (by rwa [hspan])
      rw [hspan] at hu' hitems
      rw [hitems, itemText_cons, ih hend hu']
      rfl
  | @insert a b splices v text hlt hfree rest ih =>
      have hitems : items (.insert a text :: splices) a u =
          .brought (.insert a text) :: items splices a u :=
        items_insert rfl u
      rw [hitems, itemText_cons, ih hend hu]
      rfl

end Patched

theorem Splice.conflictsWith_of_stop_le {x y : Splice}
    (h : x.span.stop ≤ y.span.start) (hx : x.span.start ≤ x.span.stop) :
    x.conflictsWith y = false := by
  unfold Splice.conflictsWith
  cases x.isInsert <;> cases y.isInsert <;>
    simp only [Bool.and_eq_false_iff, decide_eq_false_iff_not] <;> omega

namespace Patched

/-- A draft with splices that patch its whole text, in whatever order they were
recorded, is sound. -/
theorem sound {d : Draft} {splices : List Splice} {w : Text}
    (h : Patched d.text 0 splices w d.text.byteLength)
    (hperm : d.splices.Perm splices) : d.Sound := by
  refine ⟨fun s hs => (h.bounds.2 s (hperm.mem_iff.1 hs)).1, ?_⟩
  refine (hperm.pairwise_iff fun {x y}
    hxy => by rwa [Splice.conflictsWith_comm]).2 ?_
  refine h.ascending.imp_of_mem ?_
  intro x y hx _ hxy
  exact Splice.conflictsWith_of_stop_le hxy.1 (h.bounds.2 x hx).1.cuts.1

/-- Splices that patch a text come out in the order of the text, in whatever
order they were recorded. -/
theorem ordered_eq {t w : Text} {a b : Nat} {splices recorded : List Splice}
    (h : Patched t a splices w b) (hperm : recorded.Perm splices) :
    Splice.ordered recorded = splices :=
  sortBy_eq_of_perm Splice.atMost_total Splice.atMost_trans hperm
    (h.ascending.imp fun {x y} hxy => by
    rw [← Bool.not_eq_true, Splice.atMost_iff]
    omega)

/-- **A draft is rendered to what its splices patch its text to**, in whatever
order they were recorded.  A description of the code, part by part, thereby
becomes a statement on what is written. -/
theorem render? {d : Draft} {splices : List Splice} {w : Text}
    (h : Patched d.text 0 splices w d.text.byteLength)
    (hperm : d.splices.Perm splices) :
    ∃ mappings, d.render? = some ⟨d.intro ++ w ++ d.outro, mappings⟩ := by
  have hitems : itemText (items d.splices 0 d.text) = w := by
    rw [← items_ordered, h.ordered_eq hperm]
    exact h.itemText_items rfl (Text.stands_self d.text)
  have hrender := (h.sound hperm).render?
  rw [hitems] at hrender
  exact ⟨_, hrender⟩

end Patched

end TemplateJsx
