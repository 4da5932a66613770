import TemplateJsx.Proofs.Draft.Exactness
import TemplateJsx.Proofs.SourceMap.Decoding

/-!
# The mappings of a draft ascend

A mapped item has some text, so the next mapping begins at a later position of
the code (`itemMappings_generated`).  Items come out in the order of the offsets
that they stand for (`items_ascend`), and positions grow with offsets
(`Text.position?_atMost`), so in the template no mapping goes back
(`itemMappings_source`).  Hence the written form of the mappings loses nothing
(`performAll_ascend`).
-/

namespace TemplateJsx

/-- Mappings that go on in the code with every step, never go back in the
template, and lead to places between characters of it.  A reader of a source map
takes this for granted, since the written form records differences. -/
structure Mapping.Ascend (t : Text) (mappings : List Mapping) : Prop where
  generated : mappings.Pairwise fun m n => m.generated.Before n.generated
  source : mappings.Pairwise fun m n => m.source.atMost n.source = true
  places : ∀ m ∈ mappings, ∃ offset, t.isBoundary offset = true ∧
    t.position? offset = some m.source

/-! ## In the code -/

theorem Item.text_ne_nil {i : Item} (h : i.isMapped = true) : i.text ≠ [] := by
  cases i with
  | kept offset c => simp [Item.text]
  | brought s => simpa [Item.isMapped, Item.text] using h

/-- The mapping of an item begins where the item begins and leads to its
origin. -/
theorem Item.mem_mappings {t : Text} {p : Position} {i : Item} {m : Mapping}
    (h : m ∈ i.mappings t p) :
    i.isMapped = true ∧ m.generated = p ∧ t.position? i.origin =
      some m.source := by
  unfold Item.mappings at h
  split at h
  · rename_i hmapped
    obtain ⟨q, hq, rfl⟩ := List.mem_map.1 h
    exact ⟨hmapped, rfl, by simpa using hq⟩
  · simp at h

theorem Item.mappings_pairwise (R : Mapping → Mapping → Prop) (t : Text)
    (p : Position) (i : Item) :
    (i.mappings t p).Pairwise R := by
  unfold Item.mappings
  split
  · cases t.position? i.origin <;> simp
  · simp

/-- Every mapping begins at a later position of the code than the one before it,
since an item with a mapping has some text. -/
theorem itemMappings_generated (t : Text) (p : Position) (is : List Item) :
    (itemMappings t p is).Pairwise fun m n =>
      m.generated.Before n.generated := by
  induction is generalizing p with
  | nil => simp [itemMappings]
  | cons i is ih =>
      refine List.pairwise_append.2 ⟨Item.mappings_pairwise _ t p i, ih _, ?_⟩
      intro m hm n hn
      obtain ⟨hmapped, hstart, -⟩ := Item.mem_mappings hm
      have hstop := Position.after_atMost (Item.text_ne_nil hmapped) p
      rw [hstart, Position.before_iff]
      cases hback : n.generated.atMost p with
      | false => rfl
      | true =>
          have hpast :=
            Position.atMost_trans (atMost_of_mem_itemMappings hn) hback
          rw [hstop] at hpast
          exact absurd hpast (by simp)

/-! ## In the template -/

/-- No item stands for an offset before the first one. -/
theorem le_origin_of_mem_items {splices : List Splice} {offset : Nat} {w : Text}
    {i : Item} (h : i ∈ items splices offset w) : offset ≤ i.origin := by
  cases i with
  | kept o c =>
      obtain ⟨⟨u, v, -, ho⟩, -⟩ := kept_mem_items.1 h
      simp only [Item.origin]
      omega
  | brought s =>
      obtain ⟨-, u, v, -, hs⟩ := brought_mem_items.1 h
      simp only [Item.origin]
      omega

/-- Items come out in the order of the offsets that they stand for.  At one
offset insertions come before a range, and both before the character. -/
theorem items_ascend (splices : List Splice) (offset : Nat) (w : Text) :
    (items splices offset w).Pairwise fun i j => i.origin ≤ j.origin := by
  have hbrought : ∀ n, ∀ i ∈ (broughtAt splices n).map Item.brought,
      i.origin = n := by
    intro n i hi
    obtain ⟨s, hs, rfl⟩ := List.mem_map.1 hi
    exact (mem_broughtAt.1 hs).2
  -- What comes out at one offset stands for that offset.
  have hhere : ∀ (is : List Item) (n : Nat), (∀ i ∈ is, i.origin = n) →
      is.Pairwise fun i j => i.origin ≤ j.origin := by
    intro is n h
    exact List.Pairwise.imp_of_mem (fun hi hj _ =>
        Nat.le_of_eq ((h _ hi).trans (h _ hj).symm))
      (List.pairwise_of_forall (R := fun _ _ => True) fun _ _ => trivial)
  induction w generalizing offset with
  | nil => exact hhere _ offset (hbrought offset)
  | cons c w ih =>
      have hfirst : ∀ i ∈ (broughtAt splices offset).map Item.brought ++
          (if covered splices offset then [] else [.kept offset c]),
            i.origin = offset := by
        intro i hi
        rcases List.mem_append.1 hi with hi | hi
        · exact hbrought offset i hi
        · split at hi
          · simp at hi
          · rw [List.mem_singleton.1 hi]
            rfl
      refine List.pairwise_append.2 ⟨hhere _ offset hfirst, ih _, ?_⟩
      intro i hi j hj
      rw [hfirst i hi]
      exact Nat.le_trans (Nat.le_add_right _ _) (le_origin_of_mem_items hj)

/-- Every mapping leads to the origin of an item. -/
theorem exists_item_of_mem_itemMappings {t : Text} {p : Position}
    {is : List Item} {m : Mapping} (h : m ∈ itemMappings t p is) :
    ∃ i ∈ is, t.position? i.origin = some m.source := by
  induction is generalizing p with
  | nil => simp [itemMappings] at h
  | cons i is ih =>
      rcases List.mem_append.1 h with h | h
      · exact ⟨i, List.mem_cons_self, (Item.mem_mappings h).2.2⟩
      · obtain ⟨j, hj, hsource⟩ := ih h
        exact ⟨j, List.mem_cons_of_mem i hj, hsource⟩

/-- In the template the mappings of items in order never go back. -/
theorem itemMappings_source (t : Text) (p : Position) {is : List Item}
    (h : is.Pairwise fun i j => i.origin ≤ j.origin) :
    (itemMappings t p is).Pairwise fun m n =>
      m.source.atMost n.source = true := by
  induction is generalizing p with
  | nil => simp [itemMappings]
  | cons i is ih =>
      obtain ⟨hfirst, hrest⟩ := List.pairwise_cons.1 h
      refine List.pairwise_append.2
        ⟨Item.mappings_pairwise _ t p i, ih _ hrest, ?_⟩
      intro m hm n hn
      obtain ⟨-, -, hsource⟩ := Item.mem_mappings hm
      obtain ⟨j, hj, hsource'⟩ := exists_item_of_mem_itemMappings hn
      exact Text.position?_atMost hsource hsource' (hfirst j hj)

theorem isBoundary_of_mem_items {splices : List Splice} {t : Text} {i : Item}
    (h : i ∈ items splices 0 t) :
    t.isBoundary i.origin = true := by
  have hcut : ∃ u v, t = u ++ v ∧ i.origin = 0 + Text.byteLength u := by
    cases i with
    | kept o c =>
        obtain ⟨⟨u, v, ht, ho⟩, -⟩ := kept_mem_items.1 h
        exact ⟨u, c :: v, ht, ho⟩
    | brought s => exact (brought_mem_items.1 h).2
  obtain ⟨u, v, ht, ho⟩ := hcut
  exact Text.isBoundary_iff.2 ⟨u, v, ht, by omega, by simp⟩

namespace Draft

theorem Sound.ascend {d : Draft} (h : d.Sound) {r : Rendered}
    (hr : d.render? = some r) :
    Mapping.Ascend d.text r.mappings := by
  obtain rfl := Option.some.inj (h.render?.symm.trans hr)
  refine ⟨itemMappings_generated _ _ _,
    itemMappings_source _ _ (items_ascend _ _ _), ?_⟩
  intro m hm
  obtain ⟨i, hi, hsource⟩ := exists_item_of_mem_itemMappings hm
  exact ⟨i.origin, isBoundary_of_mem_items hi, hsource⟩

/-- **Whatever is done to a draft, its mappings ascend, and their written form
is read back to just these mappings.**  So a source map can be written with
nothing but differences, and no reader meets a segment that goes back. -/
theorem performAll_ascend (text : Text) (edits : List Edit) :
    ∃ r, ((ofText text).performAll edits).render? = some r ∧
      Mapping.Ascend text r.mappings ∧
      Vlq.decodeMappings (Vlq.encodeMappings r.mappings) = some r.mappings := by
  obtain ⟨hsound, htext⟩ := performAll_sound (sound_ofText text) edits
  obtain ⟨r, hr, -⟩ := hsound.exact
  have hascend : Mapping.Ascend text r.mappings := by
    have h := hsound.ascend hr
    rwa [htext] at h
  refine ⟨r, hr, hascend, Vlq.decodeMappings_encodeMappings ?_⟩
  refine hascend.generated.imp ?_
  intro m n hmn
  unfold Position.Before at hmn
  omega

end Draft

end TemplateJsx
