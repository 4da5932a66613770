import TemplateJsx.Proofs.Draft.Items
import TemplateJsx.Proofs.Text.Positions

/-!
# The map of a draft is exact

A lookup finds the last mapping at or before a position.  The items of a draft
follow each other in the code, so from where an item begins up to its end the
last mapping is its own (`lookup_item`).  From this follows what the map of a
draft answers, whatever was done to the draft (`Exact`).
-/

namespace TemplateJsx

/-! ## Lookups -/

/-- The last mapping at or before a position is the one that counts, as it is
for a debugger that asks where a position of the code comes from. -/
theorem Mapping.lookup_append_cons {before after : List Mapping} {m : Mapping}
    {q : Position} (hm : m.generated.atMost q = true)
    (hafter : ∀ n ∈ after, n.generated.atMost q = false) :
    Mapping.lookup (before ++ m :: after) q = some m.source := by
  have hnone : after.filter (fun n => n.generated.atMost q) = [] := by
    rw [List.filter_eq_nil_iff]
    intro n hn
    simp [hafter n hn]
  simp [Mapping.lookup, hm, hnone]

theorem Mapping.lookup_eq_none {mappings : List Mapping} {q : Position}
    (h : ∀ n ∈ mappings, n.generated.atMost q = false) :
    Mapping.lookup mappings q = none := by
  have hnone : mappings.filter (fun n => n.generated.atMost q) = [] := by
    rw [List.filter_eq_nil_iff]
    intro n hn
    simp [h n hn]
  simp [Mapping.lookup, hnone]

theorem atMost_of_mem_itemMappings {t : Text} {p : Position} {is : List Item}
    {m : Mapping} (h : m ∈ itemMappings t p is) :
    p.atMost m.generated = true := by
  induction is generalizing p with
  | nil => simp [itemMappings] at h
  | cons i is ih =>
      rcases List.mem_append.1 h with h | h
      · have hm : m.generated = p := by
          unfold Item.mappings at h
          split at h
          · obtain ⟨q, -, rfl⟩ := List.mem_map.1 h
            rfl
          · simp at h
        rw [hm]
        exact Position.atMost_refl p
      · exact Position.atMost_trans (Position.atMost_after p i.text) (ih h)

/-- From where an item begins up to its end its own mapping counts.  Mappings of
later items begin at its end or after it, and those of earlier ones are not the
last. -/
theorem lookup_item {t : Text} {p q o : Position} {is before after : List Item}
    {i : Item} (his : is = before ++ i :: after) (hi : i.isMapped = true)
    (ho : t.position? i.origin = some o)
    (hstart : (p.after (itemText before)).atMost q = true)
    (hstop : ((p.after (itemText before)).after i.text).atMost q = false) :
    Mapping.lookup (itemMappings t p is) q = some o := by
  have hown : i.mappings t (p.after (itemText before)) =
      [⟨p.after (itemText before), o⟩] := by
    simp [Item.mappings, hi, ho]
  rw [his, itemMappings_append, itemMappings, hown, List.singleton_append]
  refine Mapping.lookup_append_cons hstart fun n hn => ?_
  cases hq : n.generated.atMost q with
  | false => rfl
  | true =>
      have := Position.atMost_trans (atMost_of_mem_itemMappings hn) hq
      rw [hstop] at this
      exact absurd this (by simp)

/-! ## Which items there are -/

/-- Just the characters that no range covers are kept. -/
theorem kept_mem_items {splices : List Splice} {offset o : Nat} {c : Char}
    {w : Text} :
    .kept o c ∈ items splices offset w ↔
      (∃ u v, w = u ++ c :: v ∧ o = offset + Text.byteLength u) ∧
      covered splices o = false := by
  induction w generalizing offset with
  | nil => simp [items]
  | cons x w ih =>
      have hhere : .kept o c ∈ (if covered splices offset then []
          else [Item.kept offset x]) ↔
          (o = offset ∧ c = x) ∧ covered splices o = false := by
        by_cases ho : o = offset
        · subst ho
          cases covered splices o <;> simp
        · cases covered splices offset <;> simp [ho]
      have hbrought : Item.kept o c ∉ (broughtAt splices offset).map
          Item.brought := by
        simp
      simp only [items, List.mem_append, hbrought, hhere, ih,
        false_or, ← or_and_right]
      refine and_congr_left fun _ => ⟨?_, ?_⟩
      · rintro (⟨rfl, rfl⟩ | ⟨u, v, rfl, rfl⟩)
        · exact ⟨[], w, rfl, rfl⟩
        · exact ⟨x :: u, v, rfl, by simp [Nat.add_assoc]⟩
      · rintro ⟨u, v, hw, rfl⟩
        cases u with
        | nil =>
            obtain ⟨rfl, rfl⟩ := List.cons.inj hw
            exact Or.inl ⟨rfl, rfl⟩
        | cons y u =>
            obtain ⟨rfl, rfl⟩ := List.cons.inj hw
            exact Or.inr ⟨u, v, rfl, by simp [Nat.add_assoc]⟩

theorem mem_broughtAt {splices : List Splice} {offset : Nat} {s : Splice} :
    s ∈ broughtAt splices offset ↔ s ∈ splices ∧ s.span.start = offset := by
  simp only [broughtAt, List.mem_append, List.mem_filter,
    Bool.and_eq_true, beq_iff_eq]
  cases s.isInsert <;> simp

/-- Just the splices that start in the text are brought in. -/
theorem brought_mem_items {splices : List Splice} {offset : Nat} {s : Splice}
    {w : Text} :
    .brought s ∈ items splices offset w ↔
      s ∈ splices ∧ ∃ u v, w = u ++ v ∧
      s.span.start = offset + Text.byteLength u := by
  induction w generalizing offset with
  | nil => simp [items, mem_broughtAt]
  | cons x w ih =>
      have hkept : Item.brought s ∉ (if covered splices offset then []
          else [Item.kept offset x]) := by
        split <;> simp
      have hhere : Item.brought s ∈ (broughtAt splices offset).map
          Item.brought ↔
          s ∈ splices ∧ s.span.start = offset := by
        simp [mem_broughtAt]
      simp only [items, List.mem_append, hkept, hhere, ih,
        or_false, ← and_or_left]
      refine and_congr_right fun _ => ⟨?_, ?_⟩
      · rintro (hstart | ⟨u, v, rfl, hstart⟩)
        · exact ⟨[], x :: w, rfl, hstart⟩
        · exact ⟨x :: u, v, rfl, by simp [hstart, Nat.add_assoc]⟩
      · rintro ⟨u, v, hw, hstart⟩
        cases u with
        | nil => exact Or.inl hstart
        | cons y u =>
            obtain ⟨rfl, rfl⟩ := List.cons.inj hw
            exact Or.inr ⟨u, v, rfl, by simp [hstart, Nat.add_assoc]⟩

namespace Draft

def items (d : Draft) : List Item := TemplateJsx.items d.splices 0 d.text

/-- What an exact rendering of a draft is.  Every character that is kept, line
feeds apart, is led back to itself, every character that a splice brings in to
where the splice starts, and the text in front to nowhere. -/
structure Exact (d : Draft) (r : Rendered) : Prop where
  /-- The code consists of the items with the texts around them. -/
  code : r.code = d.intro ++ itemText d.items ++ d.outro
  /-- The characters that are kept are those that no range covers. -/
  keeps : ∀ o c, .kept o c ∈ d.items ↔
    d.text.Stands o [c] (o + c.utf8Size) ∧ covered d.splices o = false
  /-- All splices are brought in. -/
  brings : ∀ s, .brought s ∈ d.items ↔ s ∈ d.splices
  /-- The position of a kept character leads back to where it stood. -/
  kept : ∀ before o c after, d.items = before ++ .kept o c :: after → c ≠ '\n' →
    ∃ p q, r.code.position? (d.intro ++ itemText before).byteLength = some p ∧
      d.text.position? o = some q ∧ Mapping.lookup r.mappings p = some q
  /-- All positions of a text that a splice brought in lead back to the start of
  the splice. -/
  brought : ∀ before s after, d.items = before ++ .brought s :: after →
    s.text ≠ [] →
    ∃ p q, r.code.position? (d.intro ++ itemText before).byteLength = some p ∧
      d.text.position? s.span.start = some q ∧
      ∀ x, p.atMost x = true → (p.after s.text).atMost x = false →
      Mapping.lookup r.mappings x = some q
  /-- No position of the text in front leads anywhere. -/
  intro : ∀ x, (Position.origin.after d.intro).atMost x = false →
    Mapping.lookup r.mappings x = none

/-- The items that come first lead to a position of the code. -/
theorem position?_items {d : Draft} {code : Text}
    (hcode : code = d.intro ++ itemText d.items ++ d.outro)
    {before after : List Item} (h : d.items = before ++ after) :
    code.position? (d.intro ++ itemText before).byteLength =
      some ((Position.origin.after d.intro).after (itemText before)) := by
  have hsplit : code = (d.intro ++ itemText before) ++
      (itemText after ++ d.outro) := by
    rw [hcode, h]
    simp
  rw [hsplit, Text.position?_append, Position.after_append]

theorem Sound.exact {d : Draft} (h : d.Sound) :
    ∃ r, d.render? = some r ∧ d.Exact r := by
  have hbrought : ∀ s, .brought s ∈ d.items ↔ s ∈ d.splices := by
    intro s
    refine brought_mem_items.trans ⟨And.left, fun hs => ⟨hs, ?_⟩⟩
    obtain ⟨u, v, htext, hstart, -⟩ :=
      Text.isBoundary_iff.1 (h.fits s hs).cuts.2.1
    exact ⟨u, v, htext, by simp [hstart]⟩
  have hkept : ∀ o c, .kept o c ∈ d.items ↔
      d.text.Stands o [c] (o + c.utf8Size) ∧ covered d.splices o = false := by
    intro o c
    refine kept_mem_items.trans (and_congr_left fun _ => ⟨?_, ?_⟩)
    · rintro ⟨u, v, htext, rfl⟩
      exact ⟨u, v, htext, by simp, by simp⟩
    · rintro ⟨u, v, htext, rfl, -⟩
      exact ⟨u, v, htext, by simp⟩
  refine ⟨_, h.render?, rfl, hkept, hbrought, ?_, ?_, ?_⟩
  · intro before o c after hitems hc
    have hmem : .kept o c ∈ d.items := by simp [hitems]
    obtain ⟨q, hq, -⟩ := ((hkept o c).1 hmem).1.position?
    refine ⟨_, q, position?_items rfl hitems, hq, ?_⟩
    have hmapped : (Item.kept o c).isMapped = true := by
      simp [Item.isMapped, hc]
    exact lookup_item hitems hmapped hq (Position.atMost_refl _)
      (Position.after_atMost (by simp [Item.text]) _)
  · intro before s after hitems htext
    have hmem : .brought s ∈ d.items := by simp [hitems]
    have hfits := h.fits s ((hbrought s).1 hmem)
    obtain ⟨q, hq, -⟩ := (Text.isBoundary_iff.1 hfits.cuts.2.1).position?
    refine ⟨_, q, position?_items rfl hitems, hq, ?_⟩
    intro x hstart hstop
    have hmapped : (Item.brought s).isMapped = true := by
      simp [Item.isMapped, htext]
    exact lookup_item hitems hmapped hq hstart hstop
  · intro x hx
    have hnone : ∀ m ∈ itemMappings d.text (Position.origin.after d.intro)
        d.items, m.generated.atMost x = false := by
      intro m hm
      cases hback : m.generated.atMost x with
      | false => rfl
      | true =>
          have := Position.atMost_trans (atMost_of_mem_itemMappings hm) hback
          rw [hx] at this
          exact absurd this (by simp)
    exact Mapping.lookup_eq_none hnone

/-- **Whatever is done to a draft, its map is exact.**  Each position of the
code is led back to the character it was kept from, or to the start of the
splice that brought it in, and the characters that are kept are just those that
no range covers.  This is what a debugger sees of a template. -/
theorem performAll_exact (text : Text) (edits : List Edit) :
    ((ofText text).performAll edits).text = text ∧
      ∃ r, ((ofText text).performAll edits).render? = some r ∧
      ((ofText text).performAll edits).Exact r := by
  obtain ⟨hsound, htext⟩ := performAll_sound (sound_ofText text) edits
  exact ⟨htext, hsound.exact⟩

/-- A text of two lines with an insertion, a range that is refused since it
spans the insertion, one that takes the line feed, and a text in front. -/
theorem performAll_exact_refused :
    ∃ r, ((ofText "ab\ncd".toList).performAll
      [.splice (.insert 1 "x".toList), .splice (.remove ⟨0, 2⟩),
        .splice (.overwrite ⟨2, 4⟩ "yz".toList),
        .prepend "<>".toList]).render? = some r ∧
      r.code = "<>axbyzd".toList ∧
      Mapping.lookup r.mappings ⟨0, 4⟩ = some ⟨0, 1⟩ ∧
      (∀ k, 5 ≤ k → k < 7 → Mapping.lookup r.mappings ⟨0, k⟩ = some ⟨0, 2⟩) ∧
      Mapping.lookup r.mappings ⟨0, 7⟩ = some ⟨1, 1⟩ ∧
      Mapping.lookup r.mappings ⟨0, 1⟩ = none := by
  obtain ⟨-, r, hr, hexact⟩ :=
    performAll_exact "ab\ncd".toList
      [.splice (.insert 1 "x".toList), .splice (.remove ⟨0, 2⟩),
        .splice (.overwrite ⟨2, 4⟩ "yz".toList), .prepend "<>".toList]
  have hcode : r.code = "<>axbyzd".toList := hexact.code
  -- Where an item lies in the code and in the text is looked up in both.
  have hplace {p q : Position} (k : Nat) (hp : r.code.position? k = some p)
      (hq : Text.position? "<>axbyzd".toList k = some q) : p = q :=
    Option.some.inj (hp.symm.trans (hcode ▸ hq))
  have horigin {p q : Position} (k : Nat)
      (hp : Text.position? "ab\ncd".toList k = some p)
      (hq : Text.position? "ab\ncd".toList k = some q) : p = q :=
    Option.some.inj (hp.symm.trans hq)
  refine ⟨r, hr, hcode, ?_, ?_, ?_, hexact.intro ⟨0, 1⟩ (by decide)⟩
  · obtain ⟨p, q, hp, hq, hlookup⟩ := hexact.kept
      [.kept 0 'a', .brought (.insert 1 "x".toList)] 1 'b'
      [.brought (.overwrite ⟨2, 4⟩ "yz".toList), .kept 4 'd'] rfl (by decide)
    obtain rfl : p = ⟨0, 4⟩ := hplace _ hp (by decide +kernel)
    obtain rfl : q = ⟨0, 1⟩ := horigin _ hq (by decide +kernel)
    exact hlookup
  · obtain ⟨p, q, hp, hq, hlookup⟩ := hexact.brought
      [.kept 0 'a', .brought (.insert 1 "x".toList), .kept 1 'b']
      (.overwrite ⟨2, 4⟩ "yz".toList) [.kept 4 'd'] rfl (by decide)
    obtain rfl : p = ⟨0, 5⟩ := hplace _ hp (by decide +kernel)
    obtain rfl : q = ⟨0, 2⟩ := horigin _ hq (by decide +kernel)
    intro k hlow hhigh
    have hafter : Position.after ⟨0, 5⟩ "yz".toList = ⟨0, 7⟩ := by decide
    have hstop : (Position.after ⟨0, 5⟩ "yz".toList).atMost ⟨0, k⟩ =
        decide (7 ≤ k) := by
      rw [hafter]
      simp [Position.atMost]
    exact hlookup ⟨0, k⟩ (by simpa [Position.atMost] using hlow)
      (hstop.trans (by simpa using hhigh))
  · obtain ⟨p, q, hp, hq, hlookup⟩ := hexact.kept
      [.kept 0 'a', .brought (.insert 1 "x".toList), .kept 1 'b',
        .brought (.overwrite ⟨2, 4⟩ "yz".toList)] 4 'd' [] rfl (by decide)
    obtain rfl : p = ⟨0, 7⟩ := hplace _ hp (by decide +kernel)
    obtain rfl : q = ⟨1, 1⟩ := horigin _ hq (by decide +kernel)
    exact hlookup

end Draft

end TemplateJsx
