import TemplateJsx.Order

/-!
# Sorted and stable

Sorting by insertion puts a list into ascending order (`sortBy_pairwise`) and
lets values that tie stand in the order they had (`filter_sortBy`).  A list that
is in strictly ascending order is the only sorted form of its permutations
(`sortBy_eq_of_perm`).
-/

namespace TemplateJsx

variable {α : Type} {atMost : α → α → Bool}

theorem insertBy_pairwise
    (htotal : ∀ a b, atMost a b = false → atMost b a = true)
    (htrans : ∀ a b c, atMost a b = true → atMost b c = true →
      atMost a c = true)
    (a : α) {values : List α}
    (h : values.Pairwise fun x y => atMost x y = true) :
    (insertBy atMost a values).Pairwise fun x y => atMost x y = true := by
  induction values with
  | nil => simp [insertBy]
  | cons b rest ih =>
      obtain ⟨hb, hrest⟩ := List.pairwise_cons.1 h
      simp only [insertBy]
      split
      · rename_i hab
        refine List.pairwise_cons.2 ⟨?_, h⟩
        intro c hc
        rcases List.mem_cons.1 hc with rfl | hc
        · exact hab
        · exact htrans a b c hab (hb c hc)
      · rename_i hab
        refine List.pairwise_cons.2 ⟨?_, ih hrest⟩
        intro c hc
        rcases List.mem_cons.1 ((insertBy_perm atMost a rest).mem_iff.1 hc) with
          rfl | hc
        · exact htotal c b (by simpa using hab)
        · exact hb c hc

/-- A sorted list is in ascending order, for any comparison that is total and
transitive.  Ties are allowed, which is why this alone does not determine the
list. -/
theorem sortBy_pairwise (htotal : ∀ a b, atMost a b = false → atMost b a = true)
    (htrans : ∀ a b c, atMost a b = true → atMost b c = true →
      atMost a c = true)
    (values : List α) :
    (sortBy atMost values).Pairwise fun x y => atMost x y = true := by
  induction values with
  | nil => simp [sortBy]
  | cons a rest ih => exact insertBy_pairwise htotal htrans a ih

/-- Insertion goes past no value that it ties with. -/
theorem filter_insertBy {p : α → Bool}
    (hp : ∀ a b, p a = true → p b = true → atMost a b = true) (a : α)
    (values : List α) :
    (insertBy atMost a values).filter p = (a :: values).filter p := by
  induction values with
  | nil => rfl
  | cons b rest ih =>
      simp only [insertBy]
      split
      · rfl
      · rename_i hab
        have hnot : ¬(p a = true ∧ p b = true) := fun h => hab (hp a b h.1 h.2)
        rw [List.filter_cons, ih, List.filter_cons, List.filter_cons,
          List.filter_cons]
        split <;> split <;> simp_all

/-- Values that tie stand in the order they had.  Sorting is stable, and the
splices at one offset are written in the order in which they were asked for. -/
theorem filter_sortBy {p : α → Bool}
    (hp : ∀ a b, p a = true → p b = true → atMost a b = true)
    (values : List α) : (sortBy atMost values).filter p = values.filter p := by
  induction values with
  | nil => rfl
  | cons a rest ih =>
      have hstep : sortBy atMost (a :: rest) =
          insertBy atMost a (sortBy atMost rest) := rfl
      rw [hstep, filter_insertBy hp, List.filter_cons, List.filter_cons, ih]

/-- Of two values in a list either is first. -/
theorem pairwise_cases {r : α → α → Prop} {values : List α}
    (h : values.Pairwise r) {a b : α} (ha : a ∈ values) (hb : b ∈ values) :
    a = b ∨ r a b ∨ r b a := by
  induction values with
  | nil => simp at ha
  | cons c rest ih =>
      obtain ⟨hc, hrest⟩ := List.pairwise_cons.1 h
      rcases List.mem_cons.1 ha with rfl | ha' <;>
        rcases List.mem_cons.1 hb with rfl | hb'
      · exact Or.inl rfl
      · exact Or.inr (Or.inl (hc b hb'))
      · exact Or.inr (Or.inr (hc a ha'))
      · exact ih hrest ha' hb'

/-- A list in strictly ascending order is what its permutations are sorted to.
Where no two values tie, the order in which they were collected does not
matter. -/
theorem sortBy_eq_of_perm
    (htotal : ∀ a b, atMost a b = false → atMost b a = true)
    (htrans : ∀ a b c, atMost a b = true → atMost b c = true →
      atMost a c = true)
    {values sorted : List α} (hperm : values.Perm sorted)
    (h : sorted.Pairwise fun x y => atMost y x = false) :
    sortBy atMost values = sorted := by
  have hmem : ∀ {a}, a ∈ sortBy atMost values → a ∈ sorted := fun ha =>
    hperm.mem_iff.1 ((sortBy_perm atMost values).mem_iff.1 ha)
  refine List.Perm.eq_of_pairwise ?_ (sortBy_pairwise htotal htrans values)
    (h.imp fun {a b} hab => htotal b a hab)
    ((sortBy_perm atMost values).trans hperm)
  intro a b ha hb hab hba
  rcases pairwise_cases h (hmem ha) hb with heq | hlt | hlt
  · exact heq
  · simp [hba] at hlt
  · simp [hab] at hlt

end TemplateJsx
