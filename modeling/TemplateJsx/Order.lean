/-!
# Sorting by insertion

A list is sorted by putting its values one after the other in front of the first
that they do not come after.  Values that tie keep their order, and no value is
lost or doubled (`sortBy_perm`).
-/

namespace TemplateJsx

variable {α : Type}

/-- Puts a value in front of the first one that it does not come after. -/
def insertBy (atMost : α → α → Bool) (a : α) : List α → List α
  | [] => [a]
  | b :: rest =>
    if atMost a b then a :: b :: rest else b :: insertBy atMost a rest

/-- A list in ascending order.  Values that tie keep their order. -/
def sortBy (atMost : α → α → Bool) (values : List α) : List α :=
  values.foldr (insertBy atMost) []

theorem insertBy_perm (atMost : α → α → Bool) (a : α) (values : List α) :
    (insertBy atMost a values).Perm (a :: values) := by
  induction values with
  | nil => exact .refl _
  | cons b rest ih =>
    simp only [insertBy]
    split
    · exact .refl _
    · exact (ih.cons b).trans (.swap a b rest)

/-- Sorting keeps all values. -/
theorem sortBy_perm (atMost : α → α → Bool) (values : List α) :
    (sortBy atMost values).Perm values := by
  induction values with
  | nil => exact .refl _
  | cons a rest ih => exact (insertBy_perm atMost a _).trans (ih.cons a)

end TemplateJsx
