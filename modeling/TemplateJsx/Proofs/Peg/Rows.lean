import TemplateJsx.Proofs.Peg.Reading

/-!
# Which rules stand inside which

The captures inside a match of a rule follow its pattern: a rule that the
pattern calls leaves one, an optional part leaves some or none, a repetition any
number.  `Pattern.rows` lists the rows of captures that a pattern may leave, an
optional part giving rise to two of them.

A capture is `Shaped` by a table of rows when its inner captures fill one of the
rows of its rule, at every depth.  A table that has all rows of a grammar shapes
all captures of its matches (`Grammar.recognise_shaped`).
-/

namespace TemplateJsx.Peg

variable {R : Type}

/-- A place in a row of captures: one capture of a given rule, or any number of
captures of some rules. -/
inductive Slot (R : Type) where
  /-- One capture of a rule. -/
  | one (r : R)
  /-- Any number of captures of these rules. -/
  | any (options : List R)
  deriving DecidableEq, Repr

/-- The rules fill the places of a row from the first to the last. -/
def Fills : List (Slot R) → List R → Prop
  | [], rs => rs = []
  | .one r :: row, rs => ∃ rest, rs = r :: rest ∧ Fills row rest
  | .any options :: row, rs =>
    ∃ first rest, rs = first ++ rest ∧ (∀ r ∈ first, r ∈ options) ∧
      Fills row rest

/-- Rules that fill two rows fill the row of both. -/
theorem Fills.append {row row' : List (Slot R)} {rs rs' : List R}
    (h : Fills row rs) (h' : Fills row' rs') :
    Fills (row ++ row') (rs ++ rs') := by
  induction row generalizing rs with
  | nil =>
      obtain rfl : rs = [] := h
      exact h'
  | cons slot row ih =>
      cases slot with
      | one r =>
          obtain ⟨rest, rfl, hrest⟩ := h
          exact ⟨rest ++ rs', rfl, ih hrest⟩
      | any options =>
          obtain ⟨first, rest, rfl, hfirst, hrest⟩ := h
          exact ⟨first, rest ++ rs', List.append_assoc _ _ _, hfirst, ih hrest⟩

/-! ## The rows of a pattern -/

namespace Pattern

variable (g : Grammar R)

/-- The rules that may leave a capture when the pattern matches. -/
def names : Pattern R → List R
  | sequence first next => first.names ++ next.names
  | choice first other => first.names ++ other.names
  | many item => item.names
  | optional item => item.names
  | push item => item.names
  | rule name => if g.isNamed name then [name] else []
  | _ => []

/-- The rows of captures that the pattern may leave, one for each way through
its choices.  They are a finite table, which can be compared with the shapes
that a builder of trees expects. -/
def rows : Pattern R → List (List (Slot R))
  | sequence first next =>
    first.rows.flatMap fun row => next.rows.map (row ++ ·)
  | choice first other => first.rows ++ other.rows
  | many item => [if (item.names g).isEmpty then [] else [.any (item.names g)]]
  | optional item => item.rows ++ [[]]
  | push item => item.rows
  | rule name => [if g.isNamed name then [.one name] else []]
  | _ => [[]]

end Pattern

/-- A named rule leaves one capture, a rule that is not named none.  This is the
reading of a grammar in which only the rules of captures are of interest. -/
def Grammar.Leaves (g : Grammar R) (r : R) (_ _ : Nat) (rs : List R) : Prop :=
  rs = if g.isNamed r then [r] else []

section Patterns

variable {g : Grammar R} {t : Text} {s e : Nat} {rs : List R}

theorem Pattern.Reads.mem_names {p : Pattern R}
    (h : p.Reads t g.Leaves s e rs) : ∀ r ∈ rs, r ∈ p.names g := by
  induction p generalizing s e rs with
  | sequence first next ihFirst ihNext =>
      obtain ⟨m, qs, ps, hfirst, hnext, rfl⟩ := h
      intro r hr
      rcases List.mem_append.1 hr with hr | hr
      · exact List.mem_append_left _ (ihFirst hfirst r hr)
      · exact List.mem_append_right _ (ihNext hnext r hr)
  | choice first other ihFirst ihOther =>
      intro r hr
      rcases h with h | h
      · exact List.mem_append_left _ (ihFirst h r hr)
      · exact List.mem_append_right _ (ihOther h r hr)
  | many item ih => exact Rounds.forall_mem (fun _ _ _ hitem => ih hitem) h
  | optional item ih =>
      rcases h with h | ⟨-, rfl⟩
      · exact ih h
      · simp
  | push item ih => exact ih h
  | rule name =>
      obtain rfl : rs = if g.isNamed name then [name] else [] := h
      exact fun r hr => hr
  | atStart =>
      obtain ⟨-, -, rfl⟩ := h
      simp
  | atEnd =>
      obtain ⟨-, -, rfl⟩ := h
      simp
  | _ =>
      obtain ⟨-, rfl⟩ := h
      simp

/-- **What a pattern leaves behind fills one of its rows.**  By induction on the
pattern: a sequence appends rows, a choice has the rows of both, and a
repetition one place for all that its item may leave. -/
theorem Pattern.Reads.fills {p : Pattern R} (h : p.Reads t g.Leaves s e rs) :
    ∃ row ∈ p.rows g, Fills row rs := by
  induction p generalizing s e rs with
  | sequence first next ihFirst ihNext =>
      obtain ⟨m, qs, ps, hfirst, hnext, rfl⟩ := h
      obtain ⟨row, hrow, hfills⟩ := ihFirst hfirst
      obtain ⟨row', hrow', hfills'⟩ := ihNext hnext
      exact ⟨row ++ row', List.mem_flatMap.2
        ⟨row, hrow, List.mem_map.2 ⟨row', hrow', rfl⟩⟩, hfills.append hfills'⟩
  | choice first other ihFirst ihOther =>
      rcases h with h | h
      · obtain ⟨row, hrow, hfills⟩ := ihFirst h
        exact ⟨row, List.mem_append_left _ hrow, hfills⟩
      · obtain ⟨row, hrow, hfills⟩ := ihOther h
        exact ⟨row, List.mem_append_right _ hrow, hfills⟩
  | many item ih =>
      have hnames : ∀ r ∈ rs, r ∈ item.names g :=
        Pattern.Reads.mem_names (p := .many item) h
      refine ⟨_, List.mem_singleton_self _, ?_⟩
      by_cases hempty : (item.names g).isEmpty = true
      · rw [if_pos hempty]
        rw [List.isEmpty_iff.1 hempty] at hnames
        exact List.eq_nil_iff_forall_not_mem.2 fun r hr =>
          List.not_mem_nil (hnames r hr)
      · rw [if_neg hempty]
        exact ⟨rs, [], (List.append_nil rs).symm, hnames, rfl⟩
  | optional item ih =>
      rcases h with h | ⟨-, rfl⟩
      · obtain ⟨row, hrow, hfills⟩ := ih h
        exact ⟨row, List.mem_append_left _ hrow, hfills⟩
      · exact ⟨[], List.mem_append_right _ (List.mem_singleton_self _), rfl⟩
  | push item ih => exact ih h
  | rule name =>
      obtain rfl : rs = if g.isNamed name then [name] else [] := h
      refine ⟨_, List.mem_singleton_self _, ?_⟩
      by_cases hnamed : g.isNamed name = true
      · rw [if_pos hnamed, if_pos hnamed]
        exact ⟨[], rfl, rfl⟩
      · rw [if_neg hnamed, if_neg hnamed]
        rfl
  | atStart =>
      obtain ⟨-, -, rfl⟩ := h
      exact ⟨[], List.mem_singleton_self _, rfl⟩
  | atEnd =>
      obtain ⟨-, -, rfl⟩ := h
      exact ⟨[], List.mem_singleton_self _, rfl⟩
  | _ =>
      obtain ⟨-, rfl⟩ := h
      exact ⟨[], List.mem_singleton_self _, rfl⟩

end Patterns

/-! ## Shapes of captures -/

def Capture.rule : Capture R → R
  | mk rule _ _ => rule

/-- The captures inside a capture fill a row that the table has for its rule,
and so do those inside them, all the way down. -/
inductive Capture.Shaped (table : R → List (List (Slot R))) : Capture R → Prop
  | intro {r : R} {span : Span} {inner : List (Capture R)} (row : List (Slot R))
      (hrow : row ∈ table r) (fills : Fills row (inner.map Capture.rule))
      (nested : ∀ c ∈ inner, Capture.Shaped table c) :
      Capture.Shaped table (.mk r span inner)

namespace Grammar

variable (g : Grammar R) (table : R → List (List (Slot R)))

/-- The table has the rows of all named rules, and the others leave no captures.
It is checked rule by rule for a given grammar. -/
structure Tabled : Prop where
  named : ∀ r, g.isNamed r = true → ∀ row ∈ (g.body r).rows g, row ∈ table r
  silent : ∀ r, g.isNamed r = false → ∀ row ∈ (g.body r).rows g, row = []

variable {g table}

/-- **All captures of a match are shaped by the table.**  So a builder that has
a case for every row of the table never meets captures that it has no case
for. -/
theorem recognise_shaped (htable : g.Tabled table) {t : Text} (depth : Nat)
    (r : R) (c : Cursor) (m : Match R) (hc : c.At t)
    (h : g.recognise depth r c = some m) :
    Held t some (fun s e cs =>
      g.Leaves r s e (cs.map Capture.rule) ∧ ∀ x ∈ cs, x.Shaped table) c m := by
  induction depth generalizing r c m with
  | zero => cases h
  | succ depth ih =>
      obtain ⟨inner, hinner, rfl⟩ := Option.map_eq_some_iff.1 h
      have happend : ∀ {xs ys ps qs : List (Capture R)}, some xs = some ps →
          some ys = some qs →
          some (xs ++ ys) = some (ps ++ qs) := by
        intro xs ys ps qs hxs hys
        cases hxs
        cases hys
        rfl
      obtain ⟨hcursor, cs, hcs, hreads⟩ :=
        Pattern.recognise_reads rfl happend ih (g.body r) c inner hc hinner
      cases hcs
      have hnested : ∀ x ∈ inner.captures, x.Shaped table :=
        hreads.forall_mem fun _ _ _ _ hr => hr.2
      have hrules : (g.body r).Reads t g.Leaves c.offset inner.cursor.offset
          (inner.captures.map Capture.rule) :=
        hreads.map fun _ _ _ _ hr => hr.1
      obtain ⟨row, hrow, hfills⟩ := hrules.fills
      by_cases hnamed : g.isNamed r = true
      · rw [if_pos hnamed]
        refine ⟨hcursor, _, rfl, ?_, ?_⟩
        · simp [Leaves, hnamed, Capture.rule]
        · intro x hx
          rw [List.mem_singleton.1 hx]
          exact .intro row (htable.named r hnamed row hrow) hfills hnested
      · rw [if_neg hnamed]
        rw [htable.silent r (by simpa using hnamed) row hrow] at hfills
        have hempty : inner.captures = [] := List.map_eq_nil_iff.1 hfills
        refine ⟨hcursor, _, rfl, ?_, hnested⟩
        simp [Leaves, hnamed, hempty]

end Grammar

end TemplateJsx.Peg
