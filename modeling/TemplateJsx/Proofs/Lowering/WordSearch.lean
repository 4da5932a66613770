import Mathlib.Order.Bounds.Defs
import TemplateJsx.Proofs.Lowering.Delimiters

/-!
# Words are found where they stand alone

The search for a word goes through its occurrences in a window of the text, from
the left and so that none overlaps the one before it, and stops at the first
that stands alone.  Which characters stand beside an occurrence is asked of the
whole text, so they may lie outside the window.

An occurrence that is passed over because it overlaps an earlier one begins
inside a word.  If the word is made of identifier characters, one of these
stands directly before it, and it does not stand alone.  So nothing is missed:
`findWord_isLeast` says that the search gives the first offset of all at which
the word stands alone.
-/

namespace TemplateJsx

namespace Text

/-- The word stands at an offset, and no character that continues an identifier
stands directly before or after it.  What stands there is then the whole of a
name and not a part of a longer one. -/
structure AloneAt (t word : Text) (offset : Nat) : Prop where
  stands : t.Stands offset word (offset + word.byteLength)
  before : ∀ c s, t.Stands s [c] offset → isWordChar c = false
  after : ∀ c e, t.Stands (offset + word.byteLength) [c] e →
    isWordChar c = false

/-- The offsets inside a window at which a word stands alone in the text. -/
def aloneWithin (t word : Text) (window : Span) : Set Nat :=
  {offset | window.start ≤ offset ∧ offset + word.byteLength ≤ window.stop ∧
    t.AloneAt word offset}

/-! ## Occurrences -/

section Occurrences

variable {t word : Text}

theorem le_of_mem_occurrences (skip offset : Nat) (w : Text) :
    ∀ k ∈ occurrences word skip offset w, offset ≤ k := by
  induction w generalizing skip offset with
  | nil =>
      intro k hk
      unfold occurrences at hk
      split at hk
      · exact Nat.le_of_eq (List.mem_singleton.1 hk).symm
      · cases hk
  | cons c w ih =>
      have hlater : ∀ skip', ∀ k ∈ occurrences word skip' (offset + c.utf8Size)
          w, offset ≤ k := by
        intro skip' k hk
        exact Nat.le_trans (Nat.le_add_right _ _) (ih skip' _ k hk)
      cases skip with
      | succ skip => exact hlater skip
      | zero =>
          intro k hk
          unfold occurrences at hk
          split at hk
          · rcases List.mem_cons.1 hk with rfl | hk
            · exact Nat.le_refl _
            · exact hlater _ k hk
          · exact hlater 0 k hk

/-- Occurrences come in the order of the text. -/
theorem occurrences_pairwise (skip offset : Nat) (w : Text) :
    (occurrences word skip offset w).Pairwise (· < ·) := by
  induction w generalizing skip offset with
  | nil =>
      unfold occurrences
      split
      · exact List.pairwise_singleton _ _
      · exact .nil
  | cons c w ih =>
      cases skip with
      | succ skip => exact ih skip _
      | zero =>
          unfold occurrences
          split
          · refine List.pairwise_cons.2 ⟨?_, ih _ _⟩
            intro k hk
            have hle := le_of_mem_occurrences _ _ _ k hk
            have hc := c.utf8Size_pos
            omega
          · exact ih 0 _

theorem stands_of_mem_occurrences (skip : Nat) {w : Text} {offset stop : Nat}
    (h : t.Stands offset w stop) :
    ∀ k ∈ occurrences word skip offset w,
      t.Stands k word (k + word.byteLength) ∧ k + word.byteLength ≤ stop := by
  induction w generalizing skip offset with
  | nil =>
      intro k hk
      unfold occurrences at hk
      split at hk
      · rename_i hempty
        obtain rfl := List.mem_singleton.1 hk
        obtain rfl := List.isEmpty_iff.1 hempty
        exact ⟨h.left, h.le⟩
      · cases hk
  | cons c w ih =>
      obtain ⟨-, hrest⟩ := h.uncons
      cases skip with
      | succ skip => exact ih skip hrest
      | zero =>
          intro k hk
          unfold occurrences at hk
          split at hk
          · rename_i hprefix
            rcases List.mem_cons.1 hk with rfl | hk
            · obtain ⟨after, hafter⟩ := List.isPrefixOf_iff_prefix.1 hprefix
              rw [← hafter] at h
              exact ⟨h.split.1, h.split.2.le⟩
            · exact ih _ hrest k hk
          · exact ih 0 hrest k hk

theorem Stands.isPrefixOf {w : Text} {s e stop : Nat}
    (hword : t.Stands s word e) (h : t.Stands s w stop) (hle : e ≤ stop) :
    word.isPrefixOf w = true := by
  obtain ⟨v, hv⟩ := hword.right.between h.right hle
  exact List.isPrefixOf_iff_prefix.2 ⟨v, (hword.append hv).unique h⟩

/-- **Where a word of identifier characters stands alone, it is among the
occurrences.**  What is skipped belongs to an earlier occurrence, so that an
identifier character stands before each place that is passed over. -/
theorem AloneAt.mem_occurrences {k : Nat} (hk : t.AloneAt word k)
    (hne : word ≠ []) (hword : ∀ c ∈ word, isWordChar c = true)
    {skip offset stop : Nat} {w : Text} (h : t.Stands offset w stop)
    (hstart : offset ≤ k) (hstop : k + word.byteLength ≤ stop)
    (hpassed : skip ≠ 0 → ∃ c s, t.Stands s [c] offset ∧ isWordChar c = true)
    (hskip : ∀ c ∈ w.take skip, isWordChar c = true) :
    k ∈ occurrences word skip offset w := by
  induction w generalizing skip offset with
  | nil =>
      have hoffset := h.eq_of_nil
      have hempty : word.byteLength = 0 := by omega
      exact absurd (byteLength_eq_zero.1 hempty) hne
  | cons c w ih =>
      obtain ⟨hc, hrest⟩ := h.uncons
      have hnext : k ≠ offset → offset + c.utf8Size ≤ k := by
        intro hneq
        refine Nat.le_of_not_lt fun hlt => ?_
        have hle := hc.boundary_le hk.stands.left hlt
        omega
      cases skip with
      | succ skip =>
          have hneq : k ≠ offset := by
            rintro rfl
            obtain ⟨d, s, hd, hdword⟩ := hpassed (Nat.succ_ne_zero skip)
            rw [hk.before d s hd] at hdword
            cases hdword
          rw [List.take_succ_cons] at hskip
          obtain ⟨hcword, hskip⟩ := List.forall_mem_cons.1 hskip
          exact ih hrest (hnext hneq) (fun _ => ⟨c, offset, hc, hcword⟩) hskip
      | zero =>
          unfold occurrences
          split
          · rename_i hprefix
            by_cases hneq : k = offset
            · exact hneq ▸ List.mem_cons_self
            · -- The rest of this occurrence is what is skipped from here on.
              obtain ⟨x, word', rfl⟩ := List.exists_cons_of_ne_nil hne
              obtain ⟨rfl, v, rfl⟩ :=
                List.cons_prefix_cons.1 (List.isPrefixOf_iff_prefix.1 hprefix)
              refine List.mem_cons_of_mem _ (ih hrest (hnext hneq) ?_ ?_)
              · exact fun _ => ⟨x, offset, hc, hword x List.mem_cons_self⟩
              · intro d hd
                have htake : (word' ++ v).take
                    ((x :: word').length - 1) = word' := by
                  simp
                rw [htake] at hd
                exact hword d (List.mem_cons_of_mem _ hd)
          · rename_i hprefix
            have hneq : k ≠ offset := by
              rintro rfl
              exact hprefix (hk.stands.isPrefixOf h hstop)
            exact ih hrest (hnext hneq) (fun hzero =>
              absurd rfl hzero) (by simp)

end Occurrences

/-! ## Neighbours -/

theorem exists_stands_before {u v : Text} {c : Char} :
    (∃ s, (u ++ v).Stands s [c] u.byteLength) ↔ u.getLast? = some c := by
  rw [List.getLast?_eq_some_iff]
  constructor
  · intro h
    obtain ⟨s, before, after, ht, hbefore, hlength⟩ := h
    have hcut : u ++ v = (before ++ [c]) ++ after := by simpa using ht
    obtain ⟨hu, -⟩ := append_inj_byteLength hcut (by simp [hlength, hbefore])
    exact ⟨before, hu⟩
  · intro h
    obtain ⟨before, hu⟩ := h
    exact ⟨byteLength before, before, v, by simp [hu], rfl, by simp [hu]⟩

theorem exists_stands_after {u v : Text} {c : Char} :
    (∃ e, (u ++ v).Stands u.byteLength [c] e) ↔ v.head? = some c := by
  rw [List.head?_eq_some_iff]
  constructor
  · intro h
    obtain ⟨e, before, after, ht, hlength, -⟩ := h
    obtain ⟨-, hv⟩ := append_inj_byteLength ht hlength.symm
    exact ⟨after, hv⟩
  · intro h
    obtain ⟨after, hv⟩ := h
    exact ⟨_, u, after, by simp [hv], rfl, rfl⟩

/-- A word stands alone where neither the last character before it nor the first
one after it continues an identifier. -/
theorem aloneAt_iff {before word after : Text} :
    AloneAt (before ++ (word ++ after)) word before.byteLength ↔
      before.getLast?.any isWordChar = false ∧
      after.head?.any isWordChar = false := by
  have hstop : before.byteLength + word.byteLength =
      byteLength (before ++ word) := by
    simp
  have hcut : before ++ (word ++ after) = (before ++ word) ++ after := by simp
  rw [Option.any_eq_false, Option.any_eq_false]
  constructor
  · intro h
    constructor
    · intro c hc
      obtain ⟨s, hs⟩ := exists_stands_before.2 hc
      exact h.before c s hs
    · intro c hc
      obtain ⟨e, he⟩ := exists_stands_after.2 hc
      rw [← hcut, ← hstop] at he
      exact h.after c e he
  · intro h
    refine ⟨⟨before, after, rfl, rfl, rfl⟩, ?_, ?_⟩
    · intro c s hs
      exact h.1 c (exists_stands_before.1 ⟨s, hs⟩)
    · intro c e he
      rw [hcut, hstop] at he
      exact h.2 c (exists_stands_after.1 ⟨e, he⟩)

end Text

/-! ## The search -/

section Search

variable {t word : Text}

theorem standsAlone_isOk {offset : Nat}
    (h : t.Stands offset word (offset + word.byteLength)) :
    ∃ alone, standsAlone t offset (offset + word.byteLength) = .ok alone ∧
      (alone = true ↔ t.AloneAt word offset) := by
  obtain ⟨before, after, rfl, rfl, -⟩ := h
  refine ⟨_, standsAlone_append before word after, ?_⟩
  rw [Text.aloneAt_iff, Bool.and_eq_true, Bool.not_eq_true', Bool.not_eq_true']

theorem firstAlone?_cases {offsets : List Nat}
    (hstands : ∀ k ∈ offsets, t.Stands k word (k + word.byteLength))
    (hascend : offsets.Pairwise (· < ·)) :
    (firstAlone? t word offsets = .ok none ∧ ∀ k ∈ offsets, ¬t.AloneAt word k) ∨
      ∃ k, firstAlone? t word offsets = .ok (some k) ∧
      IsLeast {j | j ∈ offsets ∧ t.AloneAt word j} k := by
  induction offsets with
  | nil => exact Or.inl ⟨rfl, by simp⟩
  | cons k offsets ih =>
      obtain ⟨hk, hstands⟩ := List.forall_mem_cons.1 hstands
      obtain ⟨hlater, hascend⟩ := List.pairwise_cons.1 hascend
      obtain ⟨alone, hanswer, halone⟩ := standsAlone_isOk hk
      unfold firstAlone?
      rw [hanswer]
      cases alone with
      | true =>
          refine Or.inr ⟨k, rfl, ⟨List.mem_cons_self, halone.1 rfl⟩, ?_⟩
          intro j hj
          rcases List.mem_cons.1 hj.1 with heq | hmem
          · exact Nat.le_of_eq heq.symm
          · exact Nat.le_of_lt (hlater j hmem)
      | false =>
          have hnot : ¬t.AloneAt word k := by simpa using halone
          rcases ih hstands hascend with ⟨hnone, hall⟩ | ⟨j, hj, hmem, hleast⟩
          · exact Or.inl ⟨hnone, List.forall_mem_cons.2 ⟨hnot, hall⟩⟩
          · refine Or.inr ⟨j, hj, ⟨List.mem_cons_of_mem _ hmem.1, hmem.2⟩, ?_⟩
            intro i hi
            rcases List.mem_cons.1 hi.1 with heq | hi'
            · exact absurd (heq ▸ hi.2) hnot
            · exact hleast ⟨hi', hi.2⟩

theorem findWord_cases (word : Text) {start stop : Nat} {inside : Text}
    (h : t.Stands (min start stop) inside stop) :
    (findWord t start stop word =
      .error (.delimiter (.expected word ⟨min start stop, stop⟩)) ∧
        ∀ k ∈ Text.occurrences word 0 (min start stop) inside,
          ¬t.AloneAt word k) ∨
      ∃ k, findWord t start stop word = .ok k ∧
        IsLeast {j | j ∈ Text.occurrences word 0 (min start stop) inside ∧
          t.AloneAt word j} k := by
  have hstands : ∀ k ∈ Text.occurrences word 0 (min start stop) inside,
      t.Stands k word (k + word.byteLength) :=
    fun k hk => (Text.stands_of_mem_occurrences 0 h k hk).1
  simp only [findWord, Text.slice?_eq_some.2 h, Option.getD_some]
  rcases firstAlone?_cases hstands (Text.occurrences_pairwise 0 _ _) with
    ⟨hnone, hall⟩ | ⟨k, hk, hleast⟩
  · rw [hnone]
    exact Or.inl ⟨rfl, hall⟩
  · rw [hk]
    exact Or.inr ⟨k, rfl, hleast⟩

/-- The places where a word of identifier characters stands alone in a window
are all among its occurrences there. -/
theorem mem_aloneWithin_iff (hne : word ≠ [])
    (hword : ∀ c ∈ word, isWordChar c = true) {start stop : Nat} {inside : Text}
    (h : t.Stands start inside stop) {k : Nat} :
    k ∈ t.aloneWithin word ⟨start, stop⟩ ↔
      k ∈ Text.occurrences word 0 start inside ∧ t.AloneAt word k := by
  constructor
  · intro hk
    obtain ⟨hstart, hstop, halone⟩ := hk
    refine ⟨halone.mem_occurrences hne hword h hstart hstop ?_ ?_, halone⟩
    · intro hzero
      exact absurd rfl hzero
    · simp
  · intro hk
    obtain ⟨hmem, halone⟩ := hk
    exact ⟨Text.le_of_mem_occurrences 0 start inside k hmem,
      (Text.stands_of_mem_occurrences 0 h k hmem).2, halone⟩

/-- The search for a word of identifier characters comes to the first place in
the window at which the word stands alone, or to a report that there is no such
place. -/
theorem findWord_alone_cases {start stop : Nat} (hwindow : t.Cuts ⟨start, stop⟩)
    (hne : word ≠ []) (hword : ∀ c ∈ word, isWordChar c = true) :
    (findWord t start stop word =
      .error (.delimiter (.expected word ⟨start, stop⟩)) ∧
        t.aloneWithin word ⟨start, stop⟩ = ∅) ∨
      ∃ k, findWord t start stop word = .ok k ∧
      IsLeast (t.aloneWithin word ⟨start, stop⟩) k := by
  obtain ⟨inside, hinside⟩ := hwindow.stands
  have hmin : min start stop = start := Nat.min_eq_left hwindow.1
  have hsame : t.aloneWithin word ⟨start, stop⟩ =
      {j | j ∈ Text.occurrences word 0 start inside ∧ t.AloneAt word j} :=
    Set.ext fun k => mem_aloneWithin_iff hne hword hinside
  have hcases := findWord_cases word (hmin.symm ▸ hinside)
  rw [hmin] at hcases
  rw [hsame]
  rcases hcases with ⟨hnone, hnot⟩ | hfound
  · refine Or.inl ⟨hnone, Set.ext fun k => ⟨?_, False.elim⟩⟩
    intro hk
    exact hnot k hk.1 hk.2
  · exact Or.inr hfound

/-- **The search for a word of identifier characters finds the first place in
the window at which the word stands alone.**  It reports a missing delimiter
exactly when there is no such place, and no such place is passed over for
overlapping an earlier occurrence. -/
theorem findWord_isLeast {start stop : Nat} (hwindow : t.Cuts ⟨start, stop⟩)
    (hne : word ≠ []) (hword : ∀ c ∈ word, isWordChar c = true) :
    (∀ k, findWord t start stop word = .ok k ↔
      IsLeast (t.aloneWithin word ⟨start, stop⟩) k) ∧
      (∀ fault, findWord t start stop word = .error fault ↔
        fault = .delimiter (.expected word ⟨start, stop⟩) ∧
        t.aloneWithin word ⟨start, stop⟩ = ∅) ∧
      ∀ inside, t.slice? ⟨start, stop⟩ = some inside →
        ∀ k ∈ t.aloneWithin word ⟨start, stop⟩,
          k ∈ Text.occurrences word 0 start inside := by
  refine ⟨?_, ?_, ?_⟩
  · intro k
    rcases findWord_alone_cases hwindow hne hword with
      ⟨hnone, hempty⟩ | ⟨j, hj, hleast⟩
    · rw [hnone, hempty]
      constructor
      · intro h
        cases h
      · intro h
        exact h.1.elim
    · rw [hj]
      constructor
      · intro h
        cases h
        exact hleast
      · intro h
        rw [Nat.le_antisymm (hleast.2 h.1) (h.2 hleast.1)]
  · intro fault
    rcases findWord_alone_cases hwindow hne hword with
      ⟨hnone, hempty⟩ | ⟨j, hj, hleast⟩
    · rw [hnone, hempty]
      constructor
      · intro h
        cases h
        exact ⟨rfl, rfl⟩
      · intro h
        rw [h.1]
    · rw [hj]
      constructor
      · intro h
        cases h
      · intro h
        exact (h.2 ▸ hleast.1).elim
  · intro inside hinside k hk
    exact ((mem_aloneWithin_iff hne hword (Text.slice?_eq_some.1 hinside)).1
      hk).1

def overlapping : Text := "é $_$_$ $_$".toList

/-- The third of the three stands alone and is found.  The second one does not,
for what stands before it, and that is so even in a window that holds nothing
but it. -/
theorem findWord_isLeast_overlapping :
    (overlapping.Cuts ⟨2, 12⟩ ∧
      IsLeast (overlapping.aloneWithin "$_$".toList ⟨2, 12⟩) 9) ∧
      overlapping.Cuts ⟨5, 8⟩ ∧
      overlapping.aloneWithin "$_$".toList ⟨5, 8⟩ = ∅ := by
  have hne : "$_$".toList ≠ [] := by decide
  have hword : ∀ c ∈ "$_$".toList, isWordChar c = true :=
    List.all_eq_true.1 (by decide)
  have hwide : overlapping.Cuts ⟨2, 12⟩ := by decide
  have hnarrow : overlapping.Cuts ⟨5, 8⟩ := by decide
  have hfound : findWord overlapping 2 12 "$_$".toList = .ok 9 := rfl
  have hmissed : findWord overlapping 5 8 "$_$".toList =
      .error (.delimiter (.expected "$_$".toList ⟨5, 8⟩)) := rfl
  exact ⟨⟨hwide, ((findWord_isLeast hwide hne hword).1 9).1 hfound⟩, hnarrow,
    (((findWord_isLeast hnarrow hne hword).2.1 _).1 hmissed).2⟩

end Search

end TemplateJsx
