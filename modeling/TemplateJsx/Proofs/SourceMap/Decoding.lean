import TemplateJsx.SourceMap.Vlq

/-!
# Reading mappings back

A reader of written mappings goes through the text one character at a time.  A
digit adds a group to the number that is open, a comma ends a segment, and a
semicolon ends a segment and the line.  A segment that has ended is four
numbers, each relative to the segment before it, or nothing at all.

What was written is read back as it was, as long as no mapping goes back to an
earlier line (`decodeMappings_encodeMappings`): the written form has no way to
go back.
-/

namespace TemplateJsx.Vlq

/-- What is known after some of the text: where the last segment was, which
numbers the current one has so far, and the group of digits that is being
read. -/
structure Reader where
  /-- From where the columns and lines of the next segment count in the code. -/
  generated : Position
  /-- From where they count in the template. -/
  source : Position
  /-- The numbers of the segment that is open. -/
  numbers : List Int
  /-- What the groups of the number that is open come to. -/
  value : Nat
  /-- What the next group counts for; it is one when no number is open. -/
  worth : Nat
  found : List Mapping

def bits? (c : Char) : Option Nat := alphabet.idxOf? c

def unsigned (n : Nat) : Int :=
  if n % 2 = 1 then -(n / 2 : Nat) else (n / 2 : Nat)

/-- The number that lies so far from another one. -/
def moved? (before : Nat) (way : Int) : Option Nat :=
  ((before : Int) + way).toNat?

namespace Reader

def between (generated source : Position) (found : List Mapping) : Reader :=
  ⟨generated, source, [], 0, 1, found⟩

/-- One more group of six bits.  The sixth bit says that the number goes on. -/
def group (r : Reader) (bits : Nat) : Reader :=
  let value := r.value + bits % 32 * r.worth
  if bits < 32 then { r with
    numbers := r.numbers ++ [unsigned value], value := 0, worth := 1 }
  else { r with value := value, worth := r.worth * 32 }

/-- The end of a segment.  Of the four numbers the second leads from the only
source to itself, and the others say how far the segment lies from the one
before. -/
def endSegment (r : Reader) : Option Reader :=
  if r.worth = 1 then
    match r.numbers with
    | [] => some r
    | [column, 0, sourceLine, sourceColumn] => do
      let column ← moved? r.generated.column column
      let line ← moved? r.source.line sourceLine
      let sourceColumn ← moved? r.source.column sourceColumn
      let m : Mapping := ⟨⟨r.generated.line, column⟩, ⟨line, sourceColumn⟩⟩
      return between m.generated m.source (r.found ++ [m])
    | _ => none
  else
    none

def nextLine (r : Reader) : Reader :=
  { r with generated := ⟨r.generated.line + 1, 0⟩ }

/-- One more character: a digit, the end of a segment or the end of a line. -/
def step (r : Reader) (c : Char) : Option Reader :=
  if c = ',' then r.endSegment
  else if c = ';' then r.endSegment.map nextLine
  else (bits? c).map r.group

def run (r : Reader) (t : Text) : Option Reader := t.foldlM step r

/-- A text up to its end. -/
def finish (r : Reader) (t : Text) : Option (List Mapping) :=
  ((r.run t).bind endSegment).map found

end Reader

/-- The mappings that a text writes, read as the format prescribes and without a
look at how they were written. -/
def decodeMappings (t : Text) : Option (List Mapping) :=
  (Reader.between Position.origin Position.origin []).finish t

/-! ## Numbers -/

theorem unsigned_signed (n : Int) : unsigned (signed n) = n := by
  unfold unsigned signed
  split <;> split <;> omega

theorem moved?_sub (before now : Nat) :
    moved? before ((now : Int) - (before : Int)) = some now := by
  have hsum : (before : Int) + ((now : Int) - (before : Int)) =
      (now : Int) := by
    omega
  rw [moved?, hsum]
  rfl

/-- The bits of a digit are those it was written for, and no digit is a
separator. -/
theorem bits?_digit {n : Nat} (h : n < 64) :
    bits? (digit n) = some n ∧ digit n ≠ ',' ∧ digit n ≠ ';' := by
  have hall : ((List.range 64).all fun k => bits? (digit k) == some k &&
      digit k != ',' && digit k != ';') = true := by
    decide +kernel
  have hn := List.all_eq_true.1 hall n (List.mem_range.2 h)
  simp only [Bool.and_eq_true, beq_iff_eq, bne_iff_ne] at hn
  exact ⟨hn.1.1, hn.1.2, hn.2⟩

namespace Reader

variable {r : Reader}

theorem run_append (r : Reader) (s t : Text) :
    r.run (s ++ t) = (r.run s).bind fun q => q.run t :=
  List.foldlM_append

theorem run_cons (r : Reader) (c : Char) (t : Text) :
    r.run (c :: t) = (r.step c).bind fun q => q.run t :=
  List.foldlM_cons

theorem step_digit {n : Nat} (h : n < 64) (r : Reader) :
    r.step (digit n) = some (r.group n) := by
  obtain ⟨hbits, hcomma, hsemicolon⟩ := bits?_digit h
  simp [step, hcomma, hsemicolon, hbits]

/-- The groups of a number add up to it, each worth thirty-two times the one
before. -/
theorem run_groups {budget n : Nat} (h : n ≤ budget) (r : Reader) :
    r.run ((groups budget n).map digit) =
      some { r with
        numbers := r.numbers ++ [unsigned (r.value + n * r.worth)], value := 0,
        worth := 1 } := by
  induction budget generalizing n r with
  | zero =>
      obtain rfl : n = 0 := by omega
      have hlast : r.group 0 =
          { r with
            numbers := r.numbers ++ [unsigned (r.value + 0 * r.worth)],
            value := 0, worth := 1 } := by
        simp [group]
      simp only [groups, Nat.zero_mod, List.map_cons, List.map_nil, run_cons,
        step_digit (by omega : 0 < 64), Option.bind_some, hlast]
      rfl
  | succ budget ih =>
      simp only [groups]
      split
      · rename_i hn
        have hlast : r.group n =
            { r with
              numbers := r.numbers ++ [unsigned (r.value + n * r.worth)],
              value := 0, worth := 1 } := by
          simp [group, hn, Nat.mod_eq_of_lt hn]
        simp only [List.map_cons, List.map_nil, run_cons,
          step_digit (by omega : n < 64), Option.bind_some, hlast]
        rfl
      · rename_i hn
        have hmore : r.group (32 + n % 32) =
            { r with
              value := r.value + n % 32 * r.worth, worth := r.worth * 32 } := by
          simp [group]
        have hsum : r.value + n % 32 * r.worth + n / 32 * (r.worth * 32) =
            r.value + n * r.worth := by
          have hn := Nat.div_add_mod n 32
          calc r.value + n % 32 * r.worth + n / 32 * (r.worth * 32)
              = r.value + (32 * (n / 32) + n % 32) * r.worth := by
                rw [Nat.add_mul, Nat.mul_comm 32 (n / 32), Nat.mul_assoc,
                  Nat.mul_comm 32 r.worth]
                omega
            _ = r.value + n * r.worth := by rw [hn]
        simp only [List.map_cons, run_cons,
          step_digit (by omega : 32 + n % 32 < 64), Option.bind_some, hmore]
        rw [ih (by omega)]
        simp only [hsum]

/-- A written number is read as the next one of the segment. -/
theorem run_delta {generated source : Position} {found : List Mapping}
    (numbers : List Int) (before now : Nat) (t : Text) :
    run ⟨generated, source, numbers, 0, 1, found⟩ (delta before now ++ t) =
      run ⟨generated, source, numbers ++ [(now : Int) - (before : Int)], 0, 1,
        found⟩ t := by
  have hnumber :=
    run_groups (Nat.le_refl (signed ((now : Int) - (before : Int))))
      ⟨generated, source, numbers, 0, 1, found⟩
  simp only [Nat.mul_one, Nat.zero_add, unsigned_signed] at hnumber
  rw [run_append, delta, encode, hnumber, Option.bind_some]

def Completes (r : Reader) (m : Mapping) (found : List Mapping) : Prop :=
  r.endSegment = some (between m.generated m.source found)

/-- A written segment is read as its mapping, from wherever the segment before
it was: all four numbers are differences. -/
theorem run_segment (generated source : Position) (found : List Mapping)
    {m : Mapping} (hline : m.generated.line = generated.line) (t : Text) :
    ∃ r : Reader, r.Completes m (found ++ [m]) ∧
      run (between generated source found)
        (segment generated.column source m ++ t) = r.run t := by
  refine ⟨⟨generated, source, [(m.generated.column : Int) -
      (generated.column : Int), 0, (m.source.line : Int) - (source.line : Int),
    (m.source.column : Int) - (source.column : Int)], 0, 1, found⟩, ?_, ?_⟩
  · simp only [Completes, endSegment, if_true, moved?_sub, ← hline,
      Option.bind_eq_bind, Option.bind_some, Option.pure_def]
  · simp only [segment, List.append_assoc, between, run_delta, List.nil_append,
      List.cons_append, Int.sub_self]

/-! ## Segments one after another -/

/-- Semicolons at the start of a line lead to the start of a later one. -/
theorem run_semicolons (line lines : Nat) (source : Position)
    (found : List Mapping) (t : Text) :
    run (between ⟨line, 0⟩ source found) (List.replicate lines ';' ++ t) =
      run (between ⟨line + lines, 0⟩ source found) t := by
  induction lines generalizing line with
  | zero => rfl
  | succ lines ih =>
      have hstep : step (between ⟨line, 0⟩ source found) ';' =
          some (between ⟨line + 1, 0⟩ source found) := rfl
      rw [List.replicate_succ, List.cons_append, run_cons, hstep,
        Option.bind_some, ih, Nat.add_right_comm, Nat.add_assoc]

/-- A segment on the same line comes after a comma. -/
theorem Completes.comma {m : Mapping} {found : List Mapping}
    (h : r.Completes m found) (t : Text) :
    r.run (',' :: t) = run (between m.generated m.source found) t := by
  have hstep : r.step ',' = some (between m.generated m.source found) := h
  rw [run_cons, hstep, Option.bind_some]

/-- A segment on a later line comes after semicolons. -/
theorem Completes.semicolons {m : Mapping} {found : List Mapping}
    (h : r.Completes m found) (lines : Nat) (t : Text) :
    r.run (List.replicate (lines + 1) ';' ++ t) =
      run (between ⟨m.generated.line + (lines + 1), 0⟩ m.source found) t := by
  have hstep :
      r.step ';' = some (between ⟨m.generated.line + 1, 0⟩ m.source found) := by
    change r.endSegment.map nextLine = _
    rw [h]
    rfl
  rw [List.replicate_succ, List.cons_append, run_cons, hstep, Option.bind_some,
    run_semicolons, Nat.add_assoc, Nat.add_comm 1 lines]

/-- Each segment after a mapping is read as the mapping it was written for. -/
theorem Completes.finish_segmentsAfter {m : Mapping} {found rest : List Mapping}
    (h : r.Completes m found)
    (hlines : (m :: rest).Pairwise fun a b =>
      a.generated.line ≤ b.generated.line) :
    r.finish (segmentsAfter m rest) = some (found ++ rest) := by
  induction rest generalizing r m found with
  | nil =>
      have hend : (r.run []).bind endSegment =
          some (between m.generated m.source found) := h
      rw [segmentsAfter, finish, hend, List.append_nil]
      rfl
  | cons n rest ih =>
      obtain ⟨hm, hlines⟩ := List.pairwise_cons.1 hlines
      have hmn := hm n List.mem_cons_self
      -- The reader goes on from the end of the segment of `n`, with `n` among
      -- what it found.
      have hread : ∃ q : Reader, q.Completes n (found ++ [n]) ∧
          r.run (segmentsAfter m (n :: rest)) =
            q.run (segmentsAfter n rest) := by
        cases hway : n.generated.line - m.generated.line with
        | zero =>
            have hline : n.generated.line = m.generated.line := by omega
            obtain ⟨q, hq, hrun⟩ :=
              run_segment m.generated m.source found hline
                (segmentsAfter n rest)
            refine ⟨q, hq, ?_⟩
            simp only [segmentsAfter, hway, if_true]
            rw [h.comma, hrun]
        | succ lines =>
            have hline : n.generated.line = m.generated.line + (lines + 1) := by
              omega
            obtain ⟨q, hq, hrun⟩ :=
              run_segment ⟨m.generated.line + (lines + 1), 0⟩ m.source found
                hline (segmentsAfter n rest)
            refine ⟨q, hq, ?_⟩
            simp only [segmentsAfter, hway, Nat.add_eq_zero_iff,
              Nat.one_ne_zero, and_false, if_false, List.append_assoc]
            rw [h.semicolons, hrun]
      obtain ⟨q, hq, hrun⟩ := hread
      have hrest := ih hq hlines
      rw [finish] at hrest ⊢
      rw [hrun, hrest, List.append_assoc, List.singleton_append]

end Reader

/-- **Mappings are read back as they were written**, if no one goes back to an
earlier line of code.  The written form has a mark for the next line and none
for the last one, so the condition cannot be dropped. -/
theorem decodeMappings_encodeMappings {mappings : List Mapping}
    (hlines : mappings.Pairwise fun a b => a.generated.line ≤
    b.generated.line) :
    decodeMappings (encodeMappings mappings) = some mappings := by
  cases mappings with
  | nil => rfl
  | cons m rest =>
      have hline : m.generated.line = 0 + m.generated.line :=
        (Nat.zero_add _).symm
      obtain ⟨q, hq, hrun⟩ :=
        Reader.run_segment ⟨0 + m.generated.line, 0⟩ Position.origin [] hline
          (segmentsAfter m rest)
      have hrest := hq.finish_segmentsAfter hlines
      rw [Reader.finish] at hrest
      rw [decodeMappings, Reader.finish, encodeMappings, List.append_assoc]
      change Option.map _ (Option.bind
        (Reader.run (Reader.between ⟨0, 0⟩ Position.origin []) _) _) = _
      rw [Reader.run_semicolons, hrun, hrest]
      rfl

end TemplateJsx.Vlq
