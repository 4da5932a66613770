import TemplateJsx.Proofs.Draft.Recording
import TemplateJsx.Proofs.Text.Positions

/-!
# What comes out of a draft

Without sorting and without a cursor: at every offset first come the texts
inserted there, in the order of the calls, then the text of a range that starts
there, and then the character of the text itself, unless some range covers it.
`items` lists all this, and `Sound.render?` says that rendering gives just these
items, with the mappings of `itemMappings`.
-/

namespace TemplateJsx

/-- A part of the rendered code: a character of the text, or what a splice
brings in.  A draft is rendered in stretches, which copy many characters at
once; items are the finer view in which each character stands for itself. -/
inductive Item where
  | kept (offset : Nat) (c : Char)
  | brought (s : Splice)

namespace Item

def text : Item → Text
  | kept _ c => [c]
  | brought s => s.text

/-- The offset that an item stands for. -/
def origin : Item → Nat
  | kept offset _ => offset
  | brought s => s.span.start

/-- Line feeds that are kept and splices that bring in nothing have no mapping:
the first are followed by the start of a line, the second take up no code. -/
def isMapped : Item → Bool
  | kept _ c => c != '\n'
  | brought s => !s.text.isEmpty

/-- The mapping of an item that begins at a position of the code. -/
def mappings (t : Text) (generated : Position) (i : Item) : List Mapping :=
  if i.isMapped then
    (t.position? i.origin).toList.map (Mapping.mk generated)
  else []

end Item

/-- The mappings of items one after another, each from where the code of those
before it ends. -/
def itemMappings (t : Text) : Position → List Item → List Mapping
  | _, [] => []
  | p, i :: rest => i.mappings t p ++ itemMappings t (p.after i.text) rest

def itemText (is : List Item) : Text := is.flatMap Item.text

/-- Some range covers the character at an offset. -/
def covered (splices : List Splice) (offset : Nat) : Bool :=
  splices.any fun s => s.span.start ≤ offset && offset < s.span.stop

/-- The splices that start at an offset, insertions before ranges, and
insertions in the order in which they were recorded. -/
def broughtAt (splices : List Splice) (offset : Nat) : List Splice :=
  (splices.filter fun s => s.span.start == offset && s.isInsert) ++
    splices.filter fun s => s.span.start == offset && !s.isInsert

theorem broughtAt_eq (splices : List Splice) (offset : Nat) :
    broughtAt splices offset =
      splices.filter (·.isInsertAt offset) ++
        splices.filter (·.isRangeAt offset) := rfl

/-- What comes out of a text from an offset on: at each offset the splices that
start there, then the character unless a range covers it.  It mentions no order
of the splices and no cursor. -/
def items (splices : List Splice) : Nat → Text → List Item
  | offset, [] => (broughtAt splices offset).map .brought
  | offset, c :: t =>
    (broughtAt splices offset).map .brought ++
      (if covered splices offset then [] else [.kept offset c]) ++
      items splices (offset + c.utf8Size) t

def keptFrom : Nat → Text → List Item
  | _, [] => []
  | offset, c :: t => .kept offset c :: keptFrom (offset + c.utf8Size) t

@[simp] theorem itemText_append (is js : List Item) :
    itemText (is ++ js) = itemText is ++ itemText js :=
  List.flatMap_append

@[simp] theorem itemText_cons (i : Item) (is : List Item) :
    itemText (i :: is) = i.text ++ itemText is :=
  List.flatMap_cons

theorem itemMappings_append (t : Text) (p : Position) (is js : List Item) :
    itemMappings t p (is ++ js) = itemMappings t p is ++
      itemMappings t (p.after (itemText is)) js := by
  induction is generalizing p with
  | nil => rfl
  | cons i is ih => simp [itemMappings, ih]

/-! ## Order does not matter -/

/-- Sorting the splices changes nothing about what starts at an offset. -/
theorem broughtAt_ordered (splices : List Splice) (offset : Nat) :
    broughtAt (Splice.ordered splices) offset = broughtAt splices offset := by
  unfold broughtAt Splice.ordered
  rw [filter_sortBy, filter_sortBy]
  · intro a b ha hb
    simp only [Bool.and_eq_true, beq_iff_eq, Bool.not_eq_true'] at ha hb
    simp [Splice.atMost_iff, Splice.rank, ha, hb]
  · intro a b ha hb
    simp only [Bool.and_eq_true, beq_iff_eq] at ha hb
    simp [Splice.atMost_iff, Splice.rank, ha, hb]

theorem covered_ordered (splices : List Splice) (offset : Nat) :
    covered (Splice.ordered splices) offset = covered splices offset :=
  (sortBy_perm Splice.atMost splices).any_eq

theorem items_ordered (splices : List Splice) (offset : Nat) (w : Text) :
    items (Splice.ordered splices) offset w = items splices offset w := by
  induction w generalizing offset with
  | nil => simp only [items, broughtAt_ordered]
  | cons c w ih => simp only [items, broughtAt_ordered, covered_ordered, ih]

/-! ## Items of splices in a row -/

section Row

variable {s : Splice} {rest : List Splice}

theorem broughtAt_eq_nil {splices : List Splice} {offset : Nat}
    (h : ∀ s ∈ splices, s.span.start ≠ offset) :
    broughtAt splices offset = [] := by
  simp only [broughtAt, List.append_eq_nil_iff, List.filter_eq_nil_iff,
    Bool.and_eq_true, beq_iff_eq]
  exact ⟨fun s hs hand => h s hs hand.1, fun s hs hand => h s hs hand.1⟩

theorem covered_eq_false {splices : List Splice} {offset : Nat}
    (h : ∀ s ∈ splices, offset < s.span.start) :
    covered splices offset = false := by
  simp only [covered, List.any_eq_false, Bool.and_eq_true, decide_eq_true_eq]
  intro s hs hand
  have := h s hs
  omega

theorem items_append {splices : List Splice} {offset : Nat} {u v : Text}
    (h : ∀ s ∈ splices, offset + u.byteLength ≤ s.span.start) :
    items splices offset (u ++ v) = keptFrom offset u ++
      items splices (offset + u.byteLength) v := by
  induction u generalizing offset with
  | nil => rfl
  | cons c u ih =>
      have hc := c.utf8Size_pos
      simp only [Text.byteLength_cons] at h
      have hafter : ∀ s ∈ splices, offset < s.span.start := fun s hs => by
        have := h s hs
        omega
      have hnone := broughtAt_eq_nil fun s hs => Nat.ne_of_gt (hafter s hs)
      have hnext : ∀ s ∈ splices, offset + c.utf8Size + Text.byteLength u ≤
          s.span.start := fun s hs => by
        have := h s hs
        omega
      simp only [List.cons_append, items, hnone, covered_eq_false hafter,
        ih hnext, keptFrom, List.map_nil, List.nil_append, Text.byteLength_cons,
        Nat.add_assoc]
      rfl

theorem items_cons_of_past {offset : Nat} (hstart : s.span.start < offset)
    (hstop : s.span.stop ≤ offset) (w : Text) :
    items (s :: rest) offset w = items rest offset w := by
  have hat : ∀ n, offset ≤ n → broughtAt (s :: rest) n = broughtAt rest n := by
    intro n hn
    have hne : (s.span.start == n) = false := by
      simp only [beq_eq_false_iff_ne]
      omega
    simp [broughtAt, hne]
  have hcovered : ∀ n, offset ≤ n → covered (s :: rest) n = covered rest n := by
    intro n hn
    have hbehind : ¬n < s.span.stop := by omega
    simp [covered, hbehind]
  induction w generalizing offset with
  | nil => simp only [items, hat offset (Nat.le_refl _)]
  | cons c w ih =>
      have hrest : items (s :: rest) (offset + c.utf8Size) w =
          items rest (offset + c.utf8Size) w :=
        ih (by omega) (by omega) (fun n hn => hat n (by omega))
          (fun n hn => hcovered n (by omega))
      simp only [items, hat offset (Nat.le_refl _),
        hcovered offset (Nat.le_refl _), hrest]

/-- An insertion comes first at its offset. -/
theorem items_insert (hinsert : s.isInsert = true) (w : Text) :
    items (s :: rest) s.span.start w = .brought s ::
      items rest s.span.start w := by
  have hstop := Splice.span_of_isInsert hinsert
  have hat : broughtAt (s :: rest) s.span.start =
      s :: broughtAt rest s.span.start := by
    simp [broughtAt, hinsert]
  cases w with
  | nil => simp [items, hat]
  | cons c w =>
      have hc := c.utf8Size_pos
      have hcovered : covered (s :: rest) s.span.start =
          covered rest s.span.start := by
        simp [covered, hstop]
      have hpast : items (s :: rest) (s.span.start + c.utf8Size) w =
          items rest (s.span.start + c.utf8Size) w :=
        items_cons_of_past (by omega) (by omega) w
      simp [items, hat, hcovered, hpast]

/-- Inside a range nothing comes out. -/
theorem items_inside {offset : Nat} {u v : Text}
    (hstart : s.span.start < offset)
    (hstop : s.span.stop = offset + u.byteLength)
    (hrest : ∀ r ∈ rest, s.span.stop ≤ r.span.start) :
    items (s :: rest) offset (u ++ v) = items rest s.span.stop v := by
  induction u generalizing offset with
  | nil =>
      have hoffset : s.span.stop = offset := by simpa using hstop
      rw [hoffset]
      exact items_cons_of_past hstart (by omega) v
  | cons c u ih =>
      have hc := c.utf8Size_pos
      simp only [Text.byteLength_cons] at hstop
      have hnone : broughtAt (s :: rest) offset = [] := by
        refine broughtAt_eq_nil fun r hr => ?_
        rcases List.mem_cons.1 hr with rfl | hr
        · omega
        · have := hrest r hr
          omega
      have hcovered : covered (s :: rest) offset = true := by
        have hin : s.span.start ≤ offset ∧ offset < s.span.stop := by omega
        simp [covered, hin]
      have hnext : items (s :: rest) (offset + c.utf8Size) (u ++ v) =
          items rest s.span.stop v :=
        ih (by omega) (by omega)
      simp [items, hnone, hcovered, hnext]

/-- A range gives way to its text. -/
theorem items_range {u v : Text} (hinsert : s.isInsert = false)
    (hlt : s.span.start < s.span.stop)
    (hstop : s.span.stop = s.span.start + u.byteLength)
    (hrest : ∀ r ∈ rest, s.span.stop ≤ r.span.start) :
    items (s :: rest) s.span.start (u ++ v) =
      .brought s :: items rest s.span.stop v := by
  have hnone : broughtAt rest s.span.start = [] :=
    broughtAt_eq_nil fun r hr => by
    have := hrest r hr
    omega
  have hat : broughtAt (s :: rest) s.span.start = [s] := by
    obtain ⟨hinserts, hranges⟩ := List.append_eq_nil_iff.1 hnone
    simp [broughtAt, hinsert, hinserts, hranges]
  have hcovered : covered (s :: rest) s.span.start = true := by
    simp [covered, hlt]
  cases u with
  | nil => simp at hstop; omega
  | cons c u =>
      have hc := c.utf8Size_pos
      simp only [Text.byteLength_cons] at hstop
      have hinside : items (s :: rest) (s.span.start + c.utf8Size) (u ++ v) =
          items rest s.span.stop v :=
        items_inside (by omega) (by omega) hrest
      simp [items, hat, hcovered, hinside]

end Row

/-! ## Rendering -/

namespace Draft

variable {t : Text}

/-- Stretches that come to the code and the mappings of items, from whatever
position of the code they are put out. -/
def Renders (t : Text) (ss : List Stretch) (is : List Item) : Prop :=
  ss.flatMap Stretch.text = itemText is ∧
    ∀ p, Stretch.mappingsFrom p ss = itemMappings t p is

theorem mappingsFrom_append (p : Position) (ss rs : List Stretch) :
    Stretch.mappingsFrom p (ss ++ rs) =
      Stretch.mappingsFrom p ss ++ Stretch.mappingsFrom
        (p.after (ss.flatMap Stretch.text)) rs := by
  induction ss generalizing p with
  | nil => rfl
  | cons s ss ih => simp [Stretch.mappingsFrom, ih]

theorem Renders.append {ss rs : List Stretch} {is js : List Item}
    (h : Renders t ss is) (h' : Renders t rs js) :
    Renders t (ss ++ rs) (is ++ js) := by
  refine ⟨by simp [h.1, h'.1], ?_⟩
  intro p
  rw [mappingsFrom_append, itemMappings_append, h.1, h.2, h'.2]

theorem itemText_keptFrom (offset : Nat) (w : Text) :
    itemText (keptFrom offset w) = w := by
  induction w generalizing offset with
  | nil => rfl
  | cons c w ih => simp [keptFrom, ih, Item.text]

/-- Characters that are copied together have the mappings of single ones.  A
stretch is mapped character by character, except for line feeds. -/
theorem characterMappings_eq {offset stop : Nat} {w : Text} {q : Position}
    (h : t.Stands offset w stop) (hq : t.position? offset = some q)
    (p : Position) :
    Stretch.characterMappings p q w = itemMappings t p (keptFrom offset w) := by
  induction w generalizing offset p q with
  | nil => rfl
  | cons c w ih =>
      obtain ⟨hfirst, hrest⟩ :=
        (show t.Stands offset ([c] ++ w) stop from h).split
      have hlength : Text.byteLength [c] = c.utf8Size := by simp
      rw [hlength] at hfirst hrest
      obtain ⟨q', hq', hnext⟩ := hfirst.position?
      obtain rfl : q = q' := Option.some.inj (hq.symm.trans hq')
      have htail := ih hrest hnext (p.step c)
      simp only [Stretch.characterMappings, keptFrom, itemMappings,
        Item.mappings, Item.isMapped, Item.origin, Item.text, hq,
        Position.after_cons, Position.after_nil] at htail ⊢
      rw [htail]
      by_cases hc : c = '\n' <;> simp [hc]

theorem renders_copied {start stop : Nat} {w : Text}
    (h : t.Stands start w stop) :
    ∃ ss, copied? (.ofText t) start stop = some ss ∧
      Renders t ss (keptFrom start w) := by
  by_cases hle : stop ≤ start
  · have hw : w = [] := by
      have hstop := h.stop_eq
      exact Text.byteLength_eq_zero.1 (by omega)
    subst hw
    exact ⟨[], by simp [copied?, hle], rfl, fun p => rfl⟩
  · obtain ⟨q, hq, -⟩ := h.position?
    refine ⟨[.copied q w], by simp [copied?, hle, hq, Text.slice?_eq_some.2 h],
      ?_, ?_⟩
    · simp [Stretch.text, itemText_keptFrom]
    · intro p
      simp [Stretch.mappingsFrom, Stretch.mappings, characterMappings_eq h hq]

theorem renders_placed {s : Splice}
    (h : t.Stands s.span.start [] s.span.start) :
    ∃ ss, placed? (.ofText t) s = some ss ∧ Renders t ss [.brought s] := by
  obtain ⟨q, hq, -⟩ := h.position?
  by_cases hempty : s.text.isEmpty = true
  · have htext : s.text = [] := by simpa using hempty
    refine ⟨[], by simp [placed?, htext],
      by simp [itemText, Item.text, htext], ?_⟩
    intro p
    simp [Stretch.mappingsFrom, itemMappings, Item.mappings,
      Item.isMapped, htext]
  · refine ⟨[.placed q s.text], by simp [placed?, hempty, hq],
      by simp [Stretch.text, itemText, Item.text], ?_⟩
    intro p
    simp [Stretch.mappingsFrom, Stretch.mappings, itemMappings, Item.mappings,
      Item.isMapped, hempty, Item.origin, hq]

/-- What a row of splices, the first one taken apart, comes to from the offset
where it starts. -/
theorem items_cons {s : Splice} {rest : List Splice} {v : Text} (hs : s.Fits t)
    (hrest : ∀ r ∈ rest, s.span.stop ≤ r.span.start)
    (hv : t.Stands s.span.start v t.byteLength) :
    ∃ v', t.Stands s.span.stop v' t.byteLength ∧
      items (s :: rest) s.span.start v = .brought s ::
        items rest s.span.stop v' := by
  cases hinsert : s.isInsert with
  | true =>
      rw [Splice.span_of_isInsert hinsert]
      exact ⟨v, hv, items_insert hinsert v⟩
  | false =>
      obtain ⟨u, hu⟩ := hs.cuts.stands
      obtain ⟨v', hv'⟩ := hu.right.between (Text.stands_self t).right hu.stop_le
      obtain rfl : v = u ++ v' := hv.unique (hu.append hv')
      exact ⟨v', hv', items_range hinsert (hs.nonempty hinsert)
        hu.stop_eq hrest⟩

/-- What a row of splices comes to: the text up to the first one is kept, then
comes what it brings in, and from where it stops the row goes on. -/
theorem items_row {s : Splice} {rest : List Splice} {cursor : Nat} {w : Text}
    (hs : s.Fits t) (hrest : ∀ r ∈ rest, s.span.stop ≤ r.span.start)
    (hw : t.Stands cursor w t.byteLength) (hle : cursor ≤ s.span.start) :
    ∃ u v, t.Stands cursor u s.span.start ∧
      t.Stands s.span.stop v t.byteLength ∧
      items (s :: rest) cursor w = keptFrom cursor u ++
        .brought s :: items rest s.span.stop v := by
  obtain ⟨u, hu⟩ := hw.left.between (Text.isBoundary_iff.1 hs.cuts.2.1) hle
  obtain ⟨v, hv⟩ := hu.right.between (Text.stands_self t).right hu.stop_le
  obtain rfl : w = u ++ v := hw.unique (hu.append hv)
  obtain ⟨v', hv', hitems⟩ := items_cons hs hrest hv
  refine ⟨u, v', hu, hv', ?_⟩
  rw [items_append, ← hu.stop_eq, hitems]
  intro r hr
  rw [← hu.stop_eq]
  rcases List.mem_cons.1 hr with rfl | hr
  · exact Nat.le_refl _
  · exact Nat.le_trans hs.cuts.1 (hrest r hr)

/-- Splices in a row are rendered to their items, by induction on the row: each
step puts out the text up to the next splice and then the splice. -/
theorem renders_stretchesFrom {splices : List Splice}
    (hfits : ∀ s ∈ splices, s.Fits t)
    (hrow : splices.Pairwise fun a b => a.span.stop ≤ b.span.start)
    {cursor : Nat} {w : Text} (hw : t.Stands cursor w t.byteLength)
    (hcursor : ∀ s ∈ splices, cursor ≤ s.span.start) :
    ∃ ss, stretchesFrom? (.ofText t) cursor splices = some ss ∧
      Renders t ss (items splices cursor w) := by
  induction splices generalizing cursor w with
  | nil =>
      have hitems : items [] cursor (w ++ []) =
          keptFrom cursor w ++ items [] (cursor + w.byteLength) [] :=
        items_append (by simp)
      have hnil : items [] (cursor + w.byteLength) [] = [] := rfl
      rw [List.append_nil, hnil, List.append_nil] at hitems
      rw [hitems]
      exact renders_copied hw
  | cons s rest ih =>
      obtain ⟨hstop, hrow⟩ := List.pairwise_cons.1 hrow
      have hs : s.Fits t := hfits s (by simp)
      have hle : cursor ≤ s.span.start := hcursor s (by simp)
      obtain ⟨u, v, hu, hv, hitems⟩ := items_row hs hstop hw hle
      obtain ⟨before, hbefore, hrenders⟩ := renders_copied hu
      obtain ⟨own, hown, hrenders'⟩ := renders_placed hu.right
      obtain ⟨after, hafter, hrenders''⟩ :=
        ih (fun r hr => hfits r (by simp [hr])) hrow hv hstop
      have hmax : max cursor s.span.stop = s.span.stop :=
        Nat.max_eq_right (Nat.le_trans hle hs.cuts.1)
      refine ⟨before ++ own ++ after,
        by simp [stretchesFrom?, hbefore, hown, hmax, hafter], ?_⟩
      rw [hitems]
      simpa using (hrenders.append hrenders').append hrenders''

/-- **A sound draft is rendered to its items.**  Rendering sorts the splices,
walks a cursor over them and cuts the text in stretches; what comes of it is a
matter of each offset alone. -/
theorem Sound.render? {d : Draft} (h : d.Sound) :
    d.render? = some ⟨d.intro ++ itemText (items d.splices 0 d.text) ++ d.outro,
      itemMappings d.text (Position.origin.after d.intro)
        (items d.splices 0 d.text)⟩ := by
  have hmem : ∀ {s}, s ∈ Splice.ordered d.splices → s ∈ d.splices := fun hs =>
    (sortBy_perm Splice.atMost d.splices).mem_iff.1 hs
  obtain ⟨ss, hss, htext, hmappings⟩ :=
    renders_stretchesFrom (fun s hs => h.fits s (hmem hs)) h.ordered
      (Text.stands_self d.text) (fun s _ => Nat.zero_le _)
  rw [items_ordered] at htext hmappings
  simp only [Draft.render?, stretches?, hss, Option.map_some, List.flatMap_cons,
    List.flatMap_append, htext, Stretch.mappingsFrom, mappingsFrom_append,
    hmappings, Stretch.mappings, Stretch.text, List.nil_append,
    List.flatMap_nil, List.append_nil, List.append_assoc]

end Draft

end TemplateJsx
