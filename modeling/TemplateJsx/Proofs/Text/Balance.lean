import TemplateJsx.Proofs.Text.Blank

/-!
# Balanced text

A scan from the left keeps what is open on a stack: braces, parentheses, square
brackets and fragment tags.  At each place the longest tag is tried first, and a
text is `Balanced` when everything that it closes is what was opened last and
nothing is left open.

A tag may stand across the seam of two texts, so a scan of both is not a scan of
one and then of the other.  Here the scan is taken apart into steps of one
character each, with a `Mark` for how much of a tag has been read
(`stackAfter_eq_feedAll`).  Steps do compose: `Feeds w S S'` says that a text
leads from one stack to another and ends clear of any tag, `Reaches w S S'` that
it leads there.  Whatever lies deeper in the stack is left alone
(`feedAll_append_stack`), so a balanced text leads from every stack back to it.
-/

namespace TemplateJsx.Text

/-! ## The scan -/

/-- Closes what was opened last, if it was opened by this character. -/
def close? (opening : Char) : List Char → Option (List Char)
  | [] => none
  | top :: stack => if top = opening then some stack else none

/-- What a character that is no part of a fragment tag does to the stack. -/
def bracket? (c : Char) (stack : List Char) : Option (List Char) :=
  match c with
  | '{' | '(' | '[' => some (c :: stack)
  | '}' => close? '{' stack
  | ')' => close? '(' stack
  | ']' => close? '[' stack
  | _ => some stack

/-- The stack after a text, if all that the text closes was open.  At each place
the longest tag is tried first, so that the angle of a tag is never taken for a
character of its own. -/
def stackAfter : List Char → Text → Option (List Char)
  | stack, '<' :: '/' :: '>' :: rest =>
    (close? '<' stack).bind (stackAfter · rest)
  | stack, '<' :: '>' :: rest => stackAfter ('<' :: stack) rest
  | stack, c :: rest => (bracket? c stack).bind (stackAfter · rest)
  | stack, [] => some stack

/-- Everything that is opened is closed in turn, and nothing else.  This is what
makes generated code readable at all, though not what makes it right. -/
def Balanced (w : Text) : Prop := stackAfter [] w = some []

instance (w : Text) : Decidable w.Balanced :=
  inferInstanceAs (Decidable (stackAfter [] w = some []))

/-! ## Single steps -/

/-- How much of a fragment tag has been read. -/
inductive Mark where
  | clear
  | angle
  | slash

def begin? (stack : List Char) (c : Char) : Option (Mark × List Char) :=
  if c = '<' then some (.angle, stack)
  else (bracket? c stack).map (Prod.mk .clear)

/-- What a character does to the mark and the stack.  A character that does not
go on with a tag is taken as if nothing had been read of one. -/
def feed : Mark × List Char → Char → Option (Mark × List Char)
  | (.clear, stack), c => begin? stack c
  | (.angle, stack), c =>
    if c = '>' then some (.clear, '<' :: stack)
    else if c = '/' then some (.slash, stack) else begin? stack c
  | (.slash, stack), c =>
    if c = '>' then (close? '<' stack).map (Prod.mk .clear) else begin? stack c

/-- One character after another.  Unlike the stack after a text this can be
taken apart at any seam. -/
def feedAll (state : Mark × List Char) (w : Text) : Option (Mark × List Char) :=
  w.foldlM feed state

theorem feedAll_append (state : Mark × List Char) (v w : Text) :
    feedAll state (v ++ w) = (feedAll state v).bind fun state =>
      feedAll state w :=
  List.foldlM_append

theorem feedAll_cons (state : Mark × List Char) (c : Char) (w : Text) :
    feedAll state (c :: w) = (feed state c).bind fun state => feedAll state w :=
  List.foldlM_cons

/-- A character that cannot go on with a tag makes no difference between
marks. -/
theorem feed_of_ne (m : Mark) (stack : List Char) {c : Char} (hangle : c ≠ '>')
    (hslash : c ≠ '/') :
    feed (m, stack) c = begin? stack c := by
  cases m with
  | clear => rfl
  | angle => simp only [feed, hangle, hslash, if_false]
  | slash => simp only [feed, hangle, if_false]

/-- Where no tag goes on, what has been read of one is forgotten. -/
theorem feedAll_angle {stack : List Char} {rest : Text}
    (hangle : ∀ r, rest ≠ '>' :: r) (hslash : ∀ r, rest ≠ '/' :: '>' :: r) :
    (feedAll (.angle, stack) rest).map Prod.snd =
      (feedAll (.clear, stack) rest).map Prod.snd := by
  cases rest with
  | nil => rfl
  | cons c rest =>
      have hc : c ≠ '>' := fun h => hangle rest (congrArg (· :: rest) h)
      by_cases hc' : c = '/'
      · subst hc'
        change (feedAll (.slash, stack) rest).map Prod.snd =
          (feedAll (.clear, stack) rest).map Prod.snd
        cases rest with
        | nil => rfl
        | cons d rest =>
            have hd : d ≠ '>' :=
              fun h => hslash rest (congrArg (fun x => '/' :: x :: rest) h)
            have hfeed : feed (.slash, stack) d = begin? stack d := if_neg hd
            rw [feedAll_cons, hfeed]
            rfl
      · rw [feedAll_cons, feed_of_ne .angle stack hc hc']
        rfl

/-- **The scan goes step by step.**  A tag is read at once by the scan and in
two or three steps here; between them the mark says how much of it has been
read. -/
theorem stackAfter_eq_feedAll (stack : List Char) (w : Text) :
    stackAfter stack w = (feedAll (.clear, stack) w).map Prod.snd := by
  fun_induction stackAfter stack w with
  | case1 stack rest ih =>
      have hfeed : feedAll (.clear, stack) ('<' :: '/' :: '>' :: rest) =
          ((close? '<' stack).map (Prod.mk .clear)).bind fun state =>
            feedAll state rest := rfl
      rw [hfeed]
      cases close? '<' stack with
      | none => rfl
      | some next => exact ih next
  | case2 stack rest ih => exact ih
  | case3 stack c rest hslash hangle ih =>
      by_cases hc : c = '<'
      · subst hc
        have hbracket : bracket? '<' stack = some stack := rfl
        have hfeed : feedAll (.clear, stack) ('<' :: rest) =
            feedAll (.angle, stack) rest := rfl
        rw [hbracket, hfeed, feedAll_angle]
        · exact ih stack
        · intro r hr
          exact hangle r rfl hr
        · intro r hr
          exact hslash r rfl hr
      · have hfeed : feed (.clear, stack) c =
            (bracket? c stack).map (Prod.mk .clear) := if_neg hc
        rw [feedAll_cons, hfeed]
        cases bracket? c stack with
        | none => rfl
        | some next => exact ih next
  | case4 stack => rfl

/-! ## What lies deeper in the stack -/

theorem close?_append {opening : Char} {stack next : List Char}
    (below : List Char) (h : close? opening stack = some next) :
    close? opening (stack ++ below) = some (next ++ below) := by
  cases stack with
  | nil => cases h
  | cons top stack =>
      by_cases htop : top = opening
      · simp only [close?, htop, if_true, Option.some.injEq,
          List.cons_append] at h ⊢
        rw [h]
      · simp [close?, htop] at h

theorem bracket?_append {c : Char} {stack next : List Char} (below : List Char)
    (h : bracket? c stack = some next) :
    bracket? c (stack ++ below) = some (next ++ below) := by
  unfold bracket? at h ⊢
  split at h
  · cases h
    rfl
  · cases h
    rfl
  · cases h
    rfl
  · exact close?_append below h
  · exact close?_append below h
  · exact close?_append below h
  · cases h
    rfl

theorem begin?_append {m : Mark} {c : Char} {stack next : List Char}
    (below : List Char) (h : begin? stack c = some (m, next)) :
    begin? (stack ++ below) c = some (m, next ++ below) := by
  unfold begin? at h ⊢
  by_cases hc : c = '<'
  · rw [if_pos hc] at h ⊢
    cases h
    rfl
  · rw [if_neg hc] at h ⊢
    obtain ⟨after, hafter, heq⟩ := Option.map_eq_some_iff.1 h
    cases heq
    rw [bracket?_append below hafter]
    rfl

theorem feed_append {m m' : Mark} {c : Char} {stack next : List Char}
    (below : List Char) (h : feed (m, stack) c = some (m', next)) :
    feed (m, stack ++ below) c = some (m', next ++ below) := by
  cases m with
  | clear => exact begin?_append below h
  | angle =>
      simp only [feed] at h ⊢
      by_cases hangle : c = '>'
      · rw [if_pos hangle] at h ⊢
        cases h
        rfl
      · rw [if_neg hangle] at h ⊢
        by_cases hslash : c = '/'
        · rw [if_pos hslash] at h ⊢
          cases h
          rfl
        · rw [if_neg hslash] at h ⊢
          exact begin?_append below h
  | slash =>
      simp only [feed] at h ⊢
      by_cases hangle : c = '>'
      · rw [if_pos hangle] at h ⊢
        obtain ⟨after, hafter, heq⟩ := Option.map_eq_some_iff.1 h
        cases heq
        rw [close?_append below hafter]
        rfl
      · rw [if_neg hangle] at h ⊢
        exact begin?_append below h

/-- **Whatever lies deeper in the stack is left alone.**  So a text that is
balanced by itself can be put anywhere, and lowering a block may be looked at
without the code around it. -/
theorem feedAll_append_stack {m m' : Mark} {w : Text} {stack next : List Char}
    (below : List Char) (h : feedAll (m, stack) w = some (m', next)) :
    feedAll (m, stack ++ below) w = some (m', next ++ below) := by
  induction w generalizing m stack with
  | nil =>
      cases h
      rfl
  | cons c w ih =>
      rw [feedAll_cons] at h ⊢
      obtain ⟨⟨mark, after⟩, hfeed, hrest⟩ := Option.bind_eq_some_iff.1 h
      rw [feed_append below hfeed]
      exact ih hrest

/-! ## From stack to stack -/

/-- The text leads from one stack to another. -/
def Reaches (w : Text) (stack next : List Char) : Prop :=
  ∃ m, feedAll (.clear, stack) w = some (m, next)

/-- The text leads from one stack to another and ends clear of any tag, so that
whatever follows can be scanned on its own. -/
def Feeds (w : Text) (stack next : List Char) : Prop :=
  feedAll (.clear, stack) w = some (.clear, next)

section Stacks

variable {v w : Text} {stack next after : List Char}

theorem Feeds.append (hv : Feeds v stack next) (hw : Feeds w next after) :
    Feeds (v ++ w) stack after := by
  unfold Feeds at hv ⊢
  rw [feedAll_append, hv]
  exact hw

theorem Feeds.append_reaches (hv : Feeds v stack next)
    (hw : Reaches w next after) : Reaches (v ++ w) stack after := by
  obtain ⟨m, hm⟩ := hw
  refine ⟨m, ?_⟩
  rw [feedAll_append, hv]
  exact hm

def Breaks (w : Text) : Prop := ∃ c rest, w = c :: rest ∧ c ≠ '>' ∧ c ≠ '/'

theorem Reaches.append_feeds (hv : Reaches v stack next)
    (hw : Feeds w next after) (hbreaks : Breaks w) :
    Feeds (v ++ w) stack after := by
  obtain ⟨m, hm⟩ := hv
  obtain ⟨c, rest, rfl, hangle, hslash⟩ := hbreaks
  unfold Feeds at hw ⊢
  rw [feedAll_append, hm, Option.bind_some, feedAll_cons,
    feed_of_ne m next hangle hslash]
  exact hw

end Stacks

/-! ## Balanced texts lead back -/

section Texts

variable {v w : Text}

/-- The text leads from every stack back to it and ends clear of any tag.  Such
texts can be put side by side, which balanced texts in general cannot: `<` and
`>` are balanced, and together they open a tag. -/
def Closed (w : Text) : Prop := ∀ stack, Feeds w stack stack

theorem Balanced.reaches (h : w.Balanced) (stack : List Char) :
    Reaches w stack stack := by
  unfold Balanced at h
  rw [stackAfter_eq_feedAll] at h
  obtain ⟨⟨m, next⟩, hfeed, hnext⟩ := Option.map_eq_some_iff.1 h
  obtain rfl : next = [] := hnext
  exact ⟨m, feedAll_append_stack stack hfeed⟩

theorem Closed.balanced (h : w.Closed) : w.Balanced := by
  unfold Balanced
  rw [stackAfter_eq_feedAll, h []]
  rfl

theorem Closed.append (hv : v.Closed) (hw : w.Closed) : (v ++ w).Closed :=
  fun stack => (hv stack).append (hw stack)

theorem closed_nil : Closed [] := fun _ => rfl

theorem Closed.flatMap {α : Type} {code : α → Text} {values : List α}
    (h : ∀ a ∈ values, (code a).Closed) :
    Closed (values.flatMap code) := by
  induction values with
  | nil => exact closed_nil
  | cons a values ih =>
      obtain ⟨ha, hvalues⟩ := List.forall_mem_cons.1 h
      exact ha.append (ih hvalues)

theorem begin?_mark {m : Mark} {c : Char} {stack next : List Char}
    (hc : c ≠ '<') (h : begin? stack c = some (m, next)) : m = .clear := by
  unfold begin? at h
  rw [if_neg hc] at h
  obtain ⟨after, -, heq⟩ := Option.map_eq_some_iff.1 h
  cases heq
  rfl

theorem feed_mark {m m' : Mark} {c : Char} {stack next : List Char}
    (hc : c = '>' ∨ c = '}') (h : feed (m, stack) c = some (m', next)) :
    m' = .clear := by
  rcases hc with rfl | rfl
  · cases m with
    | clear => exact begin?_mark (by decide) h
    | angle =>
        cases h
        rfl
    | slash =>
        obtain ⟨after, -, heq⟩ := Option.map_eq_some_iff.1 h
        cases heq
        rfl
  · rw [feed_of_ne m stack (by decide) (by decide)] at h
    exact begin?_mark (by decide) h

/-- A balanced text that ends in a bracket ends clear of any tag. -/
theorem Balanced.closed_of_bracket {c : Char} (h : Balanced (w ++ [c]))
    (hc : c = '>' ∨ c = '}') :
    Closed (w ++ [c]) := by
  intro stack
  obtain ⟨m, hm⟩ := h.reaches stack
  have hlast := hm
  rw [feedAll_append] at hlast
  obtain ⟨⟨mark, after⟩, -, hlast⟩ := Option.bind_eq_some_iff.1 hlast
  rw [feedAll_cons] at hlast
  obtain ⟨⟨mark', after'⟩, hfeed, hdone⟩ := Option.bind_eq_some_iff.1 hlast
  cases hdone
  rw [feed_mark hc hfeed] at hm
  exact hm

theorem feedAll_mark {m : Mark} {stack next : List Char} (hangle : '<' ∉ w)
    (h : feedAll (.clear, stack) w = some (m, next)) : m = .clear := by
  induction w generalizing stack with
  | nil =>
      cases h
      rfl
  | cons c w ih =>
      rw [List.mem_cons, not_or] at hangle
      rw [feedAll_cons] at h
      obtain ⟨⟨mark, after⟩, hfeed, hrest⟩ := Option.bind_eq_some_iff.1 h
      rw [begin?_mark (Ne.symm hangle.1) hfeed] at hrest
      exact ih hangle.2 hrest

/-- A balanced text without the first character of a tag ends clear of any. -/
theorem Balanced.closed_of_not_mem (h : w.Balanced) (hangle : '<' ∉ w) :
    w.Closed := by
  intro stack
  obtain ⟨m, hm⟩ := h.reaches stack
  rw [feedAll_mark hangle hm] at hm
  exact hm

/-! ## Characters that the scan passes over -/

/-- A character that is neither a bracket nor part of a tag, and so changes
nothing wherever it stands. -/
def isNeutral (c : Char) : Bool :=
  ['<', '>', '/', '{', '}', '(', ')', '[', ']'].all fun d => c != d

def Neutral (w : Text) : Prop := ∀ c ∈ w, isNeutral c = true

theorem feed_neutral {c : Char} (h : isNeutral c = true) (m : Mark)
    (stack : List Char) :
    feed (m, stack) c = some (.clear, stack) := by
  simp only [isNeutral, List.all_cons, List.all_nil, Bool.and_true,
    Bool.and_eq_true, bne_iff_ne] at h
  obtain ⟨hless, hgreater, hslash, hrest⟩ := h
  have hbracket : bracket? c stack = some stack := by
    unfold bracket?
    split <;> simp_all
  rw [feed_of_ne m stack hgreater hslash, begin?, if_neg hless, hbracket]
  rfl

theorem Neutral.feedAll {w : Text} (h : Neutral w) (stack : List Char) :
    Text.feedAll (.clear, stack) w = some (.clear, stack) := by
  induction w with
  | nil => rfl
  | cons c w ih =>
      obtain ⟨hc, hw⟩ := List.forall_mem_cons.1 h
      rw [feedAll_cons, feed_neutral hc]
      exact ih hw

theorem Neutral.closed (h : Neutral w) : w.Closed :=
  fun stack => h.feedAll stack

/-- Neutral characters after a text lead nowhere else. -/
theorem Reaches.append_neutral {stack next : List Char}
    (hv : Reaches v stack next) (hw : Neutral w) :
    Reaches (v ++ w) stack next := by
  cases w with
  | nil => rwa [List.append_nil]
  | cons c w =>
      obtain ⟨hc, hw⟩ := List.forall_mem_cons.1 hw
      obtain ⟨m, hm⟩ := hv
      refine ⟨.clear, ?_⟩
      rw [feedAll_append, hm, Option.bind_some, feedAll_cons, feed_neutral hc]
      exact Neutral.feedAll hw next

theorem Blank.neutral (h : Blank w) : Neutral w := by
  intro c hc
  obtain ⟨n, hn, rfl⟩ := exists_blankCode (h c hc)
  exact (show ∀ n ∈ blankCodes, isNeutral (Char.ofNat n) =
    true by decide +kernel) n hn

end Texts

end TemplateJsx.Text
