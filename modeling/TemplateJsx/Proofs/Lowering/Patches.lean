import TemplateJsx.Proofs.Draft.Patching
import TemplateJsx.Proofs.Lowering.Scripts

/-!
# Scripts patch the text into the translation

The splices on a tag make of it the code that the translation asks for.  The
parts of a block lie in a row, as do the nodes of a fragment, so by induction
the scripts of all blocks of a tree, brought into the order of the text, patch
the text of the tree into its translation (`Markup.FragmentOf.Sound.lowers`).
-/

namespace TemplateJsx

open Markup

variable {t : Text}

theorem Text.Stands.cut_eq {s e : Nat} {w : Text} (h : t.Stands s w e) :
    t.cut s e = w := by
  rw [Text.cut, Text.slice?_eq_some.2 h]
  rfl

/-! ## Tags -/

theorem patched_brace {s : Nat} {tag : Span} {w : Text}
    (h : t.Stands s (w ++ ['}']) tag.stop) (code : Text) :
    Patched t s [.overwrite (braceOf tag) code] (t.cut s (tag.stop - 1) ++ code)
      tag.stop := by
  obtain ⟨hw, hbrace⟩ := h.split
  have hsize : Text.byteLength ['}'] = 1 := by decide
  have hstart : s + w.byteLength = tag.stop - 1 := by
    have := hbrace.stop_eq
    omega
  rw [hstart] at hw hbrace
  have hpatched :=
    Patched.copy hw (.overwrite hbrace (by simp) code (.done hbrace.right))
  rwa [List.append_nil, ← hw.cut_eq] at hpatched

theorem patched_condition {F : Type} {opening : Text} {a : Arm F}
    (h : ExpressionTag t opening a.tag a.expression) :
    Patched t a.expression.start (conditionScript a) (conditionCode t a)
      a.tag.stop := by
  obtain ⟨x, -, hx⟩ := h.inside
  obtain ⟨w, -, hcloses⟩ := h.closes
  have hpatched :=
    Patched.copy hx (.insert_range rfl (hcloses.lt (by simp)) ")".toList
      (patched_brace hcloses "\x7b<>".toList))
  unfold conditionCode
  rw [hx.cut_eq]
  simp only [List.append_assoc]
  exact hpatched

theorem patched_head {F : Type} {a : Arm F}
    (h : ExpressionTag t "\x7b#if".toList a.tag a.expression) :
    Patched t a.tag.start (headScript a) (headCode t a) a.tag.stop := by
  obtain ⟨g, -, hopens⟩ := h.opens
  exact .overwrite hopens (by simp) _ (patched_condition h)

theorem patched_branch {start stop : Nat}
    (h : t.Stands start "\x7b:else".toList stop) :
    stop = start + 6 ∧ Patched t start (branchScript start)
      "</>\x7d else".toList (start + 6) := by
  have hsize : Text.byteLength "\x7b:else".toList = 6 := by decide
  have hone : Text.byteLength "\x7b".toList = 1 := by decide
  have hone' : Text.byteLength ":".toList = 1 := by decide
  have hstop := h.stop_eq
  rw [hsize] at hstop
  subst hstop
  obtain ⟨hbrace, hrest⟩ :=
    (show t.Stands start ("\x7b".toList ++ (":".toList ++ "else".toList))
      _ from h).split
  obtain ⟨hcolon, hword⟩ := hrest.split
  rw [hone] at hbrace hcolon hword
  rw [hone'] at hcolon hword
  have hkept := Patched.copy hword (.done hword.right)
  have hcode : "</>\x7d ".toList ++ ("else".toList ++ []) =
      "</>\x7d else".toList := by
    decide
  have hpatched :=
    Patched.overwrite hbrace (by simp) "</>\x7d ".toList
      (.remove hcolon (by simp) hkept)
  rw [hcode] at hpatched
  exact ⟨rfl, hpatched⟩

theorem patched_link {F : Type} {a : Arm F} (h : LinkTag t a.tag a.expression) :
    Patched t a.tag.start (linkScript a) (linkCode t a) a.tag.stop := by
  obtain ⟨g, -, htag⟩ := h
  obtain ⟨g', -, hopens⟩ := htag.opens
  obtain ⟨hword, hrest⟩ :=
    (show t.Stands a.tag.start ("\x7b:else".toList ++ (g ++ "if".toList ++ g'))
      a.expression.start by simpa using hopens).split
  obtain ⟨hstop, hbranch⟩ := patched_branch hword
  rw [hstop] at hrest
  have hcode : linkCode t a = "</>\x7d else".toList ++
      (" \x7bif (".toList ++ conditionCode t a) := by
    rw [← List.append_assoc]
    rfl
  rw [hcode]
  exact hbranch.append (.overwrite hrest (by simp) _ (patched_condition htag))

theorem patched_else {F : Type} {c : Clause F}
    (h : WordTag t "\x7b:else".toList c.tag.start c.tag.stop) :
    Patched t c.tag.start (elseScript c) (elseCode t c) c.tag.stop := by
  obtain ⟨w, -, hstands⟩ := h
  obtain ⟨hword, hrest⟩ := hstands.split
  obtain ⟨hstop, hbranch⟩ := patched_branch hword
  rw [hstop] at hrest
  unfold elseCode
  rw [List.append_assoc]
  exact hbranch.append (patched_brace hrest _)

theorem patched_each {F : Type} {b : EachBlock F}
    (h : EachTag t b.tag b.expression b.context b.index b.key) :
    Patched t b.tag.start (eachScript t b) (eachCode t b) b.tag.stop := by
  obtain ⟨g, -, hopens⟩ := h.opens
  obtain ⟨x, -, hx⟩ := h.inside
  obtain ⟨g', g'', hg', -, hjoins⟩ := h.joins
  obtain ⟨-, ⟨u, hu⟩, r, hr⟩ := h.parameters
  have hparameters :=
    Patched.copy hu (.insert_range rfl (hr.lt (by simp)) ") =>".toList
      (patched_brace hr
        (if b.key.isSome then " && <>".toList else " <>".toList)))
  have hpatched := Patched.overwrite hopens (by simp) "\x7b(".toList
    (.copy hx (.overwrite hjoins (by simp) ").map((".toList hparameters))
  unfold eachCode
  rw [hx.cut_eq, hu.cut_eq]
  simp only [List.append_assoc]
  exact hpatched

theorem patched_long {F : Type} {b : AwaitBlock F}
    (h : ExpressionTag t "\x7b#await".toList b.tag b.expression) :
    Patched t b.tag.start
      (promiseScript b ++ [.overwrite (braceOf b.tag) " <>".toList])
      (promiseCode t b ++
        (t.cut b.expression.stop (b.tag.stop - 1) ++ " <>".toList))
      b.tag.stop := by
  obtain ⟨g, -, hopens⟩ := h.opens
  obtain ⟨x, -, hx⟩ := h.inside
  obtain ⟨w, -, hcloses⟩ := h.closes
  have hpatched :=
    Patched.overwrite hopens (by simp) "\x7b() => \x7blet _$$p = (".toList
      (.copy hx (.insert_range rfl (hcloses.lt (by simp)) ");".toList
        (patched_brace hcloses " <>".toList)))
  unfold promiseCode
  rw [hx.cut_eq]
  simp only [List.append_assoc]
  exact hpatched

theorem patched_short {F : Type} {b : AwaitBlock F}
    (h : ShortTag t b.tag b.expression b.value) :
    Patched t b.tag.start
      (promiseScript b ++
        [.overwrite ⟨thenWord t b, b.tag.stop⟩ (attachThen b.value)])
      (promiseCode t b ++
        (t.cut b.expression.stop (thenWord t b) ++ thenCode b.value))
      b.tag.stop := by
  obtain ⟨g, -, hopens⟩ := h.opens
  obtain ⟨x, -, hx⟩ := h.inside
  obtain ⟨-, ⟨g', -, hg'⟩, r, hne, hr⟩ := h.word
  have hthen := Patched.overwrite hr hne (attachThen b.value) (.done hr.right)
  rw [List.append_nil] at hthen
  have hlt : b.expression.stop < b.tag.stop :=
    Nat.lt_of_le_of_lt hg'.le (hr.lt hne)
  have hpatched :=
    Patched.overwrite hopens (by simp) "\x7b() => \x7blet _$$p = (".toList
      (.copy hx (.insert_range rfl hlt ");".toList (.copy hg' hthen)))
  unfold promiseCode
  rw [hx.cut_eq, hg'.cut_eq]
  simp only [List.append_assoc]
  exact hpatched

theorem patched_whole {x : Span} (h : t.Cuts x) (hlt : x.start < x.stop)
    {s : Splice} (hs : s.isInsert = false) (hspan : s.span = x) :
    Patched t x.start [s] s.text x.stop := by
  have hpatched :=
    Patched.range hs hspan h hlt (.done (Text.isBoundary_iff.1 h.2.2))
  rwa [List.append_nil] at hpatched

theorem Markup.ValueTag.lt {opening : Text} {tag : Span}
    {value : Option Binding} (h : ValueTag t opening tag value) :
    tag.start < tag.stop := by
  obtain ⟨m, e, hopens, hvalue, w, -, hcloses⟩ := h.opens
  have h₁ := hopens.le
  have h₂ : m ≤ e := (hvalue.cuts hopens.right).1.1
  have h₃ := hcloses.lt (by simp)
  omega

/-! ## Parts of a block -/

namespace Part

variable {F : Type}

/-- The splices on a tag make its code of it.  There is one such fact for each
kind of tag, and a body has none, since lowering leaves it to its own blocks. -/
def Patches (t : Text) : Part F → Prop
  | tag span script code => Patched t span.start script code span.stop
  | body _ => True

def record (recordOf : F → List Splice) : Part F → List Splice
  | tag _ script _ => script
  | body f => recordOf f

/-- The splices of the tags may come first.  Lowering a block records those of
all its tags before the walk comes to its bodies. -/
theorem flatMap_record_perm (recordOf : F → List Splice)
    (parts : List (Part F)) :
    (parts.flatMap (record recordOf)).Perm
      (parts.flatMap script ++ (parts.flatMap bodies).flatMap recordOf) := by
  induction parts with
  | nil => exact .refl _
  | cons p parts ih =>
      cases p with
      | tag span own code =>
          simp only [List.flatMap_cons, record, script, bodies, List.nil_append,
            List.append_assoc]
          exact ih.append_left own
      | body f =>
          simp only [List.flatMap_cons, record, script, bodies, List.nil_append,
            List.singleton_append]
          exact (ih.append_left _).trans (List.perm_append_comm_assoc _ _ _)

end Part

namespace Markup.Block

variable {b : Block Fragment}

theorem Tagged.shape {c : AwaitBlock Fragment} (h : (await c).Tagged t) :
    (∃ f tag, c.pending = some f ∧ c.thenTag = some tag) ∨
      (c.pending = none ∧ c.thenTag = none) := by
  obtain ⟨h, -⟩ := h
  cases hpending : c.pending <;> cases hthen : c.thenTag <;> simp_all

theorem flatMap_bodies_layout (h : b.Tagged t) :
    (b.layout t).flatMap Part.bodies = b.bodies := by
  cases b with
  | conditional c =>
      cases hotherwise : c.otherwise <;>
        simp [layout, hotherwise, overwritten, Part.bodies, bodies,
          IfBlock.bodies, List.flatMap_assoc, List.map_eq_flatMap]
  | each c =>
      cases hfallback : c.fallback <;>
        simp [layout, hfallback, overwritten, Part.bodies, bodies,
          EachBlock.bodies]
  | await c =>
      rcases h.shape with ⟨f, tag, hpending, hthen⟩ | ⟨hpending, hthen⟩ <;>
        cases hrescue : c.rescue <;>
        simp [layout, thenParts, hpending, hthen, hrescue, overwritten,
          Part.bodies, bodies, AwaitBlock.bodies]

theorem map_span_layout (h : b.Tagged t) :
    (b.layout t).map Part.span = b.parts ++ [⟨b.closing, b.span.stop⟩] := by
  cases b with
  | conditional c =>
      cases hotherwise : c.otherwise <;>
        simp [layout, hotherwise, overwritten, Part.span, parts,
          List.map_flatMap]
  | each c =>
      cases hfallback : c.fallback <;>
        simp [layout, hfallback, overwritten, Part.span, parts]
  | await c =>
      rcases h.shape with ⟨f, tag, hpending, hthen⟩ | ⟨hpending, hthen⟩ <;>
        cases hrescue : c.rescue <;>
        simp [layout, thenParts, hpending, hthen, hrescue, overwritten,
          Part.span, parts]

/-- The parts of a block make up its code, in the order in which they stand in
the text. -/
theorem flatMap_code_layout (h : b.Tagged t) (code : Fragment → Text) :
    (b.layout t).flatMap (Part.code code) = blockCode t code b := by
  cases b with
  | conditional c =>
      simp only [layout, blockCode, ifCode, overwritten, List.flatMap_cons,
        List.flatMap_append, List.flatMap_assoc, List.flatMap_nil, Part.code,
        List.append_nil, List.append_assoc]
  | each c =>
      cases hfallback : c.fallback <;>
        simp only [layout, hfallback, blockCode, loopCode, overwritten,
          List.flatMap_cons, List.flatMap_nil, Option.toList_none,
          Option.toList_some, Part.code, List.append_nil, List.append_assoc]
  | await c =>
      rcases h.shape with ⟨f, tag, hpending, hthen⟩ | ⟨hpending, hthen⟩ <;>
        simp only [layout, thenParts, hpending, hthen, blockCode, awaitCode,
          overwritten, List.flatMap_cons, List.flatMap_append,
          List.flatMap_assoc, List.flatMap_nil, Part.code, List.append_nil,
          List.append_assoc] <;>
        rfl

theorem Tagged.patches_then {c : AwaitBlock Fragment} (h : (await c).Tagged t) :
    ∀ p ∈ thenParts t c, p.Patches t := by
  rcases h.shape with ⟨f, tag, hpending, hthen⟩ | ⟨hpending, hthen⟩
  · simp only [Tagged, hpending, hthen] at h
    obtain ⟨⟨hopens, hvalue⟩, -⟩ := h
    simp only [thenParts, hpending, hthen, List.forall_mem_cons,
      List.not_mem_nil, false_implies, implies_true, and_true]
    exact ⟨patched_long hopens, trivial,
      .insert_range rfl hvalue.lt
        _ (patched_whole hvalue.cuts.1 hvalue.lt rfl rfl)⟩
  · simp only [Tagged, hpending, hthen] at h
    simp only [thenParts, hpending, hthen, List.forall_mem_singleton]
    exact patched_short h.1

/-- The splices on each tag of a block make its code of it. -/
theorem Tagged.patches (h : b.Tagged t)
    (hcloses : ClosingTag t b.keyword b.closing b.span.stop) :
    ∀ p ∈ b.layout t, p.Patches t := by
  have hclosing :
      ∀ code, (overwritten ⟨b.closing, b.span.stop⟩ code : Part
        Fragment).Patches t :=
    fun code => patched_whole hcloses.cuts hcloses.lt rfl rfl
  cases b with
  | conditional c =>
      obtain ⟨hhead, hlinks, hotherwise⟩ := h
      simp only [layout, List.forall_mem_cons, List.forall_mem_append,
        List.forall_mem_flatMap, Option.mem_toList, List.not_mem_nil,
        false_implies, implies_true, and_true]
      refine ⟨patched_head hhead, trivial, ⟨?_, ?_⟩, hclosing _⟩
      · intro a ha
        exact ⟨patched_link (hlinks a ha), trivial⟩
      · intro e he
        exact ⟨patched_else (hotherwise e he), trivial⟩
  | each c =>
      obtain ⟨htag, hfallback⟩ := h
      simp only [layout, List.forall_mem_cons]
      refine ⟨patched_each htag, trivial, ?_⟩
      split
      · exact List.forall_mem_singleton.2 (hclosing _)
      · rename_i e he
        have hword := hfallback e he
        simp only [List.forall_mem_cons, List.not_mem_nil, false_implies,
          implies_true, and_true]
        exact ⟨patched_whole hword.cuts hword.lt rfl rfl, trivial,
          patched_whole hcloses.cuts hcloses.lt rfl rfl⟩
  | await c =>
      have hrescue := h.2
      simp only [layout, List.forall_mem_cons, List.forall_mem_append,
        List.forall_mem_flatMap, Option.mem_toList, List.not_mem_nil,
        false_implies, implies_true, and_true]
      refine ⟨?_, trivial, ?_, hclosing _⟩
      · exact h.patches_then
      · intro r hr
        exact ⟨patched_whole (hrescue r hr).cuts.1 (hrescue r hr).lt rfl
          rfl, trivial⟩

end Markup.Block

/-! ## Trees -/

/-- Splices that make the code of a span of the text once they are brought into
its order. -/
def Lowers (t : Text) (x : Span) (splices : List Splice) (code : Text) : Prop :=
  ∃ ordered, ordered.Perm splices ∧ Patched t x.start ordered code x.stop

namespace Lowers

variable {α : Type} {spanOf : α → Span} {scriptOf : α → List Splice}
  {codeOf : α → Text} {values : List α} {s e : Nat}

theorem row (hs : t.Stands s [] s)
    (h : ∀ a ∈ values, Lowers t (spanOf a) (scriptOf a) (codeOf a))
    (hrow : Abut s (values.map spanOf) e) :
    Lowers t ⟨s, e⟩ (values.flatMap scriptOf) (values.flatMap codeOf) := by
  induction values generalizing s with
  | nil =>
      obtain rfl : e = s := hrow
      exact ⟨[], .nil, .done hs⟩
  | cons a values ih =>
      obtain ⟨rfl, hrow⟩ := hrow
      obtain ⟨⟨own, hown, hpatched⟩, h⟩ := List.forall_mem_cons.1 h
      obtain ⟨rest, hrest, hrestPatched⟩ :=
        ih (Text.isBoundary_iff.1 hpatched.bounds.1.2.2) h hrow
      exact ⟨own ++ rest, hown.append hrest, hpatched.append hrestPatched⟩

theorem weave (hs : t.Stands s [] s) (he : t.Stands e [] e)
    (h : ∀ a ∈ values, Lowers t (spanOf a) (scriptOf a) (codeOf a))
    (hrow : Ascend s (values.map spanOf) e) :
    Lowers t ⟨s, e⟩ (values.flatMap scriptOf)
      (TemplateJsx.weave t s (values.map fun a => (spanOf a, codeOf a)) e) := by
  induction values generalizing s with
  | nil =>
      obtain ⟨u, hu⟩ := hs.between he hrow
      have hpatched := Patched.copy hu (.done he)
      rw [List.append_nil, ← hu.cut_eq] at hpatched
      exact ⟨[], .nil, hpatched⟩
  | cons a values ih =>
      obtain ⟨hle, hrow⟩ := hrow
      obtain ⟨⟨own, hown, hpatched⟩, h⟩ := List.forall_mem_cons.1 h
      have hcuts := hpatched.bounds.1
      obtain ⟨rest, hrest, hrestPatched⟩ :=
        ih (Text.isBoundary_iff.1 hcuts.2.2) h hrow
      obtain ⟨u, hu⟩ := hs.between (Text.isBoundary_iff.1 hcuts.2.1) hle
      refine ⟨own ++ rest, hown.append hrest, ?_⟩
      rw [List.map_cons, TemplateJsx.weave, hu.cut_eq, List.append_assoc]
      exact .copy hu (hpatched.append hrestPatched)

end Lowers

namespace Markup

def Node.script (t : Text) (n : Node) : List Splice :=
  n.blocks.flatMap (Block.script t)

/-- The splices of all blocks of a fragment, in the order of a walk. -/
def FragmentOf.script (t : Text) (f : Fragment) : List Splice :=
  f.blocks.flatMap (Block.script t)

theorem FragmentOf.script_eq (t : Text) (f : Fragment) :
    f.script t = f.nodes.flatMap (Node.script t) := by
  rw [FragmentOf.script, FragmentOf.blocks_eq, List.flatMap_assoc]
  rfl

theorem Node.script_block (t : Text) (b : Block Fragment) :
    (Node.block b).script t = b.script t ++
      b.bodies.flatMap (FragmentOf.script t) := by
  rw [Node.script, Node.blocks_block, List.flatMap_cons, List.flatMap_assoc]
  rfl

theorem Node.script_other (t : Text) (kind : OtherKind) (span : Span)
    (children : List Fragment) :
    (Node.other kind span children).script t =
      children.flatMap (FragmentOf.script t) := by
  rw [Node.script, Node.blocks_other, List.flatMap_assoc]
  rfl

theorem FragmentOf.Tiled.lowers {f : Fragment} (h : f.Tiled t)
    (hnodes : ∀ n ∈ f.nodes, Lowers t n.span (n.script t) (translateNode t n)) :
    Lowers t f.span (f.script t) (translate t f) := by
  obtain ⟨w, hw⟩ := h.covers
  rw [f.script_eq, translate_eq]
  exact .row hw.left hnodes h.nodes

/-- A block is lowered part by part.  Its own splices come first in the script,
those in its bodies after them, whereas in the text they alternate. -/
theorem Block.Laid.lowers {b : Block Fragment} (hlaid : b.Laid t)
    (htagged : b.Tagged t) (hspan : t.Cuts b.span)
    (hbodies : ∀ f ∈ b.bodies, Lowers t f.span (f.script t) (translate t f)) :
    Lowers t b.span ((Node.block b).script t) (translateNode t (.block b)) := by
  obtain ⟨e, hrow, hcloses⟩ := hlaid.parts
  obtain rfl : e = b.closing := hrow.getLast
  have hparts : ∀ p ∈ b.layout t,
      Lowers t p.span (p.record (FragmentOf.script t))
        (p.code (translate t)) := by
    intro p hp
    cases p with
    | tag span script code =>
        exact ⟨script, .refl _, htagged.patches hcloses _ hp⟩
    | body f =>
        refine hbodies f ?_
        rw [← flatMap_bodies_layout htagged]
        exact List.mem_flatMap.2 ⟨_, hp, List.mem_singleton_self f⟩
  have hall : Abut b.span.start ((b.layout t).map Part.span) b.span.stop := by
    rw [map_span_layout htagged]
    exact abut_append.2 ⟨_, hrow, rfl, rfl⟩
  obtain ⟨ordered, hperm, hpatched⟩ :=
    Lowers.row (Text.isBoundary_iff.1 hspan.2.1) hparts hall
  rw [flatMap_code_layout htagged] at hpatched
  rw [translateNode_block, Node.script_block, ← flatMap_bodies_layout htagged]
  exact ⟨ordered, hperm.trans (Part.flatMap_record_perm _ _), hpatched⟩

/-- The script of a sound node makes its translation of its text, by induction
over the node. -/
theorem Node.Sound.lowers {n : Node} (h : n.Sound t) :
    Lowers t n.span (n.script t) (translateNode t n) := by
  induction h with
  | @intro n placed tiled nested ih =>
      have hfragments : ∀ f ∈ n.fragments,
          Lowers t f.span (f.script t) (translate t f) :=
        fun f hf => (tiled f hf).lowers (ih f hf)
      obtain ⟨w, -, hw⟩ := placed.covers
      cases n with
      | block b => exact placed.parts.1.lowers placed.parts.2 hw.cuts hfragments
      | other kind span children =>
          rw [Node.script_other, translateNode_other]
          exact .weave hw.left hw.right hfragments placed.parts.1

/-- **The script of a sound tree makes its translation of its text.**  The
translation is a fold over the tree that knows nothing of splices; the script is
what is recorded. -/
theorem FragmentOf.Sound.lowers {f : Fragment} (h : f.Sound t) :
    Lowers t f.span (f.script t) (translate t f) :=
  h.tiled.lowers fun n hn => (h.nodes n hn).lowers

end Markup

end TemplateJsx
