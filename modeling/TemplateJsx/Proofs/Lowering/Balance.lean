import TemplateJsx.Proofs.Lowering.Transform
import TemplateJsx.Proofs.Markup.Tiling
import TemplateJsx.Proofs.Text.Balance

/-!
# Code of balanced parts is balanced

The code of a block opens brackets in one tag and closes them in another, and
how many the last tag closes depends on the number of arms.  Here each piece of
code is followed from stack to stack: `Feeds` of a tag says what it leaves open,
and a body leaves the stack as it is.

**If what a template keeps as it stands is balanced by itself, its code is
balanced**: the expressions, bindings and keys of blocks, and the text of other
nodes outside their children.  Plain text must not have an opening angle
bracket, for together with what follows it might make a fragment tag.
-/

namespace TemplateJsx

open Markup Text

section Tags

variable {t : Text} {F : Type}

theorem Text.Stands.cut_brace {s e : Nat} {w : Text}
    (h : t.Stands s (w ++ ['}']) e) : t.cut s (e - 1) = w := by
  have hstop := h.stop_eq
  have hsize : Text.byteLength ['}'] = 1 := by decide
  rw [Text.byteLength_append, hsize] at hstop
  have hback : e - 1 = s + w.byteLength := by omega
  rw [hback]
  exact h.split.1.cut_eq

theorem isNeutral_of_continues {c : Char} (h : continuesIdentifier c = true) :
    isNeutral c = true := by
  have hnone : (['<', '>', '/', '{', '}', '(', ')', '[', ']'].all fun d =>
      !continuesIdentifier d) = true := by
    decide
  unfold isNeutral
  rw [List.all_eq_true] at hnone ⊢
  intro d hd
  have hbracket := hnone d hd
  rw [bne_iff_ne]
  intro hc
  rw [← hc, h] at hbracket
  cases hbracket

/-- A condition closes the parenthesis in front of it and opens a body. -/
theorem conditionCode_feeds {a : Arm F}
    (hcloses : ∃ w, Text.Blank w ∧
      t.Stands a.expression.stop (w ++ ['}']) a.tag.stop)
    (hexpression : (t.cut a.expression.start a.expression.stop).Balanced)
    (stack : List Char) :
    Feeds (conditionCode t a) ('(' :: stack) ('<' :: '{' :: stack) := by
  obtain ⟨w, hw, hstands⟩ := hcloses
  have hparen : Feeds ")".toList ('(' :: stack) stack := rfl
  have hbody : Feeds "\x7b<>".toList stack ('<' :: '{' :: stack) := rfl
  unfold conditionCode
  rw [hstands.cut_brace]
  apply Feeds.append _ hbody
  apply Feeds.append _ (hw.neutral.closed stack)
  exact (hexpression.reaches _).append_feeds hparen
    ⟨')', [], rfl, by decide, by decide⟩

theorem linkCode_feeds {a : Arm F} (htag : LinkTag t a.tag a.expression)
    (hexpression : (t.cut a.expression.start a.expression.stop).Balanced)
    (stack : List Char) :
    Feeds (linkCode t a) ('<' :: '{' :: stack)
      ('<' :: '{' :: '{' :: stack) := by
  obtain ⟨g, -, htag⟩ := htag
  have hword : Feeds "</>\x7d else \x7bif (".toList ('<' :: '{' :: stack)
      ('(' :: '{' :: stack) := rfl
  exact hword.append (conditionCode_feeds htag.closes hexpression _)

theorem elseCode_feeds {c : Clause F}
    (htag : WordTag t "\x7b:else".toList c.tag.start c.tag.stop)
    (stack : List Char) :
    Feeds (elseCode t c) ('<' :: '{' :: stack) ('<' :: '{' :: stack) := by
  obtain ⟨w, hw, hstands⟩ := htag
  have hrest : t.Stands (c.tag.start + 6) (w ++ ['}']) c.tag.stop :=
    hstands.split.2
  have hword : Feeds "</>\x7d else".toList ('<' :: '{' :: stack) stack := rfl
  have hbody : Feeds " \x7b<>".toList stack ('<' :: '{' :: stack) := rfl
  unfold elseCode
  rw [hrest.cut_brace]
  exact (hword.append (hw.neutral.closed stack)).append hbody

theorem parameters_reaches {b : EachBlock F}
    (htag : EachTag t b.tag b.expression b.context b.index b.key)
    (hbinding : (t.cut b.context.span.start b.context.span.stop).Balanced)
    (stack : List Char) :
    Reaches (t.cut b.context.span.start (parametersEnd t b)) stack stack := by
  obtain ⟨-, hindex, -⟩ := htag.parametersStop_eq
  have hname := htag.binds
  rw [hname.cut_eq] at hbinding
  cases hb : b.index with
  | none =>
      rw [hb] at hindex
      have hstop : parametersEnd t b = b.context.span.stop := hindex
      rw [hstop, hname.cut_eq]
      exact hbinding.reaches stack
  | some i =>
      rw [hb] at hindex
      obtain ⟨v, w, hv, hw, -, hi, hstands⟩ := hindex
      rw [(hname.append hstands).cut_eq]
      refine (hbinding.reaches stack).append_neutral ?_
      intro c hc
      simp only [List.cons_append, List.mem_append, List.mem_cons] at hc
      rcases hc with hc | rfl | hc | hc
      · exact hv.neutral c hc
      · decide
      · exact hw.neutral c hc
      · exact isNeutral_of_continues (hi c hc)

theorem key_closed {b : EachBlock F}
    (htag : EachTag t b.tag b.expression b.context b.index b.key)
    (hkey : ∀ k ∈ b.key, (t.cut k.start k.stop).Balanced) :
    Closed (t.cut (parametersEnd t b) (b.tag.stop - 1)) := by
  obtain ⟨-, -, e, hpart, w, hw, hend⟩ := htag.parametersStop_eq
  cases hb : b.key with
  | none =>
      rw [hb] at hpart
      obtain rfl : e = parametersEnd t b := hpart
      rw [hend.cut_brace]
      exact hw.neutral.closed
  | some k =>
      rw [hb] at hpart
      obtain ⟨v, g, h, hv, hg, hh, hopens, ⟨x, -, hx⟩, hcloses⟩ := hpart
      have hall : t.Stands (parametersEnd t b)
          (v ++ ['('] ++ g ++ x ++ h ++ [')'] ++ w ++ ['}']) b.tag.stop := by
        simpa using ((hopens.append hx).append hcloses).append hend
      have hbalanced : x.Balanced := by
        rw [← hx.cut_eq]
        exact hkey k hb
      rw [hall.cut_brace]
      intro stack
      have hopening : Feeds (v ++ ['('] ++ g) stack ('(' :: stack) :=
        Feeds.append (Feeds.append (hv.neutral.closed stack) rfl)
          (hg.neutral.closed _)
      have hinside : Reaches (v ++ ['('] ++ g ++ x ++ h) stack ('(' :: stack) :=
        (hopening.append_reaches (hbalanced.reaches _)).append_neutral
          hh.neutral
      have hclosing : Feeds [')'] ('(' :: stack) stack := rfl
      exact (hinside.append_feeds hclosing
        ⟨')', [], rfl, by decide, by decide⟩).append (hw.neutral.closed stack)

theorem eachCode_feeds {b : EachBlock F}
    (htag : EachTag t b.tag b.expression b.context b.index b.key)
    (hexpression : (t.cut b.expression.start b.expression.stop).Balanced)
    (hbinding : (t.cut b.context.span.start b.context.span.stop).Balanced)
    (hkey : ∀ k ∈ b.key, (t.cut k.start k.stop).Balanced) (stack : List Char) :
    Feeds (eachCode t b) stack ('<' :: '(' :: '{' :: stack) := by
  have hopens : Feeds "\x7b(".toList stack ('(' :: '{' :: stack) := rfl
  have hmaps : Feeds ").map((".toList ('(' :: '{' :: stack)
      ('(' :: '(' :: '{' :: stack) := rfl
  have harrow : Feeds ") =>".toList ('(' :: '(' :: '{' :: stack)
      ('(' :: '{' :: stack) := rfl
  have hbody : Feeds (if b.key.isSome then " && <>".toList else " <>".toList)
      ('(' :: '{' :: stack) ('<' :: '(' :: '{' :: stack) := by
    cases b.key <;> rfl
  unfold eachCode
  apply Feeds.append _ hbody
  apply Feeds.append _ (key_closed htag hkey _)
  apply Reaches.append_feeds _ harrow ⟨')', _, rfl, by decide, by decide⟩
  apply Feeds.append_reaches _ (parameters_reaches htag hbinding _)
  apply Reaches.append_feeds _ hmaps ⟨')', _, rfl, by decide, by decide⟩
  exact hopens.append_reaches (hexpression.reaches _)

theorem promiseCode_feeds {b : AwaitBlock F}
    (hexpression : (t.cut b.expression.start b.expression.stop).Balanced)
    (stack : List Char) :
    Feeds (promiseCode t b) stack ('{' :: '{' :: stack) := by
  have hopens : Feeds "\x7b() => \x7blet _$$p = (".toList stack
      ('(' :: '{' :: '{' :: stack) := rfl
  have hends : Feeds ");".toList ('(' :: '{' :: '{' :: stack)
      ('{' :: '{' :: stack) := rfl
  exact (hopens.append_reaches (hexpression.reaches _)).append_feeds hends
    ⟨')', _, rfl, by decide, by decide⟩

variable {value : Option Binding}

theorem continuation_feeds
    (hvalue : Balanced ((value.map Binding.name).getD [])) (stack : List Char) :
    Feeds ((value.map Binding.name).getD [] ++ ") => \x7b<>".toList)
      ('(' :: '(' :: stack) ('<' :: '{' :: '(' :: stack) :=
  (hvalue.reaches _).append_feeds rfl ⟨')', _, rfl, by decide, by decide⟩

theorem thenCode_feeds (hvalue : Balanced ((value.map Binding.name).getD []))
    (stack : List Char) :
    Feeds (thenCode value) stack ('<' :: '{' :: '(' :: stack) := by
  have hword : Feeds "_$$p.then((".toList stack ('(' :: '(' :: stack) := rfl
  unfold thenCode
  rw [List.append_assoc]
  exact hword.append (continuation_feeds hvalue stack)

theorem catchCode_feeds (hvalue : Balanced ((value.map Binding.name).getD []))
    (stack : List Char) :
    Feeds (catchCode value) ('<' :: '{' :: '(' :: stack)
      ('<' :: '{' :: '(' :: stack) := by
  have hword : Feeds "</>\x7d).catch((".toList ('<' :: '{' :: '(' :: stack)
      ('(' :: '(' :: stack) := rfl
  unfold catchCode
  rw [List.append_assoc]
  exact hword.append (continuation_feeds hvalue stack)

theorem Markup.ValuePart.name_balanced {s e : Nat} (h : ValuePart t s value e)
    (hvalue : ∀ b ∈ value, (t.cut b.span.start b.span.stop).Balanced) :
    Balanced ((value.map Binding.name).getD []) := by
  cases value with
  | none => rfl
  | some b =>
      obtain ⟨-, hname, -⟩ := h
      have hbalanced := hvalue b rfl
      rw [hname.cut_eq] at hbalanced
      exact hbalanced

end Tags

/-! ## Blocks -/

section Blocks

variable {t : Text} {F : Type} {body : F → Text}

/-- Every later arm leaves one brace more open, since an arm is put into the
`else` of the one before it. -/
theorem links_feed {links : List (Arm F)}
    (htags : ∀ a ∈ links, LinkTag t a.tag a.expression)
    (hexpressions : ∀ a ∈ links,
      (t.cut a.expression.start a.expression.stop).Balanced)
    (hbodies : ∀ a ∈ links, Closed (body a.body)) (stack : List Char) :
    Feeds (links.flatMap fun a => linkCode t a ++ body a.body)
      ('<' :: '{' :: stack) ('<' :: '{' ::
        (List.replicate links.length '{' ++ stack)) := by
  induction links generalizing stack with
  | nil => rfl
  | cons a links ih =>
      obtain ⟨htag, htags⟩ := List.forall_mem_cons.1 htags
      obtain ⟨hexpression, hexpressions⟩ := List.forall_mem_cons.1 hexpressions
      obtain ⟨hbody, hbodies⟩ := List.forall_mem_cons.1 hbodies
      have hfirst := (linkCode_feeds htag hexpression stack).append (hbody _)
      have hrest := ih htags hexpressions hbodies ('{' :: stack)
      rw [List.length_cons, List.replicate_succ', List.append_assoc]
      exact hfirst.append hrest

theorem replicate_feeds (n : Nat) (stack : List Char) :
    Feeds (List.replicate n '}') (List.replicate n '{' ++ stack) stack := by
  induction n with
  | zero => rfl
  | succ n ih => exact ih

theorem optional_feeds {α : Type} {o : Option α} {code : α → Text}
    {stack : List Char} (h : ∀ a ∈ o, Feeds (code a) stack stack) :
    Feeds (o.toList.flatMap code) stack stack := by
  cases o with
  | none => rfl
  | some a =>
      rw [Option.toList_some, List.flatMap_cons, List.flatMap_nil,
        List.append_nil]
      exact h a rfl

theorem ifCode_closed {b : IfBlock F} (htagged : (Block.conditional b).Tagged t)
    (hexpressions : ∀ a ∈ b.head :: b.links,
      (t.cut a.expression.start a.expression.stop).Balanced)
    (hbodies : ∀ f ∈ b.bodies, Closed (body f)) : Closed (ifCode t body b) := by
  obtain ⟨hhead, hlinks, hotherwise⟩ := htagged
  obtain ⟨hexpression, hexpressions⟩ := List.forall_mem_cons.1 hexpressions
  simp only [IfBlock.bodies, List.forall_mem_cons, List.forall_mem_append,
    List.forall_mem_map, Option.toList_map, Option.mem_toList] at hbodies
  obtain ⟨hbody, hbodies, helse⟩ := hbodies
  intro stack
  have hopens : Feeds "\x7b() => \x7bif (".toList stack
      ('(' :: '{' :: '{' :: stack) := rfl
  have hfirst :=
    (hopens.append (conditionCode_feeds hhead.closes hexpression _)).append
      (hbody _)
  have hlater := links_feed hlinks hexpressions hbodies ('{' :: '{' :: stack)
  have hlast (rest : List Char) :
      Feeds (b.otherwise.toList.flatMap fun c => elseCode t c ++ body c.body)
        ('<' :: '{' :: rest) ('<' :: '{' :: rest) :=
    optional_feeds fun c hc =>
      (elseCode_feeds (hotherwise c hc) rest).append (helse c hc _)
  have hbranch (rest : List Char) :
      Feeds "</>\x7d".toList ('<' :: '{' :: rest) rest := rfl
  have hbraces := replicate_feeds b.links.length ('{' :: '{' :: stack)
  have hends : Feeds "\x7d\x7d".toList ('{' :: '{' :: stack) stack := rfl
  exact ((((hfirst.append hlater).append (hlast _)).append (hbranch _)).append
    hbraces).append hends

theorem loopCode_closed {b : EachBlock F}
    (htag : EachTag t b.tag b.expression b.context b.index b.key)
    (hexpression : (t.cut b.expression.start b.expression.stop).Balanced)
    (hbinding : (t.cut b.context.span.start b.context.span.stop).Balanced)
    (hkey : ∀ k ∈ b.key, (t.cut k.start k.stop).Balanced)
    (hbodies : ∀ f ∈ b.bodies, Closed (body f)) :
    Closed (loopCode t body b) := by
  simp only [EachBlock.bodies, List.forall_mem_cons, Option.toList_map,
    List.forall_mem_map, Option.mem_toList] at hbodies
  obtain ⟨hbody, hfallback⟩ := hbodies
  intro stack
  have hends : Feeds "</>)\x7d".toList ('<' :: '(' :: '{' :: stack) stack := rfl
  have hrest : Feeds (b.fallback.toList.flatMap fun c => body c.body)
      stack stack :=
    optional_feeds fun c hc => hfallback c hc stack
  exact (((eachCode_feeds htag hexpression hbinding hkey stack).append
    (hbody _)).append hends).append hrest

theorem pending_closed {b : AwaitBlock F} (htagged : (Block.await b).Tagged t)
    (hvalue : ∀ v ∈ b.value, (t.cut v.span.start v.span.stop).Balanced)
    (hbody : ∀ f ∈ b.pending, Closed (body f)) :
    Closed (match b.pending with
      | some f =>
        t.cut b.expression.stop (b.tag.stop - 1) ++ " <>".toList ++ body f ++
          "</>; ".toList
      | none => t.cut b.expression.stop (thenWord t b)) ∧
      Balanced ((b.value.map Binding.name).getD []) := by
  obtain ⟨htags, -⟩ := htagged
  cases hpending : b.pending with
  | none =>
      cases hthen : b.thenTag with
      | some tag => simp only [hpending, hthen] at htags
      | none =>
          simp only [hpending, hthen] at htags
          obtain ⟨-, ⟨g, hg, hstands⟩, -⟩ := htags.word
          obtain ⟨_, _, _, -, -, hpart, -⟩ := htags.closes
          rw [hstands.cut_eq]
          exact ⟨hg.neutral.closed, hpart.name_balanced hvalue⟩
  | some f =>
      cases hthen : b.thenTag with
      | none => simp only [hpending, hthen] at htags
      | some tag =>
          simp only [hpending, hthen] at htags
          obtain ⟨w, hw, hstands⟩ := htags.1.closes
          obtain ⟨_, _, -, hpart, -⟩ := htags.2.opens
          refine ⟨?_, hpart.name_balanced hvalue⟩
          intro stack
          have hopens : Feeds " <>".toList stack ('<' :: stack) := rfl
          have hends : Feeds "</>; ".toList ('<' :: stack) stack := rfl
          rw [hstands.cut_brace]
          exact (((hw.neutral.closed stack).append hopens).append
            (hbody f hpending _)).append hends

theorem awaitCode_closed {b : AwaitBlock F} (htagged : (Block.await b).Tagged t)
    (hexpression : (t.cut b.expression.start b.expression.stop).Balanced)
    (hvalue : ∀ v ∈ b.value, (t.cut v.span.start v.span.stop).Balanced)
    (hrescue : ∀ h ∈ b.rescue, ∀ v ∈ h.value,
      (t.cut v.span.start v.span.stop).Balanced)
    (hbodies : ∀ f ∈ b.bodies, Closed (body f)) :
    Closed (awaitCode t body b) := by
  simp only [AwaitBlock.bodies, List.forall_mem_append, List.forall_mem_cons,
    Option.toList_map, List.forall_mem_map, Option.mem_toList] at hbodies
  obtain ⟨hpending, hbody, hhandler⟩ := hbodies
  obtain ⟨hbefore, hname⟩ := pending_closed htagged hvalue hpending
  intro stack
  have hhandlers : Feeds (b.rescue.toList.flatMap fun h =>
        catchCode h.value ++ body h.body)
      ('<' :: '{' :: '(' :: '{' :: '{' :: stack)
      ('<' :: '{' :: '(' :: '{' :: '{' :: stack) := by
    refine optional_feeds fun h hh => ?_
    obtain ⟨_, _, -, hpart, -⟩ := (htagged.2 h hh).opens
    exact (catchCode_feeds (hpart.name_balanced (hrescue h hh)) _).append
      (hhandler h hh _)
  have hends : Feeds "</>\x7d)\x7d\x7d".toList
      ('<' :: '{' :: '(' :: '{' :: '{' :: stack) stack := rfl
  have hthen :=
    ((promiseCode_feeds hexpression stack).append (hbefore _)).append
      (thenCode_feeds hname _)
  exact ((hthen.append (hbody _)).append hhandlers).append hends

end Blocks

namespace Markup

/-- The expressions, bindings and keys of a block, which are all that it brings
into the code as it stands in the text. -/
def Block.operands {F : Type} : Block F → List Span
  | conditional b => (b.head :: b.links).map Arm.expression
  | each b => b.expression :: b.context.span :: b.key.toList
  | await b =>
    b.expression :: (b.value.toList ++ b.rescue.toList.flatMap fun h =>
      h.value.toList).map Binding.span

theorem Block.code_closed {t : Text} {F : Type} {body : F → Text} {b : Block F}
    (htagged : b.Tagged t)
    (hoperands : ∀ x ∈ b.operands, (t.cut x.start x.stop).Balanced)
    (hbodies : ∀ f ∈ b.bodies, Closed (body f)) :
    Closed (blockCode t body b) := by
  cases b with
  | conditional b =>
      exact ifCode_closed htagged
        (by simpa [Block.operands] using hoperands) hbodies
  | each b =>
      simp only [Block.operands, List.forall_mem_cons,
        Option.mem_toList] at hoperands
      obtain ⟨hexpression, hbinding, hkey⟩ := hoperands
      exact loopCode_closed htagged.1 hexpression hbinding hkey hbodies
  | await b =>
      simp only [Block.operands, List.forall_mem_cons, List.forall_mem_map,
        List.forall_mem_append, List.forall_mem_flatMap,
        Option.mem_toList] at hoperands
      obtain ⟨hexpression, hvalue, hrescue⟩ := hoperands
      exact awaitCode_closed htagged hexpression hvalue hrescue hbodies

end Markup

/-! ## Trees -/

def Text.outside (t : Text) : Nat → List Span → Nat → List Text
  | s, [], e => [t.cut s e]
  | s, x :: xs, e => t.cut s x.start :: outside t x.stop xs e

section Trees

variable {t : Text}

theorem Markup.EndsTag.closed {s e : Nat} (h : EndsTag t s e)
    (hbalanced : (t.cut s e).Balanced) :
    Closed (t.cut s e) := by
  obtain ⟨w, c, hc, hstands⟩ := h
  rw [hstands.cut_eq] at hbalanced ⊢
  exact hbalanced.closed_of_bracket hc

/-- Balanced stretches that end as tags do, around parts that keep the stack.
That they end as tags do keeps a tag from being put together across a seam. -/
theorem weave_closed {s e : Nat} {parts : List (Span × Text)}
    (hfenced : Fenced t s (parts.map Prod.fst) e)
    (houtside : ∀ w ∈ t.outside s (parts.map Prod.fst) e, w.Balanced)
    (hparts : ∀ p ∈ parts, Closed p.2) :
    Closed (weave t s parts e) := by
  induction parts generalizing s with
  | nil => exact EndsTag.closed hfenced (houtside _ (List.mem_singleton_self _))
  | cons part parts ih =>
      obtain ⟨hfirst, houtside⟩ := List.forall_mem_cons.1 houtside
      obtain ⟨hpart, hparts⟩ := List.forall_mem_cons.1 hparts
      exact ((hfenced.1.closed hfirst).append hpart).append
        (ih hfenced.2 houtside hparts)

/-- What a node keeps as it stands is balanced: its expressions, bindings and
keys if it is a control-flow block, and otherwise each stretch of its text
outside its children.  Plain text has no opening angle bracket.  It can be
decided, so a template can be tested for it. -/
def Markup.Node.KeepsBalance (t : Text) : Node → Prop
  | .block b => ∀ x ∈ b.operands, (t.cut x.start x.stop).Balanced
  | .other kind span children =>
    (∀ w ∈ t.outside span.start (children.map FragmentOf.span) span.stop,
      w.Balanced) ∧
      (kind = .text → '<' ∉ t.cut span.start span.stop)

instance Markup.Node.decidableKeepsBalance :
    (n : Node) → Decidable (n.KeepsBalance t)
  | .block b =>
    inferInstanceAs (Decidable (∀ x ∈ b.operands,
      (t.cut x.start x.stop).Balanced))
  | .other kind span children => inferInstanceAs (Decidable (
      (∀ w ∈ t.outside span.start (children.map FragmentOf.span) span.stop,
        w.Balanced) ∧
        (kind = .text → '<' ∉ t.cut span.start span.stop)))

theorem translateNode_closed {n : Node} (hsound : n.Sound t)
    (hbalance : ∀ m ∈ n.allNodes, m.KeepsBalance t) :
    Closed (translateNode t n) := by
  induction n using Node.induct with
  | step n ih =>
      rw [Node.allNodes_eq] at hbalance
      obtain ⟨hown, hnested⟩ := List.forall_mem_cons.1 hbalance
      have hfragments : ∀ f ∈ n.fragments, Closed (translate t f) := by
        intro f hf
        rw [translate_eq]
        refine Closed.flatMap fun m hm =>
          ih f hf m hm ((hsound.fragments f hf).nodes m hm) ?_
        intro k hk
        apply hnested k
        refine List.mem_flatMap.2 ⟨f, hf, ?_⟩
        rw [FragmentOf.allNodes_eq]
        exact List.mem_flatMap.2 ⟨m, hm, hk⟩
      have hparts := hsound.placed.parts
      cases n with
      | block b =>
          rw [translateNode_block]
          exact Block.code_closed hparts.2 hown hfragments
      | other kind span children =>
          obtain ⟨houtside, hangle⟩ := hown
          obtain ⟨-, htext, hfenced⟩ := hparts
          rw [translateNode_other]
          by_cases hkind : kind = .text
          · obtain rfl : children = [] := (htext hkind).1
            exact Balanced.closed_of_not_mem
              (houtside _ (List.mem_singleton_self _)) (hangle hkind)
          · have hspans : (children.map fun f =>
                (f.span, translate t f)).map Prod.fst =
                children.map FragmentOf.span := by
              rw [List.map_map]
              rfl
            apply weave_closed
            · rw [hspans]
              exact hfenced hkind
            · rw [hspans]
              exact houtside
            · intro part hpart
              obtain ⟨f, hf, rfl⟩ := List.mem_map.1 hpart
              exact hfragments f hf

theorem translate_closed {f : Fragment} (hsound : f.Sound t)
    (hbalance : ∀ m ∈ f.allNodes, m.KeepsBalance t) :
    Closed (translate t f) := by
  rw [translate_eq]
  refine Closed.flatMap fun n hn =>
    translateNode_closed (hsound.nodes n hn) fun m hm => hbalance m ?_
  rw [FragmentOf.allNodes_eq]
  exact List.mem_flatMap.2 ⟨n, hn, hm⟩

end Trees

/-- **The code of a template is balanced if what it keeps as it stands is**,
wrapped into a fragment or not.  Lowering opens and closes every bracket of its
own in turn, so whatever is out of balance in the code was so in the
template. -/
theorem transform_balanced (o : Options) {text : Text} {tree : Fragment}
    (hbound : text.byteLength < offsetBound) (h : parse text = .ok tree)
    (hbalance : ∀ n ∈ tree.allNodes, n.KeepsBalance text) :
    ∃ output, transform o text = .ok output ∧ output.code.Balanced := by
  obtain ⟨output, hrender, hcode⟩ := render_wrap_eq_ok o h
  have hclosed : Closed (translate text tree) :=
    translate_closed (sound_of_parse h).2 hbalance
  refine ⟨output, transform_of_parse h (lower_eq_ok hbound h) hrender,
    Closed.balanced ?_⟩
  rw [hcode]
  cases o.wrapFragment with
  | false => exact hclosed
  | true =>
      intro stack
      have hopens : Feeds "<>".toList stack ('<' :: stack) := rfl
      have hends : Feeds "</>".toList ('<' :: stack) stack := rfl
      exact (hopens.append (hclosed _)).append hends

/-- A chain of arms in an iteration with an index, a key and a fallback. -/
def chainInLoop : Text :=
  ("\x7b#each a as [b], i (b.c)\x7d\x7b#if i\x7d<p>\x7bd\x7d</p>" ++
    "\x7b:else if e\x7d(x)\x7b/if\x7d\x7b:else\x7dy\x7b/each\x7d").toList

theorem transform_balanced_chain :
    ∃ tree output, parse chainInLoop = .ok tree ∧
      (∀ n ∈ tree.allNodes, n.KeepsBalance chainInLoop) ∧
      transform .standard chainInLoop = .ok output ∧ output.code.Balanced := by
  have hkeeps : (parse chainInLoop).toOption.map
      (fun tree => decide (∀ n ∈ tree.allNodes, n.KeepsBalance chainInLoop)) =
      some true := by
    decide +kernel
  obtain ⟨tree, htree, hdecided⟩ := exists_tree_of_map hkeeps
  have hbalance : ∀ n ∈ tree.allNodes, n.KeepsBalance chainInLoop :=
    of_decide_eq_true hdecided
  obtain ⟨output, htransform, hcode⟩ :=
    transform_balanced .standard (by decide +kernel) htree hbalance
  exact ⟨tree, output, htree, hbalance, htransform, hcode⟩

end TemplateJsx
