import TemplateJsx.Lowering.Transform
import TemplateJsx.Proofs.Lowering.Patches
import TemplateJsx.Proofs.Markup.Assembly

/-!
# What a template is transformed to

A walk over a tree lowers its control-flow blocks one after another, and each of
them comes to recording its script.  The scripts of all blocks of a tree that
was read from a text fit the text and each other, so lowering such a tree
succeeds (`lower_eq_ok`) and the draft is rendered to the translation of the
tree (`render_wrap_eq_ok`).

It follows that reading is all that can fail, and that the code of a template is
its structural translation.
-/

namespace TemplateJsx

open Markup

/-! ## Walks that lower blocks -/

/-- In the course of a walk an action lowers these blocks one after another, and
stops at the first fault. -/
def LowersBlocks (action : LoweringM Unit) (blocks : List (Block Fragment)) :
    Prop :=
  ∀ d : Draft, action.run d = (blocks.foldlM lowerBlock d).map fun d => ((), d)

namespace LowersBlocks

theorem runAll {α : Type} {action : α → LoweringM Unit}
    {blocksOf : α → List (Block Fragment)} {values : List α}
    (h : ∀ a ∈ values, LowersBlocks (action a) (blocksOf a)) :
    LowersBlocks (Markup.runAll (values.map action))
      (values.flatMap blocksOf) := by
  induction values with
  | nil => exact fun d => rfl
  | cons a values ih =>
      obtain ⟨ha, h⟩ := List.forall_mem_cons.1 h
      intro d
      rw [List.map_cons, Markup.runAll, StateT.run_bind, ha d,
        List.flatMap_cons, List.foldlM_append]
      cases hown : (blocksOf a).foldlM lowerBlock d with
      | error fault => rfl
      | ok next => exact ih h next

theorem walkNode (n : Node) :
    LowersBlocks (Markup.walkNode lowerNode n) n.blocks := by
  induction n using Node.induct with
  | step n ih =>
      have hfragments : LowersBlocks
          (Markup.runAll (n.fragments.map (walkFragment lowerNode)))
          (n.fragments.flatMap FragmentOf.blocks) := by
        refine runAll fun f hf => ?_
        rw [walkFragment_eq, FragmentOf.blocks_eq]
        exact runAll (ih f hf)
      intro d
      rw [walkNode_eq]
      cases n with
      | other kind span children =>
          rw [Node.blocks_other]
          exact hfragments d
      | block b =>
          -- The block itself comes first, the blocks in its bodies after it.
          rw [Node.blocks_block, List.foldlM_cons]
          have henter :
              (enterNode lowerNode (.block b)
                (b.bodies.map (walkFragment lowerNode))).run d =
              lowerBlock d b >>= fun d =>
                (Markup.runAll (b.bodies.map (walkFragment lowerNode))).run
                  d := by
            cases hlower : lowerBlock d b <;>
              simp [enterNode, lowerNode, hlower]
          rw [show (Node.block b).fragments = b.bodies from rfl, henter]
          cases hlower : lowerBlock d b with
          | error fault => rfl
          | ok next => exact hfragments next

end LowersBlocks

namespace Markup

theorem Node.Sound.blocks {t : Text} {n : Node} (h : n.Sound t) :
    ∀ b ∈ n.blocks, (Node.block b).Sound t := by
  induction h with
  | @intro n placed tiled nested ih =>
      have hfragments : ∀ b ∈ n.fragments.flatMap FragmentOf.blocks,
          (Node.block b).Sound t := by
        intro b hb
        obtain ⟨f, hf, hb⟩ := List.mem_flatMap.1 hb
        rw [FragmentOf.blocks_eq] at hb
        obtain ⟨m, hm, hb⟩ := List.mem_flatMap.1 hb
        exact ih f hf m hm b hb
      cases n with
      | block b =>
          rw [Node.blocks_block]
          exact List.forall_mem_cons.2 ⟨.intro placed tiled nested, hfragments⟩
      | other kind span children =>
          rw [Node.blocks_other]
          exact hfragments

theorem FragmentOf.Sound.blocks {t : Text} {f : Fragment} (h : f.Sound t) :
    ∀ b ∈ f.blocks, (Node.block b).Sound t := by
  intro b hb
  rw [FragmentOf.blocks_eq] at hb
  obtain ⟨n, hn, hb⟩ := List.mem_flatMap.1 hb
  exact (h.nodes n hn).blocks b hb

end Markup

/-! ## Lowering -/

theorem Draft.spliceAll_eq_ok {d : Draft} {splices : List Splice}
    (h : Draft.Sound { d with splices := d.splices ++ splices }) :
    d.spliceAll splices = .ok { d with splices := d.splices ++ splices } := by
  induction splices generalizing d with
  | nil =>
      rw [List.append_nil]
      rfl
  | cons s splices ih =>
      have hsplices : d.splices ++ s :: splices =
          d.splices ++ [s] ++ splices := by
        simp
      have hsplice : d.splice s =
          .ok { d with splices := d.splices ++ [s] } := by
        rw [Draft.splice, h.record_next]
      -- The splice is moved to those before it, so that the induction goes on
      -- from the longer draft.
      rw [hsplices] at h ⊢
      have hstep : d.spliceAll (s :: splices) = d.splice s >>= fun d =>
          d.spliceAll splices := rfl
      rw [hstep, hsplice]
      exact ih h

section Sound

variable {text : Text} {tree : Fragment}

def loweredDraft (text : Text) (tree : Fragment) : Draft :=
  { Draft.ofText text with splices := tree.script text }

/-- Lowering a tree is lowering its blocks one after another, in the order of
the walk.  The walk, the descent into bodies and the state are gone from here
on. -/
theorem lower_eq_foldlM (text : Text) (tree : Fragment) :
    lower text tree = tree.blocks.foldlM lowerBlock (Draft.ofText text) := by
  have hwalk : LowersBlocks (walkFragment lowerNode tree) tree.blocks := by
    rw [walkFragment_eq, FragmentOf.blocks_eq]
    exact .runAll fun n _ => .walkNode n
  rw [lower, hwalk]
  cases tree.blocks.foldlM lowerBlock (Draft.ofText text) <;> rfl

theorem lower_eq_spliceAll (hbound : text.byteLength < offsetBound)
    (h : tree.Sound text) :
    lower text tree = (Draft.ofText text).spliceAll (tree.script text) := by
  rw [lower_eq_foldlM]
  exact Records.foldlM (fun b hb =>
    lowerBlock_records hbound (h.blocks b hb)) _ rfl

/-- The splices of all blocks of a text that was read patch it into the
translation of its tree. -/
theorem exists_patched (h : parse text = .ok tree) :
    ∃ ordered, (tree.script text).Perm ordered ∧
      Patched text 0 ordered (translate text tree) text.byteLength := by
  obtain ⟨hspan, hsound⟩ := sound_of_parse h
  obtain ⟨ordered, hperm, hpatched⟩ := hsound.lowers
  rw [hspan] at hpatched
  exact ⟨ordered, hperm.symm, hpatched⟩

/-- **Lowering what was read succeeds** and records the splices of all blocks.
Each block is as the text has it, and no splice of one conflicts with that of
another. -/
theorem lower_eq_ok (hbound : text.byteLength < offsetBound)
    (h : parse text = .ok tree) :
    lower text tree = .ok (loweredDraft text tree) := by
  obtain ⟨ordered, hperm, hpatched⟩ := exists_patched h
  rw [lower_eq_spliceAll hbound (sound_of_parse h).2]
  exact Draft.spliceAll_eq_ok (hpatched.sound hperm)

theorem render_eq_ok (o : Options) {d : Draft} {ordered : List Splice}
    {w : Text} (hperm : d.splices.Perm ordered)
    (h : Patched d.text 0 ordered w d.text.byteLength) :
    ∃ output, render o d = .ok output ∧ output.code =
      d.intro ++ w ++ d.outro := by
  obtain ⟨mappings, hrender⟩ := h.render? hperm
  unfold render
  rw [hrender]
  exact ⟨_, rfl, rfl⟩

/-- **Rendering what was lowered succeeds** and gives the translation of the
tree. -/
theorem render_wrap_eq_ok (o : Options) (h : parse text = .ok tree) :
    ∃ output, render o (wrap o (loweredDraft text tree)) = .ok output ∧
      output.code =
        if o.wrapFragment then
          "<>".toList ++ translate text tree ++ "</>".toList
        else translate text tree := by
  obtain ⟨ordered, hperm, hpatched⟩ := exists_patched h
  unfold wrap
  split
  · exact render_eq_ok o
      (d := ((loweredDraft text tree).prepend "<>".toList).append "</>".toList)
      hperm hpatched
  · obtain ⟨output, hrender, hcode⟩ :=
      render_eq_ok o (d := loweredDraft text tree) hperm hpatched
    exact ⟨output, hrender, hcode.trans (List.append_nil _)⟩

end Sound

/-! ## Transforming -/

theorem transform_of_parse {o : Options} {text : Text} {tree : Fragment}
    {d : Draft} {output : Output} (h : parse text = .ok tree)
    (hlower : lower text tree = .ok d)
    (hrender : render o (wrap o d) = .ok output) :
    transform o text = .ok output := by
  have htree : transformTree o text tree = .ok output := by
    rw [transformTree, hlower]
    exact hrender
  unfold transform
  rw [h]
  simp only [htree]

/-- **Reading is all that can fail.**  A template is refused for the reason for
which it cannot be read and for no other.  Whenever it can be read, lowering
records every splice of every block at any depth, and rendering succeeds. -/
theorem transform_eq_error_iff_parse (o : Options) {text : Text}
    (hbound : text.byteLength < offsetBound) :
    (∀ e, transform o text = .error e ↔
      ∃ fault, parse text = .error fault ∧ e = .parse fault) ∧
      ∀ tree, parse text = .ok tree →
        ∃ d output, lower text tree = .ok d ∧
        d.splices = tree.blocks.flatMap (Block.script text) ∧
          render o (wrap o d) = .ok output ∧ transform o text = .ok output := by
  have hsucceeds : ∀ tree, parse text = .ok tree →
      ∃ d output, lower text tree = .ok d ∧
      d.splices = tree.blocks.flatMap (Block.script text) ∧
        render o (wrap o d) = .ok output ∧ transform o text = .ok output := by
    intro tree h
    obtain ⟨output, hrender, -⟩ := render_wrap_eq_ok o h
    have hlower := lower_eq_ok hbound h
    exact ⟨_, output, hlower, rfl, hrender, transform_of_parse h hlower hrender⟩
  refine ⟨fun e => ?_, hsucceeds⟩
  cases hparse : parse text with
  | ok tree =>
      obtain ⟨d, output, -, -, -, htransform⟩ := hsucceeds tree hparse
      simp [htransform]
  | error fault =>
      have htransform : transform o text = .error (.parse fault) := by
        unfold transform
        rw [hparse]
      simp [htransform, eq_comm]

/-- The nine splices of a conditional in an iteration are recorded; a
conditional that is not closed cannot be read. -/
theorem transform_eq_error_iff_parse_nested :
    (∃ text tree d output, text =
      "\x7b#each a as b\x7d\x7b#if b\x7dé\x7b/if\x7d\x7b/each\x7d".toList ∧
      parse text = .ok tree ∧ lower text tree = .ok d ∧ d.splices.length = 9 ∧
      transform .standard text = .ok output) ∧
      ∃ fault, transform .standard "\x7b#if b\x7dé".toList =
        .error (.parse fault) := by
  constructor
  · obtain ⟨text, htext⟩ : ∃ text, text =
        "\x7b#each a as b\x7d\x7b#if b\x7dé\x7b/if\x7d\x7b/each\x7d".toList :=
      ⟨_, rfl⟩
    obtain ⟨tree, htree⟩ := exists_tree text (by rw [htext]; decide +kernel)
    have hlength : (parse text).toOption.map
        (fun tree => (tree.script text).length) = some 9 := by
      rw [htext]
      decide +kernel
    rw [htree] at hlength
    obtain ⟨d, output, hlower, hsplices, -, htransform⟩ :=
      (transform_eq_error_iff_parse .standard (by rw [htext]; decide)).2 tree
        htree
    have hnine :=
      (congrArg List.length hsplices).trans (Option.some.inj hlength)
    exact ⟨text, tree, d, output, htext, htree, hlower, hnine, htransform⟩
  · have hparse : (parse "\x7b#if b\x7dé".toList).isOk = false := by
      decide +kernel
    cases hfault : parse "\x7b#if b\x7dé".toList with
    | ok tree =>
        rw [hfault] at hparse
        cases hparse
    | error fault =>
        exact ⟨fault, ((transform_eq_error_iff_parse .standard (by decide)).1
          _).2 ⟨fault, hfault, rfl⟩⟩

/-- **The code of a template is its structural translation**, wrapped into one
fragment if that is asked for.  The translation is a fold over the tree, one
equation for each kind of node, and so the meaning of every construct can be
read off it without splices or drafts. -/
theorem transform_code_eq_translate (o : Options) {text : Text}
    {tree : Fragment} (hbound : text.byteLength < offsetBound)
    (h : parse text = .ok tree) :
    ∃ output, transform o text = .ok output ∧
      output.code =
        if o.wrapFragment then
          "<>".toList ++ translate text tree ++ "</>".toList
        else translate text tree := by
  obtain ⟨output, hrender, hcode⟩ := render_wrap_eq_ok o h
  exact ⟨output, transform_of_parse h (lower_eq_ok hbound h) hrender, hcode⟩

/-- An arm with an await block in it, and white space in front of a brace. -/
theorem transform_code_eq_translate_nested :
    ∃ text output, text =
      ("\x7b#if a \x7dé\x7b:else if b\x7d" ++
        "\x7b#await c then d\x7d\x7b/await\x7d\x7b/if\x7d").toList ∧
      transform .standard text = .ok output ∧
      output.code =
        ("<>\x7b() => \x7bif (a) \x7b<>é</>\x7d else \x7bif (b)\x7b<>" ++
          "\x7b() => \x7blet _$$p = (c); _$$p.then((d) => " ++
          "\x7b<></>\x7d)\x7d\x7d</>\x7d\x7d\x7d\x7d</>").toList := by
  obtain ⟨text, htext⟩ : ∃ text, text =
      ("\x7b#if a \x7dé\x7b:else if b\x7d" ++
        "\x7b#await c then d\x7d\x7b/await\x7d\x7b/if\x7d").toList :=
    ⟨_, rfl⟩
  obtain ⟨tree, htree⟩ := exists_tree text (by rw [htext]; decide +kernel)
  have hcode : (parse text).toOption.map (fun tree =>
      "<>".toList ++ translate text tree ++ "</>".toList) =
      some ("<>\x7b() => \x7bif (a) \x7b<>é</>\x7d else \x7bif (b)\x7b<>" ++
        "\x7b() => \x7blet _$$p = (c); _$$p.then((d) => " ++
        "\x7b<></>\x7d)\x7d\x7d</>\x7d\x7d\x7d\x7d</>").toList := by
    rw [htext]
    decide +kernel
  rw [htree] at hcode
  obtain ⟨output, htransform, houtput⟩ :=
    transform_code_eq_translate .standard (by rw [htext]; decide) htree
  exact ⟨text, output, htext, htransform, houtput.trans (Option.some.inj hcode)⟩

end TemplateJsx
