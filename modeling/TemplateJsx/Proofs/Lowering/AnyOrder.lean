import TemplateJsx.Proofs.Lowering.Transform

/-!
# The order of blocks

Lowering enters a block before the blocks in its bodies, but nothing depends on
it.  A splice addresses the text as it was before any change, and the splices of
different blocks neither overlap nor insert at one offset, whichever way the
blocks are nested or meet.  So the blocks of a tree may be lowered in any order:
the splices come out in the order of the text all the same
(`renderAlike_loweredDraft`), and the draft is rendered to the same code and the
same map.
-/

namespace TemplateJsx

open Markup

/-- Two drafts of one text, between the same texts, whose splices come out in
the same order.  In which order they were recorded is left open. -/
structure RenderAlike (d d' : Draft) : Prop where
  text : d.text = d'.text
  intro : d.intro = d'.intro
  outro : d.outro = d'.outro
  ordered : Splice.ordered d.splices = Splice.ordered d'.splices

namespace RenderAlike

variable {d d' : Draft}

theorem render (h : RenderAlike d d') (o : Options) :
    TemplateJsx.render o d = TemplateJsx.render o d' := by
  have hrender : d.render? = d'.render? := by
    unfold Draft.render? Draft.stretches?
    rw [h.text, h.intro, h.outro, h.ordered]
  unfold TemplateJsx.render
  rw [hrender, h.text]

theorem wrap (h : RenderAlike d d') (o : Options) :
    RenderAlike (TemplateJsx.wrap o d) (TemplateJsx.wrap o d') := by
  unfold TemplateJsx.wrap
  by_cases hwrap : o.wrapFragment = true
  · rw [if_pos hwrap, if_pos hwrap]
    have hintro : "<>".toList ++ d.intro = "<>".toList ++ d'.intro := by
      rw [h.intro]
    have houtro : d.outro ++ "</>".toList = d'.outro ++ "</>".toList := by
      rw [h.outro]
    exact ⟨h.text, hintro, houtro, h.ordered⟩
  · rw [if_neg hwrap, if_neg hwrap]
    exact h

end RenderAlike

section Permuted

variable {text : Text} {tree : Fragment} {blocks : List (Block Fragment)}

theorem flatMap_script_perm (t : Text) (hperm : blocks.Perm tree.blocks) :
    (blocks.flatMap (Block.script t)).Perm (tree.script t) :=
  hperm.flatMap_right _

/-- **The blocks of a text that was read may be lowered in any order**: all
their splices are recorded.  No block stands in the way of another, not even of
one inside it. -/
theorem lowerBlocks_perm (hbound : text.byteLength < offsetBound)
    (h : parse text = .ok tree) (hperm : blocks.Perm tree.blocks) :
    blocks.foldlM lowerBlock (Draft.ofText text) =
      .ok { Draft.ofText text with
        splices := blocks.flatMap (Block.script text) } := by
  have hsound := (sound_of_parse h).2
  obtain ⟨ordered, hscript, hpatched⟩ := exists_patched h
  have hblocks : ∀ b ∈ blocks,
      Records text (fun d => lowerBlock d b) (b.script text) := by
    intro b hb
    exact lowerBlock_records hbound (hsound.blocks b (hperm.mem_iff.1 hb))
  refine (Records.foldlM hblocks (Draft.ofText text) rfl).trans ?_
  apply Draft.spliceAll_eq_ok
  exact hpatched.sound ((flatMap_script_perm text hperm).trans hscript)

theorem renderAlike_loweredDraft (h : parse text = .ok tree)
    (hperm : blocks.Perm tree.blocks) :
    RenderAlike { Draft.ofText text with
        splices := blocks.flatMap (Block.script text) }
      (loweredDraft text tree) := by
  obtain ⟨ordered, hscript, hpatched⟩ := exists_patched h
  have hordered : Splice.ordered (tree.script text) = ordered :=
    hpatched.ordered_eq hscript
  have hordered' : Splice.ordered
      (blocks.flatMap (Block.script text)) = ordered :=
    hpatched.ordered_eq ((flatMap_script_perm text hperm).trans hscript)
  exact ⟨rfl, rfl, rfl, hordered'.trans hordered.symm⟩

/-- **The order in which blocks are lowered is immaterial.**  A walk over a tree
lowers its blocks one after another, each before those in its bodies.  In
whatever order they are lowered instead, all of them are, and rendering gives
the very code and map that the template is transformed to. -/
theorem transform_eq_of_blocks_perm (o : Options)
    (hbound : text.byteLength < offsetBound) (h : parse text = .ok tree)
    (hperm : blocks.Perm tree.blocks) :
    lower text tree = tree.blocks.foldlM lowerBlock (Draft.ofText text) ∧
      ∃ d output, blocks.foldlM lowerBlock (Draft.ofText text) = .ok d ∧
        render o (wrap o d) = .ok output ∧ transform o text = .ok output := by
  obtain ⟨output, hrender, -⟩ := render_wrap_eq_ok o h
  refine ⟨lower_eq_foldlM text tree, _, output,
    lowerBlocks_perm hbound h hperm, ?_, ?_⟩
  · rw [((renderAlike_loweredDraft h hperm).wrap o).render o]
    exact hrender
  · exact transform_of_parse h (lower_eq_ok hbound h) hrender

end Permuted

/-- A conditional right in front of a `then` tag and an iteration right behind
the await block, lowered from the last block to the first. -/
theorem transform_eq_of_blocks_perm_reversed :
    ∃ text tree d output, text =
      ("\x7b#await a\x7d\x7b#if b\x7d\x7b/if\x7d\x7b:then\x7dé\x7b/await\x7d" ++
        "\x7b#each c as d\x7d\x7b/each\x7d").toList ∧
      parse text = .ok tree ∧ tree.blocks.length = 3 ∧
      tree.blocks.reverse.foldlM lowerBlock (Draft.ofText text) = .ok d ∧
      render .standard (wrap .standard d) = .ok output ∧
      transform .standard text = .ok output := by
  obtain ⟨text, htext⟩ : ∃ text, text =
      ("\x7b#await a\x7d\x7b#if b\x7d\x7b/if\x7d\x7b:then\x7dé\x7b/await\x7d" ++
        "\x7b#each c as d\x7d\x7b/each\x7d").toList :=
    ⟨_, rfl⟩
  have hblocks : (parse text).toOption.map (fun tree => tree.blocks.length) =
      some 3 := by
    rw [htext]
    decide +kernel
  obtain ⟨tree, htree, hlength⟩ := exists_tree_of_map hblocks
  obtain ⟨-, d, output, hlower, hrender, htransform⟩ :=
    transform_eq_of_blocks_perm .standard (by rw [htext]; decide) htree
      (List.reverse_perm tree.blocks)
  exact ⟨text, tree, d, output, htext, htree, hlength, hlower,
    hrender, htransform⟩

end TemplateJsx
