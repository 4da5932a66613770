import TemplateJsx.Proofs.Lowering.Transform

/-!
# What lowering reads of a tree

The frame of a block is all that it records itself: its spans, tags and
bindings, and which bodies it has, without the bodies.  Lowering a block reads
its frame only (`lowerBlock_frame`), and a walk hands over the blocks of a tree
one by one, whatever lies around them.  So lowering a tree is a run over the
frames of its blocks (`lower_eq_frames`), and trees with the same frames in the
order of a walk cannot be told apart by it.
-/

namespace TemplateJsx

open Markup

namespace Markup

/-- What a block records itself, without its bodies: its spans, its names and
which of its parts are there. -/
def Block.frame {F : Type} (b : Block F) : Block Unit := b.map fun _ => ()

def FragmentOf.frames (f : Fragment) : List (Block Unit) :=
  f.blocks.map Block.frame

end Markup

section Bodies

variable {F G : Type} (g : F → G) (d : Draft)

theorem openIf_map (b : IfBlock F) : openIf (b.map g) d = openIf b d := by
  have hlinks : ∀ d : Draft, (b.links.map (Arm.map g)).foldlM lowerLink d =
      b.links.foldlM lowerLink d := by
    intro d
    rw [List.foldlM_map]
    rfl
  simp only [openIf, IfBlock.map, hlinks]
  cases b.otherwise <;> rfl

theorem closeIf_map (b : IfBlock F) (stop : Nat) :
    closeIf (b.map g) stop d = closeIf b stop d := by
  simp only [closeIf, IfBlock.map, IfBlock.span, List.length_map]
  rfl

theorem openAwait_map (b : AwaitBlock F) :
    openAwait (b.map g) d = openAwait b d := by
  have hthen : ∀ d : Draft, lowerThen (b.map g) d = lowerThen b d := by
    intro d
    unfold lowerThen AwaitBlock.map
    cases b.pending <;> cases b.thenTag <;> rfl
  simp only [openAwait, hthen]
  unfold AwaitBlock.map
  cases b.rescue <;> rfl

theorem openBlock_map (b : Block F) :
    openBlock d (b.map g) = openBlock d b := by
  cases b with
  | conditional b => exact openIf_map g d b
  | each b => rfl
  | await b => exact openAwait_map g d b

theorem closeBlock_map (b : Block F) (stop : Nat) :
    closeBlock stop d (b.map g) = closeBlock stop d b := by
  cases b with
  | conditional b => exact closeIf_map g d b stop
  | each b =>
      simp only [closeBlock, Block.map, closeEach, EachBlock.map]
      cases b.fallback <;> rfl
  | await b => rfl

/-- **Lowering a block reads its frame only.**  The bodies are lowered on their
own, when the walk comes to the blocks in them. -/
theorem lowerBlock_frame (b : Block F) :
    lowerBlock d b.frame = lowerBlock d b := by
  have hspan : b.frame.span = b.span := by cases b <;> rfl
  have hkeyword : b.frame.keyword = b.keyword := by cases b <;> rfl
  have hopen : openBlock d b.frame = openBlock d b := openBlock_map _ d b
  have hclose : ∀ stop d, closeBlock stop d b.frame = closeBlock stop d b :=
    fun stop d =>
    closeBlock_map _ d b stop
  simp only [lowerBlock, hspan, hkeyword, hopen, hclose]

end Bodies

theorem lower_eq_frames (text : Text) (tree : Fragment) :
    lower text tree = tree.frames.foldlM lowerBlock (Draft.ofText text) := by
  have hframe : (fun (d : Draft) (b : Block Fragment) => lowerBlock d b.frame) =
      lowerBlock :=
    funext fun d => funext fun b => lowerBlock_frame d b
  rw [lower_eq_foldlM, FragmentOf.frames, List.foldlM_map, hframe]

/-- **Only the frames of blocks count.**  Two trees over one text whose blocks
have the same frames in the order of a walk give the same code and map, or the
same fault, however they differ in the other nodes, in the spans of their
fragments and in what is nested in what. -/
theorem transformTree_eq_of_frames (o : Options) (text : Text)
    {tree tree' : Fragment} (h : tree.frames = tree'.frames) :
    transformTree o text tree = transformTree o text tree' := by
  unfold transformTree
  rw [lower_eq_frames, lower_eq_frames, h]

def leadingConditional (body : Fragment) : Node :=
  .block (.conditional ⟨⟨⟨0, 12⟩, ⟨0, 7⟩, ⟨5, 6⟩, body⟩, [], none⟩)

def trailingIteration (body : Fragment) : Node :=
  .block (.each ⟨⟨12, 33⟩, ⟨12, 26⟩, ⟨19, 20⟩, ⟨"c".toList, ⟨24, 25⟩⟩, none,
    none, body, none⟩)

def siblingBlocks : Fragment :=
  ⟨⟨0, 33⟩, [leadingConditional ⟨⟨7, 7⟩, []⟩, trailingIteration ⟨⟨26, 26⟩, []⟩]⟩

/-- The iteration in the body of the conditional, in an element that the text
does not have, and every span that is not of a block out of place. -/
def nestedBlocks : Fragment :=
  ⟨⟨40, 2⟩, [.other (.element "p".toList) ⟨3, 1⟩
    [⟨⟨5, 5⟩, [leadingConditional
      ⟨⟨9, 0⟩, [trailingIteration ⟨⟨0, 0⟩, []⟩]⟩]⟩]]⟩

/-- Two blocks side by side are transformed as they are one inside the other. -/
theorem transformTree_eq_of_frames_regrouped :
    ∃ text output, text =
      "\x7b#if a\x7d\x7b/if\x7d\x7b#each b as c\x7d\x7b/each\x7d".toList ∧
      siblingBlocks.nodes.length = 2 ∧ nestedBlocks.nodes.length = 1 ∧
      transformTree .standard text siblingBlocks = .ok output ∧
      transformTree .standard text nestedBlocks = .ok output ∧
      output.code =
        ("<>\x7b() => \x7bif (a)\x7b<></>\x7d\x7d\x7d" ++
          "\x7b(b).map((c) => <></>)\x7d</>").toList := by
  obtain ⟨text, htext⟩ : ∃ text, text =
      "\x7b#if a\x7d\x7b/if\x7d\x7b#each b as c\x7d\x7b/each\x7d".toList :=
    ⟨_, rfl⟩
  have hframes : siblingBlocks.frames = nestedBlocks.frames := rfl
  have hsame := transformTree_eq_of_frames .standard text hframes
  have hcode : (transformTree .standard text siblingBlocks).toOption.map
      Output.code =
        some ("<>\x7b() => \x7bif (a)\x7b<></>\x7d\x7d\x7d" ++
          "\x7b(b).map((c) => <></>)\x7d</>").toList := by
    rw [htext]
    decide +kernel
  cases houtput : transformTree .standard text siblingBlocks with
  | error fault =>
      rw [houtput] at hcode
      cases hcode
  | ok output =>
      rw [houtput] at hcode
      exact ⟨text, output, htext, rfl, rfl, houtput, hsame.symm.trans houtput,
        Option.some.inj hcode⟩

end TemplateJsx
