import Mathlib.Data.List.Basic
import TemplateJsx.Proofs.Markup.SourceOrder

/-!
# A walk is a run over the list of nodes

A visitor has a state and may fail; it keeps its state when it does.  `Visits`
says what it is to show it a list of nodes from left to right: after a node that
it descends into comes the next one, after one that it skips comes the first
that is not nested in it, and after a failure nothing comes.  A walk over a
fragment is such a run over the list of all its nodes, each before those in it
(`follows_walkFragment`), and there is only one such run (`Visits.unique`).

The nodes that a walk enters are read off by `recording`, a visitor that does
what another one does and writes down each node with the answer that it got.
-/

namespace TemplateJsx.Markup

/-- A visitor with a state, which outlasts a failure. -/
abbrev Visitor (ε σ : Type) := Node → ExceptT ε (StateM σ) Step

/-- The nodes nested in a node, at any depth: all nodes in it but the first,
which is the node itself. -/
def Node.nested (n : Node) : List Node := n.allNodes.tail

theorem Node.nested_eq (n : Node) :
    n.nested = n.fragments.flatMap FragmentOf.allNodes := by
  rw [Node.nested, Node.allNodes_eq, List.tail_cons]

/-- The nodes that were entered, each with the answer for it. -/
abbrev Log (ε : Type) := List (Node × Except ε Step)

variable {ε σ : Type}

/-- Running the visitor over a list of nodes from a state, with what it enters,
the outcome and the last state.  A node that the visitor does not descend into
is followed by what comes after the nodes nested in it; a failure ends the
run. -/
inductive Visits (enter : Visitor ε σ) :
    List Node → σ → Log ε → Except ε Unit → σ → Prop
  | done (s : σ) : Visits enter [] s [] (.ok ()) s
  | descend {n : Node} {rest : List Node} {s s₁ s₂ : σ} {seen : Log ε}
      {out : Except ε Unit} (hn : (enter n).run.run s = (.ok .descend, s₁))
      (hrest : Visits enter rest s₁ seen out s₂) :
      Visits enter (n :: rest) s ((n, .ok .descend) :: seen) out s₂
  | skip {n : Node} {rest : List Node} {s s₁ s₂ : σ} {seen : Log ε}
      {out : Except ε Unit} (hn : (enter n).run.run s = (.ok .skip, s₁))
      (hrest : Visits enter rest s₁ seen out s₂) :
      Visits enter (n :: (n.nested ++ rest)) s ((n, .ok .skip) :: seen) out s₂
  | fail {n : Node} {rest : List Node} {s s₁ : σ} {e : ε}
      (hn : (enter n).run.run s = (.error e, s₁)) :
      Visits enter (n :: rest) s [(n, .error e)] (.error e) s₁

namespace Visits

variable {enter : Visitor ε σ} {ns : List Node} {s s' : σ} {seen : Log ε}
  {out : Except ε Unit}

/-- A list of nodes is run over in one way only. -/
theorem unique {s₁ s₂ : σ} {seen₁ seen₂ : Log ε} {out₁ out₂ : Except ε Unit}
    (h₁ : Visits enter ns s seen₁ out₁ s₁)
    (h₂ : Visits enter ns s seen₂ out₂ s₂) :
    seen₁ = seen₂ ∧ out₁ = out₂ ∧ s₁ = s₂ := by
  induction h₁ generalizing seen₂ out₂ s₂ with
  | done s =>
      cases h₂
      exact ⟨rfl, rfl, rfl⟩
  | descend hn _ ih =>
      cases h₂ with
      | descend hn' hrest' =>
          cases hn.symm.trans hn'
          obtain ⟨rfl, rfl, rfl⟩ := ih hrest'
          exact ⟨rfl, rfl, rfl⟩
      | skip hn' _ => cases hn.symm.trans hn'
      | fail hn' => cases hn.symm.trans hn'
  | @skip n rest _ _ _ _ _ hn _ ih =>
      -- What was skipped is cut off the list again, since the node says what is
      -- nested in it.
      generalize hns : n :: (n.nested ++ rest) = ns at h₂
      cases h₂ with
      | done => cases hns
      | descend hn' _ =>
          cases hns
          cases hn.symm.trans hn'
      | skip hn' hrest' =>
          obtain ⟨rfl, htail⟩ := List.cons.inj hns
          obtain rfl := List.append_cancel_left htail
          cases hn.symm.trans hn'
          obtain ⟨rfl, rfl, rfl⟩ := ih hrest'
          exact ⟨rfl, rfl, rfl⟩
      | fail hn' =>
          cases hns
          cases hn.symm.trans hn'
  | fail hn =>
      cases h₂ with
      | descend hn' _ => cases hn.symm.trans hn'
      | skip hn' _ => cases hn.symm.trans hn'
      | fail hn' =>
          cases hn.symm.trans hn'
          exact ⟨rfl, rfl, rfl⟩

/-- The nodes entered are some of the list, in its order. -/
theorem sublist (h : Visits enter ns s seen out s') :
    (seen.map Prod.fst).Sublist ns := by
  induction h with
  | done s => exact .slnil
  | descend _ _ ih => exact ih.cons_cons _
  | skip _ _ ih => exact (ih.trans (List.sublist_append_right _ _)).cons_cons _
  | fail _ => exact (List.nil_sublist _).cons_cons _

/-- Without a skip or a failure all nodes are entered. -/
theorem entered_eq (h : Visits enter ns s seen out s')
    (hall : ∀ x ∈ seen, x.2 = .ok .descend) :
    seen.map Prod.fst = ns := by
  induction h with
  | done s => rfl
  | descend _ _ ih =>
      rw [List.map_cons, ih fun x hx => hall x (List.mem_cons_of_mem _ hx)]
  | skip _ _ _ => cases hall _ List.mem_cons_self
  | fail _ => cases hall _ List.mem_cons_self

end Visits

/-! ## Walks -/

section Walks

variable (enter : Visitor ε σ)

def Follows (ns : List Node) (action : ExceptT ε (StateM σ) Unit) : Prop :=
  ∀ s, ∃ seen, Visits enter ns s seen (action.run.run s).1 (action.run.run s).2

/-- An action that runs over some nodes and leaves what follows them to the next
action.  It has to be said with what follows, since a failure ends the run over
that as well. -/
def Leads (ns : List Node) (action : ExceptT ε (StateM σ) Unit) : Prop :=
  ∀ rest next, Follows enter rest next →
    Follows enter (ns ++ rest) (action >>= fun _ => next)

variable {enter}

theorem follows_nil : Follows enter [] (pure ()) := fun s => ⟨[], .done s⟩

theorem leads_runAll {α : Type} {xs : List α} {nodes : α → List Node}
    {action : α → ExceptT ε (StateM σ) Unit}
    (h : ∀ x ∈ xs, Leads enter (nodes x) (action x)) :
    Leads enter (xs.flatMap nodes) (runAll (xs.map action)) := by
  induction xs with
  | nil =>
      intro rest next hnext
      simpa [runAll] using hnext
  | cons x xs ih =>
      intro rest next hnext
      have htail :=
        ih (fun y hy => h y (List.mem_cons_of_mem x hy)) rest next hnext
      have hhead := h x List.mem_cons_self _ _ htail
      simpa [runAll] using hhead

theorem run_bind_ok {α β : Type} {x : ExceptT ε (StateM σ) α}
    {k : α → ExceptT ε (StateM σ) β} {s s₁ : σ} {a : α}
    (hx : x.run.run s = (.ok a, s₁)) :
    (x >>= k).run.run s = (k a).run.run s₁ := by
  simp only [ExceptT.run_bind, StateT.run_bind, hx]
  rfl

theorem run_bind_error {α β : Type} {x : ExceptT ε (StateM σ) α}
    {k : α → ExceptT ε (StateM σ) β} {s s₁ : σ} {e : ε}
    (hx : x.run.run s = (.error e, s₁)) :
    (x >>= k).run.run s = (.error e, s₁) := by
  simp only [ExceptT.run_bind, StateT.run_bind, hx]
  rfl

/-- Entering a node runs over it, and over the nodes nested in it if the visitor
descends. -/
theorem leads_enterNode {n : Node} {inside : List (ExceptT ε (StateM σ) Unit)}
    (h : Leads enter n.nested (runAll inside)) :
    Leads enter (n :: n.nested) (enterNode enter n inside) := by
  intro rest next hnext s
  unfold enterNode
  rw [bind_assoc]
  cases hn : (enter n).run.run s with
  | mk answer s₁ =>
      cases answer with
      | error e =>
          rw [run_bind_error hn]
          exact ⟨_, .fail hn⟩
      | ok step =>
          rw [run_bind_ok hn]
          cases step with
          | skip =>
              obtain ⟨seen, hseen⟩ := hnext s₁
              exact ⟨_, .skip hn (by simpa using hseen)⟩
          | descend =>
              obtain ⟨seen, hseen⟩ := h rest next hnext s₁
              exact ⟨_, .descend hn hseen⟩

theorem leads_walkNode (n : Node) :
    Leads enter n.allNodes (walkNode enter n) := by
  induction n using Node.induct with
  | step n ih =>
      rw [Node.allNodes_eq, ← Node.nested_eq, walkNode_eq]
      refine leads_enterNode ?_
      rw [Node.nested_eq]
      refine leads_runAll ?_
      intro f hf
      rw [FragmentOf.allNodes_eq, walkFragment_eq]
      exact leads_runAll (ih f hf)

variable (enter)

/-- **A walk over a fragment runs over all its nodes.**  The walk is a fold that
hands out actions, and the list of nodes is written out by recursion; this is
where the two meet. -/
theorem follows_walkFragment (f : Fragment) :
    Follows enter f.allNodes (walkFragment enter f) := by
  have hwalk : Leads enter (f.nodes.flatMap Node.allNodes)
      (runAll (f.nodes.map (walkNode enter))) :=
    leads_runAll fun n _ => leads_walkNode n
  rw [FragmentOf.allNodes_eq, walkFragment_eq]
  simpa using hwalk [] (pure ()) follows_nil

end Walks

/-! ## The nodes that are entered -/

section Entered

/-- A visitor that does what another one does, and writes down every node with
the answer for it.  What a walk enters can be seen in this way without a change
to the walk. -/
def recording (enter : Visitor ε σ) : Visitor ε (σ × Log ε) := fun n =>
  ExceptT.mk fun (s, seen) =>
    let (answer, s₁) := (enter n).run.run s
    (answer, (s₁, seen ++ [(n, answer)]))

def entered (enter : Visitor ε σ) (f : Fragment) (s : σ) : Log ε :=
  ((walkFragment (recording enter) f).run.run (s, [])).2.2

variable {enter : Visitor ε σ}

theorem recording_run {n : Node} {x x₁ : σ × Log ε} {answer : Except ε Step}
    (h : (recording enter n).run.run x = (answer, x₁)) :
    (enter n).run.run x.1 = (answer, x₁.1) ∧ x₁.2 = x.2 ++ [(n, answer)] := by
  cases h
  exact ⟨rfl, rfl⟩

/-- A run that is written down is a run, and all that it enters is written
down. -/
theorem Visits.of_recording {ns : List Node} {x x' : σ × Log ε} {seen : Log ε}
    {out : Except ε Unit} (h : Visits (recording enter) ns x seen out x') :
    Visits enter ns x.1 seen out x'.1 ∧ x'.2 = x.2 ++ seen := by
  induction h with
  | done x => exact ⟨.done x.1, by simp⟩
  | descend hn _ ih =>
      obtain ⟨hn, hwritten⟩ := recording_run hn
      exact ⟨.descend hn ih.1, by simp [ih.2, hwritten]⟩
  | skip hn _ ih =>
      obtain ⟨hn, hwritten⟩ := recording_run hn
      exact ⟨.skip hn ih.1, by simp [ih.2, hwritten]⟩
  | fail hn =>
      obtain ⟨hn, hwritten⟩ := recording_run hn
      exact ⟨.fail hn, hwritten⟩

theorem visits_entered (enter : Visitor ε σ) (f : Fragment) (s : σ) :
    Visits enter f.allNodes s (entered enter f s)
      ((walkFragment enter f).run.run s).1
      ((walkFragment enter f).run.run s).2 := by
  obtain ⟨seen, hwalk⟩ := follows_walkFragment enter f s
  obtain ⟨seen', hrecorded⟩ := follows_walkFragment (recording enter) f (s, [])
  obtain ⟨hrun, hwritten⟩ := hrecorded.of_recording
  obtain ⟨rfl, -, -⟩ := hwalk.unique hrun
  have hentered : entered enter f s = seen := hwritten
  rwa [hentered]

end Entered

/-- **A walk is the run of the visitor over the list of all nodes.**  Without a
skip or a failure it enters them all.  In the tree of a text it enters every
node after those that begin before it, hence none twice. -/
theorem walkFragment_visits (enter : Visitor ε σ) (f : Fragment) (s : σ) :
    (∀ seen out s', Visits enter f.allNodes s seen out s' ↔
      seen = entered enter f s ∧ (walkFragment enter f).run.run s = (out, s')) ∧
    ((∀ x ∈ entered enter f s, x.2 = .ok .descend) →
      (entered enter f s).map Prod.fst = f.allNodes) ∧
    ∀ text, parse text = .ok f →
      (((entered enter f s).map Prod.fst).Pairwise fun a b =>
        a.span.start < b.span.start) ∧
        ((entered enter f s).map Prod.fst).Nodup := by
  have hvisits := visits_entered enter f s
  refine ⟨?_, hvisits.entered_eq, ?_⟩
  · intro seen out s'
    constructor
    · intro h
      obtain ⟨hseen, hout, hstate⟩ := h.unique hvisits
      exact ⟨hseen, Prod.ext hout.symm hstate.symm⟩
    · intro h
      obtain ⟨rfl, hrun⟩ := h
      rw [hrun] at hvisits
      exact hvisits
  · intro text hparse
    obtain ⟨-, hsound⟩ := sound_of_parse hparse
    have hstarts := hsound.starts_ascend.sublist hvisits.sublist
    refine ⟨hstarts, hstarts.imp ?_⟩
    intro a b hlt heq
    rw [heq] at hlt
    exact Nat.lt_irrefl _ hlt

/-- Counts the nodes that it enters, leaves elements alone and fails at the
fifth node. -/
def countNodes : Visitor String Nat := fun n => do
  let count ← get
  if count = 4 then throw ("stopped at " ++ n.typeName)
  set (count + 1)
  return if n.typeName = "Element" then .skip else .descend

/-- An iteration around a chain of arms, with a node in an element and one after
the iteration. -/
def nestedArms : Text :=
  ("\x7b#each xs as x\x7d\x7b#if x\x7d<b>\x7bx\x7d</b>\x7b:else if y\x7d-" ++
    "\x7b:else\x7d+\x7b/if\x7d\x7b/each\x7dz").toList

/-- The walk leaves out what is nested in the element, and is ended by the
failure in the `else` body, so that the node after the iteration is not
entered. -/
theorem walkFragment_visits_arms :
    ∃ tree, parse nestedArms = .ok tree ∧
      tree.allNodes.map (fun n => n.span.start) = [0, 15, 22, 25, 44, 52, 65] ∧
      (entered countNodes tree 0).map (fun x =>
        (x.1.typeName, x.1.span.start)) =
        [("EachBlock", 0), ("IfBlock", 15), ("Element", 22), ("Text", 44),
          ("Text", 52)] ∧
      (walkFragment countNodes tree).run.run 0 = (.error "stopped at Text", 4) ∧
      (∀ seen out s', Visits countNodes tree.allNodes 0 seen out s' ↔
        seen = entered countNodes tree 0 ∧
          (walkFragment countNodes tree).run.run 0 = (out, s')) ∧
      (((entered countNodes tree 0).map Prod.fst).Pairwise
        fun a b => a.span.start < b.span.start) ∧
      ((entered countNodes tree 0).map Prod.fst).Nodup := by
  obtain ⟨tree, htree, hfound⟩ : ∃ tree, parse nestedArms = .ok tree ∧
      (tree.allNodes.map (fun n => n.span.start),
        (entered countNodes tree 0).map (fun x =>
          (x.1.typeName, x.1.span.start)),
        ((walkFragment countNodes tree).run.run 0).1,
        ((walkFragment countNodes tree).run.run 0).2) =
      ([0, 15, 22, 25, 44, 52, 65],
        [("EachBlock", 0), ("IfBlock", 15), ("Element", 22), ("Text", 44),
          ("Text", 52)], .error "stopped at Text", 4) :=
    exists_tree_of_map (by decide +kernel)
  simp only [Prod.mk.injEq] at hfound
  obtain ⟨hstarts, hentered, hout, hcount⟩ := hfound
  obtain ⟨hruns, -, hparsed⟩ := walkFragment_visits countNodes tree 0
  exact ⟨tree, htree, hstarts, hentered, Prod.ext hout hcount, hruns,
    hparsed nestedArms htree⟩

end TemplateJsx.Markup
