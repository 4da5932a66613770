import Mathlib.Data.List.Basic
import TemplateJsx.Files.Run
import TemplateJsx.Proofs.Files.Places

/-!
# Paths below a directory

The path of a file below a directory is the path of the directory followed by
names (`Path.below`).  Going up from it, going from one directory to the same
names below another, and the outputs of a template are all read off from these
names: `place_parent`, `place_targetDirectory`, `place_outputsIn`.
-/

namespace TemplateJsx

namespace Path

variable {a : Bool} {segments : List Text}

/-! ## Components -/

theorem laterComponent?_name {n : Text} (h : isName n = true) :
    laterComponent? n = some (.name n) := by
  obtain ⟨hempty, hhere, hup⟩ := isName_iff.1 h
  simp [laterComponent?, hempty, hhere, hup]

theorem laterComponent?_blank {s : Text} (h : s = [] ∨ s = ['.']) :
    laterComponent? s = none := by
  rcases h with rfl | rfl <;> rfl

theorem components_concat {n : Text} (h : isName n = true) :
    components ⟨a, segments ++ [n]⟩ = components ⟨a, segments⟩ ++
      [.name n] := by
  obtain ⟨-, hhere, -⟩ := isName_iff.1 h
  cases a with
  | true => simp [components, laterComponent?_name h]
  | false => cases segments <;> simp [components, laterComponent?_name h, hhere]

theorem components_append_names {names : List Text}
    (h : ∀ n ∈ names, isName n = true) :
    components ⟨a, segments ++ names⟩ = components ⟨a, segments⟩ ++
      names.map .name := by
  induction names generalizing segments with
  | nil => simp
  | cons n names ih =>
      obtain ⟨hn, hnames⟩ := List.forall_mem_cons.1 h
      have hsplit : segments ++ n :: names = segments ++ [n] ++ names := by simp
      rw [hsplit, ih hnames, components_concat hn, List.map_cons,
        List.append_assoc, List.singleton_append]

/-- Segments that mean nothing add no component, except for a dot that comes
first. -/
theorem components_append_blank {junk : List Text}
    (h : ∀ s ∈ junk, s = [] ∨ s = ['.'])
    (hfirst : segments ≠ [] ∨ a = true ∨ junk.head? ≠ some ['.']) :
    components ⟨a, segments ++ junk⟩ = components ⟨a, segments⟩ := by
  have hnone : ∀ rest : List Text, (∀ s ∈ rest, s = [] ∨ s = ['.']) →
      rest.filterMap laterComponent? = [] := by
    intro rest hrest
    rw [List.filterMap_eq_nil_iff]
    exact fun s hs => laterComponent?_blank (hrest s hs)
  cases a with
  | true => simp [components, hnone junk h]
  | false =>
      cases segments with
      | cons first rest => simp [components, hnone junk h]
      | nil =>
          cases junk with
          | nil => rfl
          | cons s rest =>
              obtain ⟨hs, hrest⟩ := List.forall_mem_cons.1 h
              have hdot : s ≠ ['.'] := by simpa using hfirst
              simp [components, hdot, laterComponent?_blank hs,
                hnone rest hrest]

/-! ## Going down -/

/-- The segments of a path without an empty one at the end. -/
def front (p : Path) : List Text :=
  if p.segments.getLast? = some [] then p.segments.dropLast else p.segments

theorem segments_eq_front (p : Path) :
    p.segments = p.front ∨ p.segments = p.front ++ [[]] := by
  unfold front
  split
  · rename_i hlast
    obtain ⟨first, hfirst⟩ := List.getLast?_eq_some_iff.1 hlast
    simp [hfirst]
  · exact .inl rfl

theorem components_front (p : Path) :
    components ⟨p.absolute, p.front⟩ = p.components := by
  have hp : p.components = components ⟨p.absolute, p.segments⟩ := rfl
  rcases segments_eq_front p with h | h
  · rw [hp, ← h]
  · rw [hp, h, components_append_blank] <;> simp

/-- The path of what lies below a directory under some names.  It keeps the way
the directory itself was written. -/
def below (p : Path) (names : List Text) : Path :=
  ⟨p.absolute, p.front ++ names⟩

theorem front_of_concat {n : Text} (h : n ≠ []) :
    front ⟨a, segments ++ [n]⟩ = segments ++ [n] := by
  simp [front, h]

theorem join_eq {p q : Path} (h : q.absolute = false) :
    p.join q = p.below q.segments := by
  simp [join, h, below, front]

theorem child_eq (p : Path) (n : Text) : p.child n = p.below [n] := join_eq rfl

theorem foldl_child {names : List Text} (hne : names ≠ [])
    (h : ∀ n ∈ names, isName n = true) (p : Path) :
    names.foldl child p = p.below names := by
  induction names generalizing p with
  | nil => exact absurd rfl hne
  | cons n names ih =>
      obtain ⟨hn, hnames⟩ := List.forall_mem_cons.1 h
      rw [List.foldl_cons, child_eq]
      cases names with
      | nil => rfl
      | cons m names =>
          rw [ih (by simp) hnames, below, below]
          simp [front_of_concat (isName_iff.1 hn).1, below]

/-! ## Going up -/

/-- What is cut off at the end means nothing, and a path is not emptied of a dot
that comes first. -/
theorem trimEnd_append (a : Bool) (segments : List Text) :
    ∃ junk, segments = trimEnd a segments ++ junk ∧
      (∀ s ∈ junk, s = [] ∨ s = ['.']) ∧
      (trimEnd a segments ≠ [] ∨ a = true ∨ junk.head? ≠ some ['.']) := by
  cases segments with
  | nil => exact ⟨[], rfl, by simp, by simp⟩
  | cons first rest =>
      have hsplit : rest = (rest.reverse.dropWhile fun s =>
          s = [] || s = ['.']).reverse ++
          (rest.reverse.takeWhile fun s => s = [] || s = ['.']).reverse := by
        rw [← List.reverse_append, List.takeWhile_append_dropWhile,
          List.reverse_reverse]
      have hjunk : ∀ s ∈ (rest.reverse.takeWhile fun s =>
          s = [] || s = ['.']).reverse, s = [] ∨ s = ['.'] := by
        intro s hs
        simpa using List.all_eq_true.1 List.all_takeWhile s
          (List.mem_reverse.1 hs)
      simp only [trimEnd]
      split
      · rename_i hdrop
        simp only [Bool.and_eq_true, List.isEmpty_iff, Bool.or_eq_true,
          decide_eq_true_eq] at hdrop
        obtain ⟨hrest, hfirst⟩ := hdrop
        rw [hrest, List.nil_append] at hsplit
        refine ⟨first :: rest, rfl, List.forall_mem_cons.2 ⟨?_, ?_⟩, .inr ?_⟩
        · exact hfirst.imp_right And.right
        · rw [hsplit]
          exact hjunk
        · rcases hfirst with rfl | ⟨habsolute, -⟩
          · exact .inr (by simp)
          · exact .inl habsolute
      · exact ⟨_, congrArg (first :: ·) hsplit, hjunk, .inl (by simp)⟩

def trimmed (a : Bool) (segments : List Text) : Path :=
  match trimEnd a segments with
  | [] => ⟨a, [[]]⟩
  | segments => ⟨a, segments⟩

theorem components_trimmed (a : Bool) (segments : List Text) :
    (trimmed a segments).components = components ⟨a, segments⟩ := by
  obtain ⟨junk, hsegments, hjunk, hfirst⟩ := trimEnd_append a segments
  have hcut := components_append_blank hjunk hfirst
  rw [← hsegments] at hcut
  rw [hcut, trimmed]
  cases trimEnd a segments with
  | nil => cases a <;> rfl
  | cons first rest => rfl

/-- Nothing is cut off after a name. -/
theorem trimEnd_concat {n : Text} (h : isName n = true) :
    trimEnd a (segments ++ [n]) = segments ++ [n] := by
  obtain ⟨hempty, hhere, -⟩ := isName_iff.1 h
  cases segments with
  | nil => simp [trimEnd, hempty, hhere]
  | cons first rest => simp [trimEnd, hempty, hhere]

/-- From a path that ends with a name one goes up by leaving the name out. -/
theorem parent?_concat {n : Text} (h : isName n = true) :
    parent? ⟨a, segments ++ [n]⟩ = some (trimmed a segments) := by
  simp only [parent?, body, trimEnd_concat h, List.dropLast_concat, trimmed]
  rw [if_neg (by simp)]
  cases trimEnd a segments with
  | nil => rfl
  | cons first rest => rfl

theorem fileName?_concat {n : Text} (h : isName n = true) :
    fileName? ⟨a, segments ++ [n]⟩ = some n := by
  simp [fileName?, components_concat h]

theorem parent?_below {names : List Text} {n : Text} (h : isName n = true)
    (p : Path) :
    (p.below (names ++ [n])).parent? =
      some (trimmed p.absolute (p.front ++ names)) := by
  rw [below, ← List.append_assoc]
  exact parent?_concat h

theorem relativeTo?_of_components {p directory : Path} {names : List Text}
    (h : p.components = directory.components ++ names.map .name) :
    p.relativeTo? directory = some (if names.isEmpty then empty
      else ⟨false, names⟩) := by
  have hrest : directory.components.isPrefixOf? p.components =
      some (names.map .name) :=
    List.isPrefixOf?_eq_some_iff_append_eq.2 h.symm
  have htext : (names.map Component.name).map Component.text = names := by
    rw [List.map_map]
    exact List.map_id names
  simp [relativeTo?, hrest, htext]

end Path

/-! ## Places -/

namespace FileTree

variable {t : FileTree} {names : List Text} {n : Text}

theorem foldl_enter_blank {junk : List Text}
    (h : ∀ s ∈ junk, s = [] ∨ s = ['.']) (l : Location) :
    junk.foldl Location.enter l = l := by
  induction junk with
  | nil => rfl
  | cons s junk ih =>
      obtain ⟨hs, hjunk⟩ := List.forall_mem_cons.1 h
      rw [List.foldl_cons, Location.enter_blank hs, ih hjunk]

theorem place_below (t : FileTree) (p : Path) (segments : List Text) :
    t.place (p.below segments) = segments.foldl Location.enter (t.place p) := by
  have hfront : t.place p = p.front.foldl Location.enter
      (if p.absolute then [] else t.working) := by
    unfold place
    rcases p.segments_eq_front with h | h
    · rw [← h]
    · rw [h, List.foldl_append, foldl_enter_blank (by simp)]
  rw [hfront, ← List.foldl_append]
  rfl

theorem place_below_names (hnames : ∀ n ∈ names, isName n = true) (p : Path) :
    t.place (p.below names) = t.place p ++ names := by
  rw [place_below, Location.foldl_enter_names hnames]

theorem place_child (hn : isName n = true) (p : Path) :
    t.place (p.child n) = t.place p ++ [n] := by
  rw [Path.child_eq, place_below_names (by simpa using hn)]

theorem place_trimmed (t : FileTree) (a : Bool) (segments : List Text) :
    t.place (Path.trimmed a segments) = t.place ⟨a, segments⟩ := by
  obtain ⟨junk, hsegments, hjunk, -⟩ := Path.trimEnd_append a segments
  have hcut : t.place ⟨a, segments⟩ = t.place ⟨a, Path.trimEnd a segments⟩ := by
    have happend : t.place ⟨a, Path.trimEnd a segments ++ junk⟩ =
        t.place ⟨a, Path.trimEnd a segments⟩ := by
      simp only [place, List.foldl_append, foldl_enter_blank hjunk]
    rwa [← hsegments] at happend
  rw [hcut, Path.trimmed]
  cases Path.trimEnd a segments with
  | nil => rfl
  | cons first rest => rfl

theorem place_parent (hnames : ∀ n ∈ names, isName n = true)
    (hn : isName n = true) (root : Path) :
    ∃ directory, (root.below (names ++ [n])).parent? = some directory ∧
      t.place directory = t.place root ++ names ∧
      directory.components = root.components ++ names.map .name := by
  refine ⟨_, Path.parent?_below hn root, ?_, ?_⟩
  · rw [place_trimmed]
    exact place_below_names hnames root
  · rw [Path.components_trimmed, Path.components_append_names hnames,
      Path.components_front]

/-- Below the directory for outputs the names are the same as below the
directory of the templates.  Two templates of one name in different directories
do not get in each other's way. -/
theorem place_targetDirectory (hnames : ∀ n ∈ names, isName n = true)
    (hn : isName n = true) (root out : Path) :
    t.place (targetDirectory root out (root.below (names ++ [n]))) =
      t.place out ++ names := by
  obtain ⟨directory, hparent, -, hcomponents⟩ :=
    place_parent (t := t) hnames hn root
  rw [targetDirectory, hparent, Option.bind_some,
    Path.relativeTo?_of_components hcomponents, Option.getD_some]
  cases names with
  | nil =>
      rw [List.isEmpty_nil, if_pos rfl, Path.join_eq rfl, place_below,
        List.append_nil]
      rfl
  | cons first rest =>
      rw [List.isEmpty_cons, if_neg (by simp), Path.join_eq rfl]
      exact place_below_names hnames out

end FileTree

/-! ## Templates and outputs -/

theorem Text.joinWith_concat {divider : Char} {pieces : List Text}
    (h : pieces ≠ []) (last : Text) :
    joinWith divider (pieces ++ [last]) = joinWith divider pieces ++
      divider :: last := by
  induction pieces with
  | nil => exact absurd rfl h
  | cons piece pieces ih =>
      cases pieces with
      | nil => rfl
      | cons next pieces =>
          have hnext := ih (by simp)
          simp only [List.cons_append] at hnext ⊢
          simp [joinWith, hnext]

/-- A name with an extension is its stem, a dot and the extension. -/
theorem Path.splitName_eq {name extension : Text}
    (h : (splitName name).2 = some extension) :
    name = (splitName name).1 ++ '.' :: extension := by
  have hpieces := Text.joinWith_split '.' name
  unfold splitName at h ⊢
  simp only at h ⊢
  split at h
  · cases h
  · rename_i hstem
    rw [if_neg hstem]
    obtain ⟨first, hfirst⟩ := List.getLast?_eq_some_iff.1 h
    have hne : first ≠ [] := by
      rintro rfl
      simp [hfirst] at hstem
    rw [hfirst, Text.joinWith_concat hne] at hpieces
    rw [hfirst, List.dropLast_concat, hpieces]

namespace Path

variable {a : Bool} {segments : List Text} {n : Text}

theorem isTemplate_last (hn : isName n = true) :
    isTemplate ⟨a, segments ++ [n]⟩ = decide
      ((splitName n).2 = some "svelte".toList) := by
  unfold isTemplate extension?
  rw [fileName?_concat hn]
  rfl

/-- A template is named by its stem and the extension of templates. -/
theorem isTemplate_concat (hn : isName n = true)
    (h : isTemplate ⟨a, segments ++ [n]⟩ = true) :
    ∃ stem, n = stem ++ ".svelte".toList ∧
      stem? ⟨a, segments ++ [n]⟩ = some stem := by
  have hname : fileName? ⟨a, segments ++ [n]⟩ = some n := fileName?_concat hn
  rw [isTemplate_last hn] at h
  have hextension : (splitName n).2 = some "svelte".toList :=
    of_decide_eq_true h
  exact ⟨(splitName n).1, splitName_eq hextension, by simp [stem?, hname]⟩

theorem isName_of_length (h : 2 < n.length) : isName n = true := by
  refine isName_iff.2 ⟨?_, ?_, ?_⟩
  all_goals
    rintro rfl
    simp at h

def codeName (template : Path) : Text :=
  template.stem?.getD "output".toList ++ ".jsx".toList

def mapName (template : Path) : Text :=
  template.stem?.getD "output".toList ++ ".jsx.map".toList

theorem isName_codeName (template : Path) :
    isName template.codeName = true := by
  apply isName_of_length
  have hlength : ".jsx".toList.length = 4 := rfl
  rw [codeName, List.length_append, hlength]
  omega

theorem isName_mapName (template : Path) : isName template.mapName = true := by
  apply isName_of_length
  have hlength : ".jsx.map".toList.length = 8 := rfl
  rw [mapName, List.length_append, hlength]
  omega

theorem getLast?_codeName (template : Path) :
    template.codeName.getLast? = some 'x' := by
  rw [codeName, List.getLast?_append]
  rfl

theorem getLast?_mapName (template : Path) :
    template.mapName.getLast? = some 'p' := by
  rw [mapName, List.getLast?_append]
  rfl

theorem codeName_ne_mapName (p q : Path) : p.codeName ≠ q.mapName := by
  intro h
  have hlast := getLast?_codeName p
  rw [h, getLast?_mapName] at hlast
  cases hlast

/-- What does not end in the letter that the name of a template ends in is no
template. -/
theorem isTemplate_of_getLast? {c : Char} (hn : isName n = true)
    (hc : n.getLast? = some c) (hne : c ≠ 'e') :
    isTemplate ⟨a, segments ++ [n]⟩ = false := by
  cases htemplate : isTemplate ⟨a, segments ++ [n]⟩ with
  | false => rfl
  | true =>
      obtain ⟨stem, rfl, -⟩ := isTemplate_concat hn htemplate
      have hlast : (stem ++ ".svelte".toList).getLast? = some 'e' := by
        rw [List.getLast?_append]
        rfl
      exact absurd (Option.some.inj (hc.symm.trans hlast)) hne

end Path

theorem FileTree.place_outputsIn (t : FileTree) (template directory : Path) :
    t.place (template.outputsIn directory).code =
      t.place directory ++ [template.codeName] ∧
      t.place (template.outputsIn directory).map =
        t.place directory ++ [template.mapName] :=
  ⟨place_child template.isName_codeName directory,
    place_child template.isName_mapName directory⟩

/-- The code and the map of a template are two files. -/
theorem FileTree.place_code_ne_map (t : FileTree) (template directory : Path) :
    t.place (template.outputsIn directory).code ≠
      t.place (template.outputsIn directory).map := by
  rw [(t.place_outputsIn template directory).1,
    (t.place_outputsIn template directory).2]
  intro h
  have hnames := List.append_cancel_left h
  exact template.codeName_ne_mapName template (List.cons.inj hnames).1

/-! ## The order of paths -/

/-- The characters of a name; other components have none. -/
def Component.letters : Component → Text
  | name n => n
  | _ => []

/-- Components are compared by their sort and then by their characters. -/
theorem Component.order_eq :
    Component.order = compareLex (compareOn Component.rank)
      (compareOn Component.letters) := by
  funext x y
  cases x <;> cases y <;> rfl

instance : Std.TransCmp Component.order := by
  rw [Component.order_eq]
  infer_instance

namespace Path

theorem precedes_total (p q : Path) (h : p.precedes q = false) :
    q.precedes p = true := by
  unfold precedes at h ⊢
  have hswap : List.compareLex Component.order q.components p.components =
      (List.compareLex Component.order p.components q.components).swap :=
        Std.OrientedCmp.eq_swap
  rw [hswap]
  cases hcmp : List.compareLex Component.order p.components q.components <;>
    simp [hcmp] at h ⊢

theorem precedes_trans (p q r : Path) (hpq : p.precedes q = true)
    (hqr : q.precedes r = true) :
    p.precedes r = true :=
  Std.TransCmp.isLE_trans hpq hqr

theorem compareLex_append_left {α : Type} {cmp : α → α → Ordering}
    [Std.ReflCmp cmp] (first xs ys : List α) :
    List.compareLex cmp (first ++ xs) (first ++ ys) =
      List.compareLex cmp xs ys := by
  induction first with
  | nil => rfl
  | cons a first ih =>
      have hself : cmp a a = .eq := Std.ReflCmp.compare_self
      rw [List.cons_append, List.cons_append, List.compareLex_cons_cons, hself,
        ih, Ordering.eq_then]

theorem compareLex_map_name (ns ms : List Text) :
    List.compareLex Component.order (ns.map .name) (ms.map .name) =
      List.compareLex (List.compareLex compare) ns ms := by
  induction ns generalizing ms with
  | nil => cases ms <;> rfl
  | cons n ns ih =>
      cases ms with
      | nil => rfl
      | cons m ms =>
          rw [List.map_cons, List.map_cons, List.compareLex_cons_cons,
            List.compareLex_cons_cons, ih, Component.order]

/-- Of two lists the lesser one is lesser where they first differ, or ends
there. -/
theorem lex_of_compareLex {α : Type} {cmp : α → α → Ordering} {r : α → α → Prop}
    (hlt : ∀ a b, cmp a b = .lt → r a b) (heq : ∀ a b, cmp a b = .eq → a = b)
    {xs ys : List α} (h : List.compareLex cmp xs ys = .lt) :
    List.Lex r xs ys := by
  induction xs generalizing ys with
  | nil =>
      cases ys with
      | nil => cases h
      | cons y ys => exact .nil
  | cons x xs ih =>
      cases ys with
      | nil => cases h
      | cons y ys =>
          rw [List.compareLex_cons_cons, Ordering.then_eq_lt] at h
          rcases h with hhead | ⟨hhead, htail⟩
          · exact .rel (hlt x y hhead)
          · rw [heq x y hhead]
            exact .cons (ih htail)

/-- Two paths below one directory are in order if, where the names on the way to
them first differ, the characters of the names are.  The divider between names
plays no part, unlike in an order of the written paths. -/
theorem lex_of_precedes_below {ns ms : List Text}
    (hns : ∀ n ∈ ns, isName n = true) (hms : ∀ m ∈ ms, isName m = true)
    {root : Path} (hne : ns ≠ ms)
    (h : (root.below ns).precedes (root.below ms) = true) :
    List.Lex (List.Lex (· < ·)) ns ms := by
  have hbelow : ∀ names : List Text, (∀ n ∈ names, isName n = true) →
      (root.below names).components = root.components ++ names.map .name :=
        fun names h => by
    rw [below, components_append_names h, components_front]
  have hcmp : (List.compareLex (List.compareLex compare) ns ms).isLE =
      true := by
    rw [← compareLex_map_name, ← compareLex_append_left
      root.components, ← hbelow ns hns, ← hbelow ms hms]
    exact h
  have hchars : ∀ a b : Char, compare a b = .eq → a = b := fun _ _ =>
    Std.LawfulEqCmp.eq_of_compare
  have hnames : ∀ m n : Text, List.compareLex compare m n = .eq → m = n :=
    fun _ _ =>
    Std.LawfulEqCmp.eq_of_compare
  refine lex_of_compareLex (fun m n hmn => ?_) hnames ?_
  · exact lex_of_compareLex (fun _ _ => compareOfLessAndEq_eq_lt.1) hchars hmn
  · rcases Ordering.isLE_iff_eq_lt_or_eq_eq.1 hcmp with hlt | hsame
    · exact hlt
    · exact absurd (Std.LawfulEqCmp.eq_of_compare hsame) hne

end Path

end TemplateJsx
