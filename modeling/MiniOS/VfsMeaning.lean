import MiniOS.PathNormaliser

/-!
# The meaning of a path

In a tree whose lookups do not change, a path is a list of names and a lookup is a walk
from the root.  The two resolvers split a path in the same way, and a path that the
normaliser produces is a list of allowed names, so that a lookup of it is exactly the walk
along these names.
-/

namespace MiniOS.Vfs

open Fat16 (CString)

/-- A file system whose `finddir` depends only on the directory and the name. -/
structure Tree (Node : Type) where
  root : Option Node
  isDirectory : Node → Bool
  finddir : Node → CString → Option Node

namespace Tree

variable {Node : Type} (tree : Tree Node)

def fileSystem : FileSystem Unit Node where
  root _ := tree.root
  isDirectory _ := tree.isDirectory
  finddir _ directory name := (tree.finddir directory name, ())

@[simp]
theorem fileSystem_root (state : Unit) : tree.fileSystem.root state = tree.root := rfl

@[simp]
theorem fileSystem_isDirectory (state : Unit) (node : Node) :
    tree.fileSystem.isDirectory state node = tree.isDirectory node := rfl

@[simp]
theorem fileSystem_finddir (state : Unit) (directory : Node) (name : CString) :
    tree.fileSystem.finddir state directory name = (tree.finddir directory name, ()) := rfl

def resolve (path : CString) : Option Node := (resolveFs tree.fileSystem () path).1

def resolveParent (path : CString) : Option (Node × CString) :=
  (resolveParentFs tree.fileSystem () path).1

/-- The walk along a list of names: every name but the last leads to a directory. -/
def walk : List CString → Node → Option Node
  | [], node => some node
  | [name], node => tree.finddir node name
  | name :: next :: rest, node =>
    match tree.finddir node name with
    | none => none
    | some child => if tree.isDirectory child then walk (next :: rest) child else none

def walkParent : List CString → Node → Option (Node × CString)
  | [], _ => none
  | [name], node => some (node, name)
  | name :: next :: rest, node =>
    match tree.finddir node name with
    | none => none
    | some child => if tree.isDirectory child then walkParent (next :: rest) child else none

/-- Some name is missing, or what stands in front of it is not a directory. -/
def Blocked (names : List CString) (root : Node) : Prop :=
  ∃ before name after node, names = before ++ name :: after ∧
    tree.walk before root = some node ∧
    (tree.finddir node name = none ∨ before ≠ [] ∧ tree.isDirectory node = false)

end Tree

section Agreement

variable {Node : Type} (tree : Tree Node) {name path : CString}

/-- A lookup is one step behind the directory and the last name. -/
theorem resolveLoop_eq_bind (turns : Nat) : ∀ cursor node,
    (resolveLoop tree.fileSystem turns cursor node ()).1 =
      (resolveParentLoop tree.fileSystem turns cursor node ()).1.bind fun place =>
        tree.finddir place.1 place.2 := by
  induction turns with
  | zero => exact fun _ _ => rfl
  | succ turns ih =>
    intro cursor node
    simp only [resolveLoop, resolveParentLoop, Tree.fileSystem_finddir, Tree.fileSystem_isDirectory]
    cases parseComponent cursor with
    | none => rfl
    | some parts =>
      obtain ⟨component, rest⟩ := parts
      dsimp only
      cases looked : tree.finddir node (CString.ofBuffer component) with
      | none => cases rest <;> simp [looked]
      | some child =>
        cases rest with
        | nil => simp [looked]
        | cons char rest =>
          cases more : continues rest
          · simp [more]
          · cases isDirectory : tree.isDirectory child <;> simp [looked, more, isDirectory, ih]

theorem resolve_of_parent {directory : Node}
    (found : tree.resolveParent path = some (directory, name)) :
    tree.resolve path = tree.finddir directory name := by
  simp only [Tree.resolveParent, resolveParentFs] at found
  simp only [Tree.resolve, resolveFs]
  split at found
  · exact nomatch found
  · next root isRoot =>
    split at found
    · exact nomatch found
    · next fits =>
      rw [if_neg fun long => fits (Or.inr long)]
      split at found
      · exact nomatch found
      · next nonempty =>
        rw [if_neg nonempty, resolveLoop_eq_bind, found, Option.bind_some]

theorem resolveParent_of_resolve {target : Node} (found : tree.resolve path = some target)
    (nonempty : path.chars ≠ [])
    (notRoot : path.chars ≠ [slash]) : (tree.resolveParent path).isSome := by
  have cursorNonempty : skipSlash path.chars ≠ [] := by
    cases chars : path.chars with
    | nil => exact absurd chars nonempty
    | cons char rest =>
      rw [skipSlash]
      split
      · next isSlash =>
        intro restNil
        exact notRoot (by rw [chars, isSlash, restNil])
      · exact List.cons_ne_nil _ _
  simp only [Tree.resolve, resolveFs] at found
  simp only [Tree.resolveParent, resolveParentFs]
  split at found
  · exact nomatch found
  · next root isRoot =>
    split at found
    · exact nomatch found
    · next fits =>
      rw [if_neg, if_neg cursorNonempty]
      · rw [resolveLoop_eq_bind, Option.bind_eq_some_iff] at found
        exact Option.isSome_of_mem found.choose_spec.1
      · rintro (empty | long)
        · exact nonempty (List.eq_nil_of_length_eq_zero empty)
        · exact fits long

end Agreement

def NameAllowed (name : CString) : Prop := ComponentAllowed name.chars ∧ slash ∉ name.chars

variable (names : List CString)

def render : List UInt8 := names.flatMap fun name => slash :: name.chars

@[simp]
theorem render_nil : render [] = [] := rfl

@[simp]
theorem render_cons (name : CString) (names : List CString) :
    render (name :: names) = slash :: (name.chars ++ render names) := rfl

theorem ofBuffer_chars (name : CString) : CString.ofBuffer name.chars = name := by
  ext1
  refine List.takeWhile_eq_self_iff.mpr fun char member => ?_
  simpa using fun isNul : char = 0 => name.noNul (isNul ▸ member)

theorem parseLoop_append {component rest : List UInt8} (free : slash ∉ component)
    (ends : rest = [] ∨ rest.head? = some slash) :
    ∀ length, length + component.length < nameSize →
      parseLoop length (component ++ rest) = some (component, rest) := by
  induction component with
  | nil =>
    intro length _
    cases rest with
    | nil => rfl
    | cons char rest =>
      have isSlash : char = slash := by simpa using ends
      simp [parseLoop, isSlash]
  | cons char component ih =>
    intro length fits
    have notSlash : char ≠ slash := fun isSlash => free (by simp [isSlash])
    have short : ¬ nameSize ≤ length + 1 := by
      rw [List.length_cons] at fits
      omega
    rw [List.cons_append, parseLoop, if_neg notSlash, if_neg short,
      ih (fun member => free (List.mem_cons_of_mem _ member)) (length + 1)
        (by rw [List.length_cons] at fits; omega)]
    rfl

theorem parseComponent_append {rest : List UInt8} (allowed : NameAllowed name)
    (short : name.chars.length < nameSize) (ends : rest = [] ∨ rest.head? = some slash) :
    parseComponent (name.chars ++ rest) = some (name.chars, rest) := by
  rw [parseComponent, parseLoop_append allowed.2 ends 0 (by omega)]
  exact if_pos allowed.1

theorem render_ends : render names = [] ∨ (render names).head? = some slash := by
  cases names with
  | nil => exact Or.inl rfl
  | cons name names => exact Or.inr rfl

theorem continues_append (allowed : NameAllowed name) (rest : List UInt8) :
    continues (name.chars ++ rest) = true := by
  cases chars : name.chars with
  | nil => exact absurd chars allowed.1.1
  | cons char more =>
    have notSlash : char ≠ slash := fun isSlash => allowed.2 (by simp [chars, isSlash])
    simpa [continues] using notSlash

section Walks

variable {Node : Type} (tree : Tree Node)

theorem resolveParentLoop_render (names : List CString) :
    ∀ name turns node, (∀ each ∈ name :: names, NameAllowed each) →
      (name.chars ++ render names).length < nameSize →
      (name.chars ++ render names).length ≤ turns →
      (resolveParentLoop tree.fileSystem turns (name.chars ++ render names) node ()).1 =
        tree.walkParent (name :: names) node := by
  induction names with
  | nil =>
    intro name turns node allowed short enough
    have nameAllowed := allowed name (List.mem_cons_self ..)
    obtain ⟨turns, rfl⟩ : ∃ fewer, turns = fewer + 1 := by
      have := List.length_pos_iff.mpr nameAllowed.1.1
      exact ⟨turns - 1, by simp at enough; omega⟩
    rw [render_nil] at short ⊢
    rw [resolveParentLoop, parseComponent_append nameAllowed (by simpa using short) (Or.inl rfl)]
    simp only [ofBuffer_chars, Tree.walkParent]
  | cons next names ih =>
    intro name turns node allowed short enough
    have nameAllowed := allowed name (List.mem_cons_self ..)
    have nextAllowed := allowed next (by simp)
    simp only [render_cons, List.length_append, List.length_cons] at short enough
    obtain ⟨turns, rfl⟩ : ∃ fewer, turns = fewer + 1 := ⟨turns - 1, by omega⟩
    rw [resolveParentLoop, parseComponent_append nameAllowed (by omega) (render_ends _)]
    simp only [ofBuffer_chars, Tree.fileSystem_finddir, Tree.fileSystem_isDirectory, Tree.walkParent, render_cons,
      continues_append nextAllowed, if_true]
    cases tree.finddir node name with
    | none => rfl
    | some child =>
      by_cases isDirectory : tree.isDirectory child = true
      · simp only [isDirectory, if_true]
        exact ih next turns child
          (fun each member => allowed each (List.mem_cons_of_mem _ member))
          (by rw [List.length_append]; omega) (by rw [List.length_append]; omega)
      · simp only [isDirectory]
        rfl

theorem walk_eq_bind (names : List CString) : ∀ name node, tree.walk (name :: names) node =
      (tree.walkParent (name :: names) node).bind fun place => tree.finddir place.1 place.2 := by
  induction names with
  | nil => exact fun _ _ => rfl
  | cons next names ih =>
    intro name node
    simp only [Tree.walk, Tree.walkParent]
    cases tree.finddir node name with
    | none => rfl
    | some child => cases isDirectory : tree.isDirectory child <;> simp [isDirectory, ih]

/-- The walk that stops early succeeds when the names in front of the last lead to
directories. -/
theorem walk_blocked (names : List CString) :
    ∀ root, names ≠ [] → (tree.walk names root = none ∨ tree.walkParent names root = none) →
      tree.Blocked names root := by
  induction names with
  | nil =>
    intro root nonempty
    exact absurd rfl nonempty
  | cons name names ih =>
    intro root _ fails
    cases names with
    | nil =>
      have missing : tree.finddir root name = none := by
        simpa [Tree.walk, Tree.walkParent] using fails
      exact ⟨[], name, [], root, rfl, rfl, Or.inl missing⟩
    | cons next names =>
      simp only [Tree.walk, Tree.walkParent] at fails
      cases looked : tree.finddir root name with
      | none => exact ⟨[], name, next :: names, root, rfl, rfl, Or.inl looked⟩
      | some child =>
        by_cases isDirectory : tree.isDirectory child = true
        · simp only [looked, isDirectory, if_true] at fails
          obtain ⟨before, stop, after, node, split, walked, blocked⟩ :=
            ih child (List.cons_ne_nil _ _) fails
          refine ⟨name :: before, stop, after, node, by rw [split]; rfl, ?_, ?_⟩
          · cases before with
            | nil =>
              rw [Tree.walk, looked]
              exact walked
            | cons second before =>
              simpa [Tree.walk, looked, isDirectory] using walked
          · exact blocked.imp id fun notDirectory =>
              ⟨List.cons_ne_nil _ _, notDirectory.2⟩
        · refine ⟨[name], next, names, child, rfl, looked, Or.inr ⟨?_, ?_⟩⟩
          · exact List.cons_ne_nil _ _
          · simpa using isDirectory

end Walks

theorem render_eq_joined : render names = joined (names.map CString.chars) := by
  rw [render, joined, List.flatMap_map]

theorem vfsResolvePath_rendered {cwd : CString} {out : List UInt8}
    (result : vfsResolvePath cwd path = some out) :
    out.length < fsMaxPath ∧
      ∃ names : List CString, (∀ name ∈ names, NameAllowed name) ∧
        out = if names = [] then [slash] else render names := by
  obtain ⟨-, -, short, rfl⟩ := vfsResolvePath_eq_some_iff.mp result
  refine ⟨normalForm_length_lt (Nat.lt_of_succ_lt short), ?_⟩
  have noNul : ∀ component ∈ resolvedStack cwd path, 0 ∉ component := fun component member =>
    (resolvedStack_plain component member).2
  obtain ⟨names, isNames⟩ : ∃ names : List CString, names.map CString.chars = resolvedStack cwd path :=
    ⟨(resolvedStack cwd path).pmap CString.mk noNul, by simp [List.map_pmap]⟩
  refine ⟨names, fun name member => ?_, ?_⟩
  · exact (resolvedStack_plain name.chars (isNames ▸ List.mem_map_of_mem member)).1
  · simp only [normalForm, ← isNames, List.map_eq_nil_iff, render_eq_joined]

theorem nul_not_mem_render : 0 ∉ render names := by
  intro member
  obtain ⟨name, -, inName⟩ := List.mem_flatMap.mp member
  rcases List.mem_cons.mp inName with isSlash | inChars
  · exact absurd isSlash (by decide)
  · exact name.noNul inChars

/-- A lookup of a path that the normaliser produced is the walk along its names. -/
theorem resolve_normalised {Node : Type} (tree : Tree Node) {root : Node} (path : CString)
    {names : List CString} (isRoot : tree.root = some root)
    (allowed : ∀ name ∈ names, NameAllowed name) (short : path.chars.length < fsMaxPath)
    (chars : path.chars = if names = [] then [slash] else render names) :
    tree.resolve path = tree.walk names root ∧
      tree.resolveParent path = tree.walkParent names root := by
  rw [Tree.resolve, Tree.resolveParent, resolveFs, resolveParentFs, Tree.fileSystem_root, isRoot]
  cases names with
  | nil =>
    rw [if_pos rfl] at chars
    rw [chars]
    exact ⟨rfl, rfl⟩
  | cons name names =>
    rw [if_neg (List.cons_ne_nil _ _)] at chars
    have cursor : skipSlash path.chars = name.chars ++ render names := by
      rw [chars]
      rfl
    have nonempty : name.chars ++ render names ≠ [] := fun empty =>
      (allowed name (List.mem_cons_self ..)).1.1 (List.append_eq_nil_iff.mp empty).1
    have length : path.chars.length = (name.chars ++ render names).length + 1 := by
      rw [chars]
      rfl
    have fits : (name.chars ++ render names).length < nameSize := by
      have : fsMaxPath = nameSize := rfl
      omega
    dsimp only
    rw [cursor, if_neg nonempty, if_neg nonempty, if_neg (by omega), if_neg (by omega)]
    have parent := resolveParentLoop_render tree names name _ root allowed fits le_rfl
    rw [resolveLoop_eq_bind, parent, walk_eq_bind]
    exact ⟨rfl, rfl⟩

/-- Both resolvers give a path the same meaning, and a path that the normaliser produces
is refused by neither: a lookup of it fails only where a name is missing or where a node
in the middle is not a directory. -/
theorem path_has_one_meaning {Node : Type} (tree : Tree Node) (path : CString) :
    (∀ directory name, tree.resolveParent path = some (directory, name) →
      tree.resolve path = tree.finddir directory name) ∧
    (∀ node, tree.resolve path = some node → path.chars ≠ [] → path.chars ≠ [slash] →
      (tree.resolveParent path).isSome) ∧
    ∀ cwd request out, vfsResolvePath cwd request = some out →
      ∃ (noNul : 0 ∉ out) (names : List CString), (∀ name ∈ names, NameAllowed name) ∧
        (out = if names = [] then [slash] else render names) ∧
        ∀ root, tree.root = some root →
          tree.resolve ⟨out, noNul⟩ = tree.walk names root ∧
          tree.resolveParent ⟨out, noNul⟩ = tree.walkParent names root ∧
          (tree.resolve ⟨out, noNul⟩ = none → tree.Blocked names root) ∧
          (tree.resolveParent ⟨out, noNul⟩ = none → out = [slash] ∨ tree.Blocked names root) := by
  refine ⟨fun directory name => resolve_of_parent tree,
    fun node => resolveParent_of_resolve tree, ?_⟩
  intro cwd request out result
  obtain ⟨short, names, allowed, rendered⟩ := vfsResolvePath_rendered result
  have noNul : 0 ∉ out := by
    rw [rendered]
    split
    · decide
    · exact nul_not_mem_render names
  refine ⟨noNul, names, allowed, rendered, fun root isRoot => ?_⟩
  obtain ⟨resolved, parent⟩ :=
    resolve_normalised tree ⟨out, noNul⟩ isRoot allowed short rendered
  refine ⟨resolved, parent, ?_, ?_⟩
  · rw [resolved]
    intro fails
    refine walk_blocked tree names root ?_ (Or.inl fails)
    rintro rfl
    exact nomatch fails
  · rw [parent]
    intro fails
    by_cases empty : names = []
    · exact Or.inl (by rw [rendered, if_pos empty])
    · exact Or.inr (walk_blocked tree names root empty (Or.inr fails))

end MiniOS.Vfs
