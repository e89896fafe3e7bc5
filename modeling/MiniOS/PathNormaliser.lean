import MiniOS.ByteMemory
import MiniOS.VfsPaths

/-!
# The path normaliser

`vfs_resolve_path` computes a stack of components.  It keeps the stack as one string and edits
it in place, in a buffer of `FS_MAX_PATH` bytes.  The edits of the buffer are compared with
edits of a list of characters, and these with the stack.
-/

namespace MiniOS.Vfs

open Fat16 (CString)
open ByteMemory

def components (path : List UInt8) : List (List UInt8) :=
  (path.splitOnP (· == slash)).filter (· ≠ [])

def enter (stack : List (List UInt8)) (component : List UInt8) : List (List UInt8) :=
  if component = [dot] then stack
  else if component = [dot, dot] then stack.dropLast
  else stack ++ [component]

def joined (stack : List (List UInt8)) : List UInt8 := stack.flatMap (slash :: ·)

def normalForm (stack : List (List UInt8)) : List UInt8 :=
  if stack = [] then [slash] else joined stack

def Plain (component : List UInt8) : Prop := ComponentAllowed component ∧ slash ∉ component

def FoldFits (stack path : List (List UInt8)) : Prop :=
  ∀ done, done <+: path → (joined (done.foldl enter stack)).length < fsMaxPath

/-- The components that a path stands for in a working directory. -/
def pathComponents (cwd path : CString) : List (List UInt8) :=
  if path.chars.head? ≠ some slash ∧ cwd.chars ≠ [] then
    components cwd.chars ++ components path.chars
  else components path.chars

section Components

variable {stack front back : List (List UInt8)} {component rest : List UInt8} {char : UInt8}

theorem joined_concat : joined (stack ++ [component]) = joined stack ++ slash :: component := by
  simp [joined]

theorem joined_eq_nil : joined stack = [] ↔ stack = [] := by
  cases stack <;> simp [joined]

theorem normalForm_length_lt (short : (joined stack).length < fsMaxPath) :
    (normalForm stack).length < fsMaxPath := by
  rw [normalForm]
  split
  · decide
  · exact short

theorem foldFits_nil : FoldFits stack [] ↔ (joined stack).length < fsMaxPath := by
  simp [FoldFits]

theorem foldFits_cons {path : List (List UInt8)} : FoldFits stack (component :: path) ↔
    (joined stack).length < fsMaxPath ∧ FoldFits (enter stack component) path := by
  simp only [FoldFits, List.prefix_cons_iff]
  constructor
  · intro fits
    exact ⟨fits [] (.inl rfl), fun done before =>
      fits (component :: done) (.inr ⟨done, rfl, before⟩)⟩
  · rintro ⟨first, later⟩ done (rfl | ⟨done, rfl, before⟩)
    · exact first
    · exact later done before

theorem FoldFits.start {path : List (List UInt8)} (fits : FoldFits stack path) :
    (joined stack).length < fsMaxPath :=
  fits [] List.nil_prefix

theorem foldFits_append :
    FoldFits stack (front ++ back) ↔ FoldFits stack front ∧ FoldFits (front.foldl enter stack) back := by
  induction front generalizing stack with
  | nil =>
    rw [List.nil_append, foldFits_nil]
    exact ⟨fun fits => ⟨fits.start, fits⟩, fun fits => fits.2⟩
  | cons component front ih =>
    rw [List.cons_append, foldFits_cons, foldFits_cons, ih, List.foldl_cons, and_assoc]

theorem components_slash (rest : List UInt8) : components (slash :: rest) = components rest := by
  rw [components, List.splitOnP_cons_eq_if_modifyHead, if_pos (by simp)]
  simp [components]

theorem notSlash_of_free (free : slash ∉ component) :
    ∀ char ∈ component, (char == slash) = false := by
  intro char member
  rw [beq_eq_false_iff_ne]
  exact ne_of_mem_of_not_mem member free

theorem components_append (free : slash ∉ component) (isComponent : component ≠ []) :
    components (component ++ slash :: rest) = component :: components rest := by
  rw [components, List.splitOnP_append_cons_of_forall_mem (notSlash_of_free free) slash (by simp)]
  simp [components, isComponent]

theorem components_single (free : slash ∉ component) (isComponent : component ≠ []) :
    components component = [component] := by
  rw [components, List.splitOnP_eq_singleton (notSlash_of_free free)]
  simp [isComponent]

/-- The component in front of a path that `path_apply` cuts off. -/
theorem components_cons (notSlash : char ≠ slash) :
    components (char :: rest) = (char :: rest).takeWhile (· ≠ slash) ::
      components ((char :: rest).dropWhile (· ≠ slash)) := by
  have whole := List.takeWhile_append_dropWhile (p := (· ≠ slash)) (l := char :: rest)
  have free : slash ∉ (char :: rest).takeWhile (· ≠ slash) := fun member => by
    simpa using List.mem_takeWhile_imp member
  have isComponent : (char :: rest).takeWhile (· ≠ slash) ≠ [] := by
    rw [List.takeWhile_cons_of_pos (by simpa using notSlash)]
    exact List.cons_ne_nil _ _
  cases after : (char :: rest).dropWhile (· ≠ slash) with
  | nil =>
    rw [after, List.append_nil] at whole
    rw [whole] at free isComponent ⊢
    exact components_single free isComponent
  | cons next later =>
    obtain rfl : next = slash := by
      have stops := List.head?_dropWhile_not (· ≠ slash) (char :: rest)
      rw [after] at stops
      simpa using stops
    rw [after] at whole
    conv_lhs => rw [← whole]
    rw [components_append free isComponent, components_slash]

theorem mem_components (member : component ∈ components rest) :
    component ≠ [] ∧ slash ∉ component ∧ component ⊆ rest := by
  have parts : ∀ part ∈ rest.splitOnP (· == slash), slash ∉ part ∧ part ⊆ rest := by
    clear member
    induction rest with
    | nil => simp
    | cons char rest ih =>
      have later : ∀ part, slash ∉ part ∧ part ⊆ rest → slash ∉ part ∧ part ⊆ char :: rest :=
        fun part inRest => ⟨inRest.1, List.subset_cons_of_subset char inRest.2⟩
      rw [List.splitOnP_cons_eq_if_modifyHead]
      split
      · exact List.forall_mem_cons.mpr ⟨by simp, fun part member => later part (ih part member)⟩
      · next notSlash =>
        cases parts : rest.splitOnP (· == slash) with
        | nil => simp
        | cons first others =>
          rw [parts, List.forall_mem_cons] at ih
          refine List.forall_mem_cons.mpr ⟨⟨?_, List.cons_subset_cons char ih.1.2⟩,
            fun part member => later part (ih.2 part member)⟩
          rw [beq_iff_eq] at notSlash
          exact List.not_mem_cons_of_ne_of_not_mem (Ne.symm notSlash) ih.1.1
  obtain ⟨isPart, isComponent⟩ := List.mem_filter.mp member
  exact ⟨by simpa using isComponent, parts component isPart⟩

theorem pathPop_append {out component : List UInt8} (free : slash ∉ component) :
    pathPop (out ++ slash :: component) = out := by
  have reversed : (out ++ slash :: component).reverse =
      component.reverse ++ slash :: out.reverse := by simp
  have dropped : (component.reverse ++ slash :: out.reverse).dropWhile (· ≠ slash) =
      slash :: out.reverse := by
    rw [List.dropWhile_append_of_pos]
    · simp
    · intro char member
      have notSlash : char ≠ slash := fun isSlash => free (by simpa [isSlash] using member)
      simpa using notSlash
  rw [pathPop, reversed, dropped, List.drop_one, List.tail_cons, List.reverse_reverse]

theorem pathPop_length_le (out : List UInt8) : (pathPop out).length ≤ out.length := by
  rw [pathPop, List.length_reverse, List.length_drop]
  have shorter := (List.dropWhile_sublist (· ≠ slash) (l := out.reverse)).length_le
  rw [List.length_reverse] at shorter
  omega

theorem pathPop_joined (free : ∀ component ∈ stack, slash ∉ component) :
    pathPop (joined stack) = joined stack.dropLast := by
  rcases List.eq_nil_or_concat stack with rfl | ⟨front, last, rfl⟩
  · rfl
  · rw [List.concat_eq_append] at free ⊢
    rw [joined_concat, pathPop_append (free last (by simp)), List.dropLast_concat]

/-- Every component of the stack comes from the path, and none of them is special. -/
theorem plain_foldl (path : List (List UInt8)) :
    ∀ stack, (∀ component ∈ path, component ≠ [] ∧ slash ∉ component) →
      (∀ component ∈ stack, Plain component) →
      ∀ component ∈ path.foldl enter stack, Plain component ∧ (component ∈ stack ∨ component ∈ path) := by
  induction path with
  | nil => exact fun stack _ plain component member => ⟨plain component member, .inl member⟩
  | cons next path ih =>
    intro stack proper plain component member
    rw [List.forall_mem_cons] at proper
    have entered : ∀ component ∈ enter stack next,
        Plain component ∧ (component ∈ stack ∨ component = next) := by
      intro component member
      rw [enter] at member
      split at member
      · exact ⟨plain component member, .inl member⟩
      · next notDot =>
        split at member
        · have old := List.dropLast_subset _ member
          exact ⟨plain component old, .inl old⟩
        · next notDots =>
          rcases List.mem_append.mp member with old | new
          · exact ⟨plain component old, .inl old⟩
          · obtain rfl := List.mem_singleton.mp new
            exact ⟨⟨⟨proper.1.1, notDot, notDots⟩, proper.1.2⟩, .inr rfl⟩
    obtain ⟨isPlain, old | later⟩ := ih _ proper.2 (fun _ member => (entered _ member).1) component member
    · refine ⟨isPlain, (entered component old).2.imp_right fun isNext => ?_⟩
      exact isNext ▸ List.mem_cons_self
    · exact ⟨isPlain, .inr (List.mem_cons_of_mem _ later)⟩

/-- `path_apply` folds the components of its string, as long as the results fit. -/
theorem pathApplyLoop_eq_some_iff {applied : List UInt8} (turns : Nat) :
    ∀ stack rest, (∀ component ∈ stack, slash ∉ component) → (joined stack).length < fsMaxPath →
      rest.length ≤ turns →
      (pathApplyLoop turns (joined stack) rest = some applied ↔
        FoldFits stack (components rest) ∧ joined ((components rest).foldl enter stack) = applied) := by
  induction turns with
  | zero =>
    intro stack rest _ fits short
    obtain rfl := List.length_eq_zero_iff.mp (Nat.le_zero.mp short)
    rw [pathApplyLoop, Option.some_inj]
    simp [components, foldFits_nil, fits]
  | succ turns ih =>
    intro stack rest free fits short
    cases rest with
    | nil =>
      rw [pathApplyLoop, Option.some_inj]
      simp [components, foldFits_nil, fits]
    | cons char rest =>
      rw [pathApplyLoop]
      split
      · next isSlash =>
        rw [isSlash, components_slash]
        exact ih stack rest free fits (Nat.le_of_succ_le_succ short)
      · next notSlash =>
        have shorter : ((char :: rest).dropWhile (· ≠ slash)).length ≤ turns := by
          rw [List.dropWhile_cons_of_pos (by simpa using notSlash)]
          exact (List.dropWhile_sublist _).length_le.trans (Nat.le_of_succ_le_succ short)
        have noSlash : slash ∉ (char :: rest).takeWhile (· ≠ slash) := fun member => by
          simpa using List.mem_takeWhile_imp member
        rw [components_cons notSlash, foldFits_cons, List.foldl_cons, and_iff_right fits]
        generalize (char :: rest).takeWhile (· ≠ slash) = component at noSlash ⊢
        generalize (char :: rest).dropWhile (· ≠ slash) = rest at shorter ⊢
        dsimp only
        rw [enter]
        split
        · exact ih stack rest free fits shorter
        split
        · rw [pathPop_joined free]
          refine ih _ rest (fun name member => free name (List.dropLast_subset _ member)) ?_ shorter
          rw [← pathPop_joined free]
          exact Nat.lt_of_le_of_lt (pathPop_length_le _) fits
        · by_cases overflow : fsMaxPath < (joined stack).length + 1 + component.length + 1
          · rw [pathPush, if_pos overflow]
            refine iff_of_false (by simp) fun both => ?_
            have start := both.1.start
            rw [joined_concat, List.length_append, List.length_cons] at start
            omega
          · rw [pathPush, if_neg overflow]
            dsimp only
            rw [← joined_concat]
            refine ih _ rest ?_ ?_ shorter
            · intro name member
              rcases List.mem_append.mp member with old | new
              · exact free name old
              · exact List.mem_singleton.mp new ▸ noSlash
            · rw [joined_concat, List.length_append, List.length_cons]
              omega

end Components

section Normaliser

variable {cwd path : CString} {out : List UInt8}

theorem pathComponents_proper : ∀ component ∈ pathComponents cwd path,
    component ≠ [] ∧ slash ∉ component ∧ 0 ∉ component := by
  have proper : ∀ text : CString, ∀ component ∈ components text.chars,
      component ≠ [] ∧ slash ∉ component ∧ 0 ∉ component := by
    intro text component member
    obtain ⟨isComponent, free, inside⟩ := mem_components member
    exact ⟨isComponent, free, fun nul => text.noNul (inside nul)⟩
  intro component member
  rw [pathComponents] at member
  split at member
  · exact (List.mem_append.mp member).elim (proper cwd component) (proper path component)
  · exact proper path component member

def resolvedStack (cwd path : CString) : List (List UInt8) :=
  (pathComponents cwd path).foldl enter []

theorem resolvedStack_plain : ∀ component ∈ resolvedStack cwd path,
    Plain component ∧ 0 ∉ component := by
  intro component member
  obtain ⟨isPlain, old | fromPath⟩ := plain_foldl _ []
    (fun name inPath => ⟨(pathComponents_proper name inPath).1, (pathComponents_proper name inPath).2.1⟩)
    (by simp) component member
  · exact nomatch old
  · exact ⟨isPlain, (pathComponents_proper component fromPath).2.2⟩

theorem pathApply_eq_some_iff {stack : List (List UInt8)} {text applied : List UInt8}
    (free : ∀ component ∈ stack, slash ∉ component) (fits : (joined stack).length < fsMaxPath) :
    pathApply (joined stack) text = some applied ↔
      FoldFits stack (components text) ∧ joined ((components text).foldl enter stack) = applied :=
  pathApplyLoop_eq_some_iff text.length stack text free fits le_rfl

theorem applied_eq_some_iff :
    ((pathBase cwd path).bind fun base => pathApply base path.chars) = some out ↔
      FoldFits [] (pathComponents cwd path) ∧ joined (resolvedStack cwd path) = out := by
  have fromRoot : ∀ text applied : List UInt8, pathApply [] text = some applied ↔
      FoldFits [] (components text) ∧ joined ((components text).foldl enter []) = applied :=
    fun text applied => @pathApply_eq_some_iff [] text applied (by simp) (by decide)
  rw [pathBase, resolvedStack, pathComponents]
  split
  · rw [foldFits_append, List.foldl_append, Option.bind_eq_some_iff]
    have free : ∀ component ∈ (components cwd.chars).foldl enter [], slash ∉ component := by
      intro component member
      refine (plain_foldl _ [] (fun name inPath => ?_) (by simp) component member).1.2
      obtain ⟨isComponent, free, -⟩ := mem_components inPath
      exact ⟨isComponent, free⟩
    constructor
    · rintro ⟨base, isBase, isOut⟩
      obtain ⟨fits, rfl⟩ := (fromRoot _ _).mp isBase
      obtain ⟨laterFits, isOut⟩ := (pathApply_eq_some_iff free (fits _ List.prefix_rfl)).mp isOut
      exact ⟨⟨fits, laterFits⟩, isOut⟩
    · rintro ⟨⟨fits, laterFits⟩, isOut⟩
      exact ⟨_, (fromRoot _ _).mpr ⟨fits, rfl⟩,
        (pathApply_eq_some_iff free (fits _ List.prefix_rfl)).mpr ⟨laterFits, isOut⟩⟩
  · exact fromRoot _ _

theorem vfsResolvePath_eq_some_iff : vfsResolvePath cwd path = some out ↔
    doubleSlash path.chars = false ∧ FoldFits [] (pathComponents cwd path) ∧
      (joined (resolvedStack cwd path)).length + 1 < fsMaxPath ∧
      normalForm (resolvedStack cwd path) = out := by
  rw [vfsResolvePath]
  split
  · next double => simp [double]
  next single =>
  rw [Bool.not_eq_true] at single
  rw [and_iff_right single]
  split
  · next overflow =>
    refine iff_of_false (by simp) fun both => ?_
    rw [applied_eq_some_iff.mpr ⟨both.1, rfl⟩] at overflow
    exact nomatch overflow
  · next applied isApplied =>
    obtain ⟨fits, rfl⟩ := applied_eq_some_iff.mp isApplied
    rw [and_iff_right fits, normalForm]
    simp only [joined_eq_nil]
    split
    · next long =>
      refine iff_of_false (by simp) fun both => ?_
      omega
    · next short =>
      rw [and_iff_right (by omega)]
      split <;> exact Option.some_inj

end Normaliser

section NormalForms

variable {stack : List (List UInt8)}

theorem doubleSlash_iff (text : List UInt8) :
    doubleSlash text = true ↔ [slash, slash] <:+: text := by
  induction text with
  | nil => simp [doubleSlash]
  | cons first rest ih =>
    cases rest with
    | nil => simp [doubleSlash, List.infix_cons_iff]
    | cons second rest =>
      rw [doubleSlash, Bool.or_eq_true, ih]
      conv_rhs => rw [List.infix_cons_iff, List.cons_prefix_cons, List.cons_prefix_cons,
        and_iff_left List.nil_prefix]
      rw [Bool.and_eq_true, decide_eq_true_eq, decide_eq_true_eq, @eq_comm _ first, @eq_comm _ second]

theorem doubleSlash_append {component : List UInt8} (rest : List UInt8) (free : slash ∉ component) :
    doubleSlash (component ++ rest) = doubleSlash rest := by
  induction component with
  | nil => rfl
  | cons char component ih =>
    rw [List.mem_cons, not_or] at free
    rw [List.cons_append, ← ih free.2]
    cases component ++ rest with
    | nil => rfl
    | cons second later => simp [doubleSlash, Ne.symm free.1]

variable (plain : ∀ component ∈ stack, Plain component)

include plain

theorem doubleSlash_joined : doubleSlash (joined stack) = false := by
  induction stack with
  | nil => rfl
  | cons component stack ih =>
    rw [List.forall_mem_cons] at plain
    obtain ⟨⟨⟨isComponent, -⟩, free⟩, later⟩ := plain
    rw [← ih later, ← doubleSlash_append (joined stack) free]
    cases component with
    | nil => exact absurd rfl isComponent
    | cons char component =>
      rw [List.mem_cons, not_or] at free
      simp [joined, doubleSlash, Ne.symm free.1]

theorem components_joined : components (joined stack) = stack := by
  induction stack with
  | nil => simp [joined, components]
  | cons component stack ih =>
    rw [List.forall_mem_cons] at plain
    have rest := ih plain.2
    rw [joined, List.flatMap_cons, List.cons_append, components_slash]
    cases stack with
    | nil =>
      rw [List.flatMap_nil, List.append_nil]
      exact components_single plain.1.2 plain.1.1.1
    | cons next stack =>
      rw [List.flatMap_cons, List.cons_append, components_append plain.1.2 plain.1.1.1]
      rw [joined, List.flatMap_cons, List.cons_append, components_slash] at rest
      rw [rest]

omit plain in
theorem foldl_enter_plain (path : List (List UInt8)) :
    ∀ stack, (∀ component ∈ path, Plain component) → path.foldl enter stack = stack ++ path := by
  induction path with
  | nil => exact fun stack _ => (List.append_nil stack).symm
  | cons component path ih =>
    intro stack plain
    rw [List.forall_mem_cons] at plain
    obtain ⟨⟨⟨-, notDot, notDots⟩, -⟩, later⟩ := plain
    rw [List.foldl_cons, ih _ later, enter, if_neg notDot, if_neg notDots, List.append_assoc,
      List.singleton_append]

/-- A normal form that fits is its own normal form, from every working directory. -/
theorem vfsResolvePath_normalForm {path : CString} (cwd : CString)
    (short : (joined stack).length + 1 < fsMaxPath) (isNormal : path.chars = normalForm stack) :
    vfsResolvePath cwd path = some path.chars := by
  have absolute : path.chars.head? = some slash := by
    rw [isNormal, normalForm]
    cases stack <;> rfl
  have parts : pathComponents cwd path = stack := by
    rw [pathComponents, if_neg (by simp [absolute]), isNormal, normalForm]
    split
    · next isRoot => rw [isRoot, components_slash]; rfl
    · exact components_joined plain
  have folded : resolvedStack cwd path = stack := by
    rw [resolvedStack, parts, foldl_enter_plain stack [] plain, List.nil_append]
  rw [vfsResolvePath_eq_some_iff, folded, parts]
  refine ⟨?_, ?_, short, isNormal.symm⟩
  · rw [isNormal, normalForm]
    split
    · rfl
    · exact doubleSlash_joined plain
  · intro done before
    have front := foldl_enter_plain done [] fun name member => plain name (before.subset member)
    obtain ⟨later, rfl⟩ := before
    rw [joined, List.flatMap_append, List.length_append] at short
    rw [front, List.nil_append, joined]
    omega

end NormalForms

/-- The output buffer of the caller, and how much of it is in use. -/
structure PathBuffer where
  out : Region
  olen : Nat

namespace PathBuffer

/-- `path_push`; `true` for the result 0. -/
def pathPush (b : PathBuffer) (component : List UInt8) : Bool × PathBuffer :=
  if fsMaxPath < b.olen + 1 + component.length + 1 then (false, b)
  else (true, ⟨store b.out b.olen (slash :: component ++ [0]), b.olen + 1 + component.length⟩)

def popLoop (out : Region) : Nat → Nat
  | 0 => 0
  | olen + 1 => if out olen ≠ slash then popLoop out olen else olen + 1

def pathPop (b : PathBuffer) : PathBuffer :=
  let olen := popLoop b.out b.olen
  let olen := if 0 < olen then olen - 1 else olen
  ⟨store b.out olen [0], olen⟩

def pathApplyLoop : (turns : Nat) → PathBuffer → List UInt8 → Bool × PathBuffer
  | 0, b, _ => (true, b)
  | _ + 1, b, [] => (true, b)
  | turns + 1, b, char :: rest =>
    if char = slash then pathApplyLoop turns b rest
    else
      let component := (char :: rest).takeWhile (· ≠ slash)
      let rest := (char :: rest).dropWhile (· ≠ slash)
      if component = [dot] then pathApplyLoop turns b rest
      else if component = [dot, dot] then pathApplyLoop turns b.pathPop rest
      else
        match b.pathPush component with
        | (false, b) => (false, b)
        | (true, b) => pathApplyLoop turns b rest

def pathApply (b : PathBuffer) (text : List UInt8) : Bool × PathBuffer :=
  pathApplyLoop text.length b text

/-- `vfs_resolve_path`: whether it returns 0, and the buffer afterwards. -/
def vfsResolvePath (cwd path : CString) (out : Region) : Bool × Region :=
  if doubleSlash path.chars then (false, out)
  else
    let b : PathBuffer := ⟨store out 0 [0], 0⟩
    let base := if path.chars.head? ≠ some slash ∧ cwd.chars ≠ [] then b.pathApply cwd.chars
      else (true, b)
    if base.1 = false then (false, base.2.out)
    else
      let applied := base.2.pathApply path.chars
      if applied.1 = false then (false, applied.2.out)
      else
        let b := applied.2
        let out := if b.olen = 0 then store b.out 0 [slash, 0] else b.out
        (decide (b.olen + 1 < fsMaxPath), out)

def Unwritten (original out : Region) :
    Prop := ∀ offset, fsMaxPath ≤ offset → out offset = original offset

def Reads (out : Region) (chars : List UInt8) : Prop :=
  ∀ offset, offset < chars.length → chars[offset]? = some (out offset)

def StringAt (out : Region) (chars : List UInt8) : Prop := Reads out (chars ++ [0])

def Holds (original : Region) (b : PathBuffer) (chars : List UInt8) : Prop :=
  b.olen = chars.length ∧ chars.length < fsMaxPath ∧ StringAt b.out chars ∧ Unwritten original b.out

/-- What the code does in the buffer if the same edits of a list have this result. -/
def Follows (original : Region) (result : Bool × PathBuffer) : Option (List UInt8) → Prop
  | none => result.1 = false ∧ Unwritten original result.2.out
  | some chars => result.1 = true ∧ Holds original result.2 chars

section Simulation

variable {original out : Region} {b : PathBuffer} {chars : List UInt8}

theorem Unwritten.store {start : Nat} {bytes : List UInt8} (unwritten : Unwritten original out)
    (inside : start + bytes.length ≤ fsMaxPath) :
    Unwritten original (ByteMemory.store out start bytes) := by
  intro offset beyond
  rw [store_outside (by omega)]
  exact unwritten offset beyond

theorem reads_nil : Reads out [] := fun _ inside => absurd inside (Nat.not_lt_zero _)

theorem Reads.front {front : List UInt8} (reads : Reads out chars) (before : front <+: chars) :
    Reads out front := by
  intro offset inside
  obtain ⟨back, rfl⟩ := before
  rw [← reads offset (by rw [List.length_append]; omega), List.getElem?_append_left inside]

theorem Reads.store (bytes : List UInt8) (reads : Reads out chars) :
    Reads (ByteMemory.store out chars.length bytes) (chars ++ bytes) := by
  intro offset inside
  rw [List.length_append] at inside
  by_cases old : offset < chars.length
  · rw [List.getElem?_append_left old, store_outside (.inl old), reads offset old]
  · rw [List.getElem?_append_right (by omega), ByteMemory.store, if_pos (by omega)]
    have new : offset - chars.length < bytes.length := by omega
    simp [new]

theorem Holds.reads (holds : Holds original b chars) : Reads b.out chars :=
  holds.2.2.1.front (List.prefix_append chars [0])

theorem Holds.pathPush (holds : Holds original b chars) (component : List UInt8) :
    Follows original (b.pathPush component) (Vfs.pathPush chars component) := by
  have reads := holds.reads
  obtain ⟨isLength, short, -, unwritten⟩ := holds
  rw [PathBuffer.pathPush, Vfs.pathPush, isLength]
  split
  · exact ⟨rfl, unwritten⟩
  · have length : (chars ++ slash :: component).length = chars.length + 1 + component.length := by
      rw [List.length_append, List.length_cons]
      omega
    refine ⟨rfl, length.symm, by omega, ?_, unwritten.store ?_⟩
    · rw [StringAt, List.append_assoc]
      exact reads.store _
    · rw [List.length_append, List.length_cons, List.length_singleton]
      omega

theorem pathPop_concat (front : List UInt8) (last : UInt8) :
    Vfs.pathPop (front ++ [last]) = if last ≠ slash then Vfs.pathPop front else front := by
  rw [Vfs.pathPop, List.reverse_append, List.reverse_singleton, List.singleton_append]
  split
  · next notSlash => rw [List.dropWhile_cons_of_pos (by simpa using notSlash), Vfs.pathPop]
  · next isSlash => rw [List.dropWhile_cons_of_neg (by simpa using isSlash), List.drop_one,
      List.tail_cons, List.reverse_reverse]

theorem popLoop_spec (reads : Reads out chars) :
    popLoop out chars.length - 1 = (Vfs.pathPop chars).length ∧ Vfs.pathPop chars <+: chars := by
  induction chars using List.reverseRecOn with
  | nil => exact ⟨rfl, List.nil_prefix⟩
  | append_singleton front last ih =>
    have isLast : out front.length = last := by
      have read := reads front.length (by simp)
      simpa using read.symm
    rw [List.length_append, List.length_singleton, popLoop, isLast, pathPop_concat]
    split
    · obtain ⟨length, before⟩ := ih (reads.front (List.prefix_append ..))
      exact ⟨length, before.trans (List.prefix_append ..)⟩
    · exact ⟨rfl, List.prefix_append ..⟩

theorem Holds.pathPop (holds : Holds original b chars) :
    Holds original b.pathPop (Vfs.pathPop chars) := by
  have reads := holds.reads
  obtain ⟨isLength, short, -, unwritten⟩ := holds
  obtain ⟨length, before⟩ := popLoop_spec reads
  have shorter := before.length_le
  have isOlen : (if 0 < popLoop b.out b.olen then popLoop b.out b.olen - 1 else popLoop b.out b.olen) =
      (Vfs.pathPop chars).length := by
    rw [← length, isLength]
    split <;> omega
  rw [PathBuffer.pathPop, isOlen]
  refine ⟨rfl, by omega, (reads.front before).store [0], unwritten.store ?_⟩
  rw [List.length_singleton]
  omega

theorem Holds.pathApplyLoop (turns : Nat) :
    ∀ b chars rest, Holds original b chars →
      Follows original (PathBuffer.pathApplyLoop turns b rest)
    (Vfs.pathApplyLoop turns chars rest) := by
  induction turns with
  | zero => exact fun b chars rest holds => ⟨rfl, holds⟩
  | succ turns ih =>
    intro b chars rest holds
    cases rest with
    | nil => exact ⟨rfl, holds⟩
    | cons char rest =>
      rw [PathBuffer.pathApplyLoop, Vfs.pathApplyLoop]
      split
      · exact ih b chars rest holds
      dsimp only
      generalize (char :: rest).takeWhile (· ≠ slash) = component
      generalize (char :: rest).dropWhile (· ≠ slash) = rest
      split
      · exact ih b chars rest holds
      split
      · exact ih _ _ rest holds.pathPop
      have pushed := holds.pathPush component
      generalize b.pathPush component = result at pushed ⊢
      generalize Vfs.pathPush chars component = expected at pushed ⊢
      obtain ⟨ok, b⟩ := result
      cases expected with
      | none =>
        obtain ⟨rfl, unwritten⟩ := pushed
        exact ⟨rfl, unwritten⟩
      | some chars =>
        obtain ⟨rfl, holds⟩ := pushed
        exact ih b chars rest holds

theorem Holds.pathApply (holds : Holds original b chars) (text : List UInt8) :
    Follows original (b.pathApply text) (Vfs.pathApply chars text) :=
  Holds.pathApplyLoop text.length b chars text holds

/-- The code in the buffer does what the list model computes. -/
theorem vfsResolvePath_follows (cwd path : CString) (out : Region) :
    Unwritten out (vfsResolvePath cwd path out).2 ∧
      match Vfs.vfsResolvePath cwd path with
      | none => (vfsResolvePath cwd path out).1 = false
      | some chars => (vfsResolvePath cwd path out).1 = true ∧
          StringAt (vfsResolvePath cwd path out).2 chars := by
  rw [vfsResolvePath, Vfs.vfsResolvePath]
  split
  · exact ⟨fun _ _ => rfl, rfl⟩
  have start : Holds out ⟨store out 0 [0], 0⟩ [] :=
    ⟨rfl, by decide, reads_nil.store [0], Unwritten.store (fun _ _ => rfl) (by decide)⟩
  have based : Follows out (if path.chars.head? ≠ some slash ∧ cwd.chars ≠ [] then
      pathApply ⟨store out 0 [0], 0⟩ cwd.chars else (true, ⟨store out 0 [0], 0⟩)) (pathBase cwd path) := by
    rw [pathBase]
    split
    · exact start.pathApply cwd.chars
    · exact ⟨rfl, start⟩
  dsimp only
  generalize (if path.chars.head? ≠ some slash ∧ cwd.chars ≠ [] then
    pathApply ⟨store out 0 [0], 0⟩ cwd.chars else (true, ⟨store out 0 [0], 0⟩)) = base at based ⊢
  cases expected : pathBase cwd path with
  | none =>
    rw [expected] at based
    rw [if_pos based.1]
    exact ⟨based.2, rfl⟩
  | some chars =>
    rw [expected] at based
    rw [if_neg (by simp [based.1]), Option.bind_some]
    have applied := based.2.pathApply path.chars
    generalize base.2.pathApply path.chars = result at applied ⊢
    cases expected : Vfs.pathApply chars path.chars with
    | none =>
      rw [expected] at applied
      rw [if_pos applied.1]
      exact ⟨applied.2, rfl⟩
    | some chars =>
      rw [expected] at applied
      rw [if_neg (by simp [applied.1])]
      obtain ⟨-, isLength, short, string, unwritten⟩ := applied
      have rooted : Unwritten out (store result.2.out 0 [slash, 0]) := unwritten.store (by decide)
      rw [isLength]
      dsimp only
      cases chars with
      | nil =>
        exact ⟨rooted, rfl, reads_nil.store [slash, 0]⟩
      | cons char chars =>
        rw [if_neg (by simp)]
        refine ⟨unwritten, ?_⟩
        by_cases long : fsMaxPath ≤ (char :: chars).length + 1
        · rw [if_pos long]
          simpa using long
        · rw [if_neg long, if_neg (List.cons_ne_nil _ _)]
          exact ⟨by simpa using long, string⟩

end Simulation

/-- `vfs_resolve_path` folds the components in its buffer.  It succeeds unless the path has two
slashes in a row, a result on the way has more than 127 bytes or the last one more than 126; the
string it leaves is in normal form and names itself. -/
theorem vfsResolvePath_normalises (cwd path : CString) (out : Region) :
    ((vfsResolvePath cwd path out).1 = true ↔
      ¬ [slash, slash] <:+: path.chars ∧
      (∀ done, done <+: pathComponents cwd path → (joined (done.foldl enter [])).length ≤ 127) ∧
      (joined ((pathComponents cwd path).foldl enter [])).length ≤ 126) ∧
    ((vfsResolvePath cwd path out).1 = true →
      (∀ component ∈ (pathComponents cwd path).foldl enter [],
        component ≠ [] ∧ component ≠ [dot] ∧ component ≠ [dot, dot] ∧ slash ∉ component) ∧
      ∃ result : CString,
        result.chars = normalForm ((pathComponents cwd path).foldl enter []) ∧
        StringAt (vfsResolvePath cwd path out).2 result.chars ∧
        ∀ other again, (vfsResolvePath other result again).1 = true ∧
          StringAt (vfsResolvePath other result again).2 result.chars) ∧
    ∀ offset, 128 ≤ offset → (vfsResolvePath cwd path out).2 offset = out offset := by
  have succeeds : (vfsResolvePath cwd path out).1 = true ↔
      ¬ [slash, slash] <:+: path.chars ∧ FoldFits [] (pathComponents cwd path) ∧
        (joined (resolvedStack cwd path)).length + 1 < fsMaxPath := by
    rw [← doubleSlash_iff, Bool.not_eq_true]
    have follows := (vfsResolvePath_follows cwd path out).2
    cases result : Vfs.vfsResolvePath cwd path with
    | none =>
      rw [result] at follows
      refine iff_of_false (by simp [follows]) fun ⟨single, fits, short⟩ => ?_
      rw [vfsResolvePath_eq_some_iff.mpr ⟨single, fits, short, rfl⟩] at result
      exact nomatch result
    | some chars =>
      rw [result] at follows
      obtain ⟨single, fits, short, -⟩ := vfsResolvePath_eq_some_iff.mp result
      exact iff_of_true follows.1 ⟨single, fits, short⟩
  have plain : ∀ component ∈ resolvedStack cwd path, Plain component := fun component member =>
    (resolvedStack_plain component member).1
  refine ⟨?_, fun ok => ⟨?_, ?_⟩, (vfsResolvePath_follows cwd path out).1⟩
  · have size : fsMaxPath = 128 := rfl
    rw [succeeds, FoldFits, resolvedStack]
    constructor
    · rintro ⟨single, fits, short⟩
      exact ⟨single, fun done before => Nat.le_of_lt_succ (fits done before), by omega⟩
    · rintro ⟨single, fits, short⟩
      exact ⟨single, fun done before => Nat.lt_succ_of_le (fits done before), by omega⟩
  · intro component member
    obtain ⟨⟨isComponent, notDot, notDots⟩, free⟩ := plain component member
    exact ⟨isComponent, notDot, notDots, free⟩
  · obtain ⟨single, fits, short⟩ := succeeds.mp ok
    rw [← doubleSlash_iff, Bool.not_eq_true] at single
    have noNul : 0 ∉ normalForm (resolvedStack cwd path) := by
      rw [normalForm]
      split
      · decide
      · intro member
        obtain ⟨component, inStack, inComponent⟩ := List.mem_flatMap.mp member
        rcases List.mem_cons.mp inComponent with isSlash | inside
        · exact absurd isSlash (by decide)
        · exact (resolvedStack_plain component inStack).2 inside
    have follows := (vfsResolvePath_follows cwd path out).2
    rw [vfsResolvePath_eq_some_iff.mpr ⟨single, fits, short, rfl⟩] at follows
    refine ⟨⟨_, noNul⟩, rfl, follows.2, fun other again => ?_⟩
    have followsAgain := (vfsResolvePath_follows other ⟨_, noNul⟩ again).2
    rwa [vfsResolvePath_normalForm plain other short rfl] at followsAgain

theorem vfsResolvePath_normalises_parent : ∃ cwd path result : CString,
    cwd.chars = [slash, 0x61] ∧ path.chars = [dot, dot, slash, 0x62] ∧ result.chars = [slash, 0x62] ∧
      StringAt (vfsResolvePath cwd path fun _ => 0).2 result.chars := by
  have normalises := vfsResolvePath_normalises ⟨[slash, 0x61], by decide⟩
    ⟨[dot, dot, slash, 0x62], by decide⟩ fun _ => 0
  obtain ⟨-, result, isResult, string, -⟩ := normalises.2.1 (by decide +kernel)
  exact ⟨_, _, result, rfl, rfl, isResult.trans (by decide +kernel), string⟩

/-- A result of 127 bytes passes if the next component drops it. -/
theorem vfsResolvePath_accepts_longer : ∃ cwd path : CString, ∃ out,
    (vfsResolvePath cwd path out).1 = true ∧
      ∃ done, done <+: pathComponents cwd path ∧ 126 < (joined (done.foldl enter [])).length :=
  ⟨⟨[], by decide⟩, ⟨slash :: List.replicate 126 0x61 ++ [slash, dot, dot], by decide +kernel⟩,
    fun _ => 0, by decide +kernel, [List.replicate 126 0x61], by decide +kernel, by decide +kernel⟩

end PathBuffer

end MiniOS.Vfs
