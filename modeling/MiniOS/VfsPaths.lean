import MiniOS.Fat16Names

/-!
# Paths in the virtual file system

The path resolvers of `fs.c` and its path normaliser.  A file system is what the resolvers
see of it: a root, the nodes that are directories, and `finddir`.  Looking a name up may
change the state of the file system behind the node, as it does in the FAT16 driver with
its pool of nodes.
-/

namespace MiniOS.Vfs

open Fat16 (CString)

def slash : UInt8 := 0x2F

def dot : UInt8 := 0x2E

def fsMaxPath : Nat := 128

def nameSize : Nat := 128

/-- What the resolvers use of the nodes: `fs_root`, the test of `flags`, and
`finddir_fs`. -/
structure FileSystem (State Node : Type) where
  root : State → Option Node
  isDirectory : State → Node → Bool
  finddir : State → Node → CString → Option Node × State

/-- The loop of `parse_component`: the characters up to the next slash and what follows
them, `none` when they do not fit a name. -/
def parseLoop : (length : Nat) → (cursor : List UInt8) → Option (List UInt8 × List UInt8)
  | _, [] => some ([], [])
  | length, char :: rest =>
    if char = slash then some ([], char :: rest)
    else if nameSize ≤ length + 1 then none
    else (parseLoop (length + 1) rest).map fun parsed => (char :: parsed.1, parsed.2)

/-- A component that names an entry: neither empty nor one of the two dots. -/
def ComponentAllowed (component : List UInt8) : Prop :=
  component ≠ [] ∧ component ≠ [dot] ∧ component ≠ [dot, dot]

instance (component : List UInt8) : Decidable (ComponentAllowed component) :=
  inferInstanceAs (Decidable (_ ∧ _))

def parseComponent (cursor : List UInt8) : Option (List UInt8 × List UInt8) :=
  match parseLoop 0 cursor with
  | none => none
  | some (component, rest) => if ComponentAllowed component then some (component, rest) else none

def skipSlash : List UInt8 → List UInt8
  | [] => []
  | char :: rest => if char = slash then rest else char :: rest

/-- The test behind a slash: the path may neither end nor go on with a slash. -/
def continues (rest : List UInt8) : Bool :=
  match rest with
  | [] => false
  | char :: _ => decide (char ≠ slash)

section Resolvers

variable {State Node : Type} (fs : FileSystem State Node)

/-- The loop of `resolve_parent_fs`.  Every turn consumes a character, so the length of
the path bounds the number of turns. -/
def resolveParentLoop : (turns : Nat) → List UInt8 → Node → State → Option (Node × CString) × State
  | 0, _, _, state => (none, state)
  | turns + 1, cursor, parent, state =>
    match parseComponent cursor with
    | none => (none, state)
    | some (component, []) => (some (parent, CString.ofBuffer component), state)
    | some (component, _ :: rest) =>
      if continues rest then
        match fs.finddir state parent (CString.ofBuffer component) with
        | (none, state) => (none, state)
        | (some parent, state) =>
          if fs.isDirectory state parent then resolveParentLoop turns rest parent state
          else (none, state)
      else (none, state)

/-- `resolve_parent_fs`: the directory and the last component. -/
def resolveParentFs (state : State) (path : CString) : Option (Node × CString) × State :=
  match fs.root state with
  | none => (none, state)
  | some root =>
    if path.chars.length = 0 ∨ fsMaxPath ≤ path.chars.length then (none, state)
    else
      let cursor := skipSlash path.chars
      if cursor = [] then (none, state)
      else resolveParentLoop fs cursor.length cursor root state

def resolveLoop : (turns : Nat) → List UInt8 → Node → State → Option Node × State
  | 0, _, _, state => (none, state)
  | turns + 1, cursor, node, state =>
    match parseComponent cursor with
    | none => (none, state)
    | some (component, rest) =>
      match fs.finddir state node (CString.ofBuffer component) with
      | (none, state) => (none, state)
      | (some node, state) =>
        match rest with
        | [] => (some node, state)
        | _ :: rest =>
          if continues rest && fs.isDirectory state node then
            resolveLoop turns rest node state
          else (none, state)

def resolveFs (state : State) (path : CString) : Option Node × State :=
  match fs.root state with
  | none => (none, state)
  | some root =>
    if fsMaxPath ≤ path.chars.length then (none, state)
    else
      let cursor := skipSlash path.chars
      if cursor = [] then (some root, state)
      else resolveLoop fs cursor.length cursor root state

end Resolvers

def pathPush (out component : List UInt8) : Option (List UInt8) :=
  if fsMaxPath < out.length + 1 + component.length + 1 then none
  else some (out ++ slash :: component)

def pathPop (out : List UInt8) : List UInt8 :=
  ((out.reverse.dropWhile (· ≠ slash)).drop 1).reverse

/-- `path_apply`, with the length of the string as a bound on its turns. -/
def pathApplyLoop : (turns : Nat) → (out rest : List UInt8) → Option (List UInt8)
  | 0, out, _ => some out
  | _ + 1, out, [] => some out
  | turns + 1, out, char :: rest =>
    if char = slash then pathApplyLoop turns out rest
    else
      let component := (char :: rest).takeWhile (· ≠ slash)
      let rest := (char :: rest).dropWhile (· ≠ slash)
      if component = [dot] then pathApplyLoop turns out rest
      else if component = [dot, dot] then pathApplyLoop turns (pathPop out) rest
      else
        match pathPush out component with
        | none => none
        | some out => pathApplyLoop turns out rest

def pathApply (out path : List UInt8) : Option (List UInt8) := pathApplyLoop path.length out path

def doubleSlash : List UInt8 → Bool
  | first :: second :: rest =>
    (decide (first = slash) && decide (second = slash)) || doubleSlash (second :: rest)
  | _ => false

/-- What a path is applied to: a relative path starts from the working directory. -/
def pathBase (cwd path : CString) : Option (List UInt8) :=
  if path.chars.head? ≠ some slash ∧ cwd.chars ≠ [] then pathApply [] cwd.chars else some []

/-- `vfs_resolve_path`; an empty `cwd` stands for the null pointer as well. -/
def vfsResolvePath (cwd path : CString) : Option (List UInt8) :=
  if doubleSlash path.chars then none
  else
    match (pathBase cwd path).bind fun out => pathApply out path.chars with
    | none => none
    | some out =>
      if fsMaxPath ≤ out.length + 1 then none
      else if out = [] then some [slash]
      else some out

end MiniOS.Vfs
