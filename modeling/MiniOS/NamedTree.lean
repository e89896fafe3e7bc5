import MiniOS.RootedChains

/-!
# Trees kept as a table of parents

A tree of named nodes is a table in which every node has one row with its parent, the root
in the first row.  Nodes are added under a directory at the end of the table, and a node
without children may be taken out of it; both keep the tree a tree.
-/

namespace MiniOS.NamedTree

open Function

open RootedChains (Ends)

variable {Node Name : Type} [DecidableEq Node]

/-- The rows of the table, and what is known of a node: its name and whether it is a
directory.  A node that does not exist has no label. -/
structure Table (Node Name : Type) where
  links : List (Node × Option Node)
  label : Node → Option (Name × Bool)

namespace Table

variable (t : Table Node Name)

def nodes : List Node := t.links.map Prod.fst

def Directory (node : Node) : Prop := ∃ name, t.label node = some (name, true)

def nameOf (node : Node) : Option Name := (t.label node).map Prod.fst

def parentOf (node : Node) : Option Node :=
  (t.links.find? fun link => link.1 = node).bind Prod.snd

def attach (node parent : Node) (name : Name) (directory : Bool) : Table Node Name where
  links := t.links ++ [(node, some parent)]
  label := update t.label node (some (name, directory))

end Table

/-- The rows form a tree: the root stands in the first row, every other row names a
directory of the table as its parent, the parents of a node lead to the root, and a
directory has no two entries of one name. -/
structure Sound (t : Table Node Name) (root : Option Node) : Prop where
  head : t.links.head?.map Prod.fst = root
  nodup : t.nodes.Nodup
  live : ∀ node, (t.label node).isSome ↔ node ∈ t.nodes
  parent : ∀ link ∈ t.links,
    (link.2 = none ∧ some link.1 = root) ∨ ∃ parent, link.2 = some parent ∧ t.Directory parent
  rooted : ∀ node ∈ t.nodes, ∃ path, Ends t.parentOf (some node) path ∧
    ∀ visited ∈ path, visited ∈ t.nodes
  names : ∀ first ∈ t.links, ∀ second ∈ t.links, first.2 = second.2 →
    t.nameOf first.1 = t.nameOf second.1 → first.1 = second.1

section Lookups

variable {t : Table Node Name} {root : Option Node}

theorem Table.Directory.mem_nodes {node : Node} (directory : t.Directory node)
    (sound : Sound t root) : node ∈ t.nodes := by
  obtain ⟨name, label⟩ := directory
  exact (sound.live node).mp (by rw [label]; rfl)

variable {link : Node × Option Node}

omit [DecidableEq Node] in
theorem mem_nodes_of_mem (member : link ∈ t.links) : link.1 ∈ t.nodes := List.mem_map_of_mem member

theorem find_link {links : List (Node × Option Node)} (nodup : (links.map Prod.fst).Nodup)
    (member : link ∈ links) :
    links.find? (fun other => other.1 = link.1) = some link := by
  induction links with
  | nil => exact absurd member List.not_mem_nil
  | cons first rest ih =>
    rw [List.map_cons, List.nodup_cons] at nodup
    rcases List.mem_cons.mp member with rfl | later
    · simp
    · have other : first.1 ≠ link.1 := fun same =>
        nodup.1 (same ▸ List.mem_map_of_mem later)
      rw [List.find?_cons_of_neg (by simpa using other)]
      exact ih nodup.2 later

theorem Sound.parentOf_eq (sound : Sound t root)
    (member : link ∈ t.links) : t.parentOf link.1 = link.2 := by
  rw [Table.parentOf, find_link sound.nodup member]
  rfl

/-- Every node leads to the root along a path that visits no node twice. -/
theorem Sound.path_to_root (sound : Sound t root) {node : Node} (member : node ∈ t.nodes) :
    ∃ path, Ends t.parentOf (some node) path ∧ path.Nodup ∧ path.getLast? = root := by
  obtain ⟨path, ends, within⟩ := sound.rooted node member
  refine ⟨path, ends, ends.nodup, ?_⟩
  have last : ∀ start path, Ends t.parentOf start path → (∀ visited ∈ path, visited ∈ t.nodes) →
      path ≠ [] → path.getLast? = root := by
    intro start path ends
    induction ends with
    | root => exact fun _ nonempty => absurd rfl nonempty
    | @step first rest tail ih =>
      intro within _
      rw [List.forall_mem_cons] at within
      cases rest with
      | nil =>
        obtain ⟨link, linkMember, rfl⟩ := List.mem_map.mp within.1
        have noParent : link.2 = none := by
          rw [← sound.parentOf_eq linkMember]
          cases parent : t.parentOf link.1 with
          | none => rfl
          | some parent => rw [parent] at tail; cases tail
        rcases sound.parent link linkMember with ⟨-, isRoot⟩ | ⟨parent, hasParent, -⟩
        · simpa using isRoot
        · rw [noParent] at hasParent
          exact nomatch hasParent
      | cons next rest =>
        rw [List.getLast?_cons_cons]
        exact ih within.2 (List.cons_ne_nil _ _)
  exact last _ path ends within (by cases ends; exact List.cons_ne_nil _ _)

end Lookups

/-- The root alone. -/
def Table.single (node : Node) (name : Name) : Table Node Name where
  links := [(node, none)]
  label := update (fun _ => none) node (some (name, true))

theorem Sound.single (node : Node) (name : Name) : Sound (Table.single node name) (some node) := by
  refine ⟨rfl, List.nodup_singleton _, fun other => ?_, ?_, fun other member => ⟨[other], .step ?_, ?_⟩,
    ?_⟩
  · by_cases same : other = node <;> simp [Table.single, Table.nodes, same]
  all_goals simp_all [Table.single, Table.nodes, Table.parentOf, Ends.root]

section Attach

variable {t : Table Node Name} {root : Option Node} {node parent : Node} {name : Name}
  {directory : Bool}

theorem nodes_attach : (t.attach node parent name directory).nodes = t.nodes ++ [node] := by
  simp [Table.attach, Table.nodes]

variable {other : Node}

theorem parentOf_attach_of_mem (member : other ∈ t.nodes) :
    (t.attach node parent name directory).parentOf other = t.parentOf other := by
  obtain ⟨link, linkMember, rfl⟩ := List.mem_map.mp member
  have found : (t.links.find? fun row => row.1 = link.1).isSome :=
    List.find?_isSome.mpr ⟨link, linkMember, by simp⟩
  rw [Table.parentOf, Table.parentOf, Table.attach, List.find?_append, Option.or_of_isSome found]

theorem parentOf_attach_self (fresh : node ∉ t.nodes) :
    (t.attach node parent name directory).parentOf node = some parent := by
  have missing : (t.links.find? fun row => row.1 = node) = none :=
    List.find?_eq_none.mpr fun link member => by
      simpa using fun same : link.1 = node => fresh (same ▸ mem_nodes_of_mem member)
  simp [Table.parentOf, Table.attach, List.find?_append, missing]

theorem label_attach_of_ne (notNode : other ≠ node) :
    (t.attach node parent name directory).label other = t.label other :=
  update_of_ne notNode ..

theorem Table.Directory.attach (holds : t.Directory other) (sound : Sound t root)
    (fresh : node ∉ t.nodes) : (t.attach node parent name directory).Directory other := by
  have notNode : other ≠ node := fun same => fresh (same ▸ holds.mem_nodes sound)
  rw [Table.Directory, label_attach_of_ne notNode]
  exact holds

/-- A node added under a directory, under a name that is not taken there. -/
theorem Sound.attach (sound : Sound t root) (fresh : node ∉ t.nodes)
    (isDirectory : t.Directory parent)
    (free : ∀ link ∈ t.links, link.2 = some parent → t.nameOf link.1 ≠ some name) :
    Sound (t.attach node parent name directory) root := by
  have different : ∀ link ∈ t.links, link.1 ≠ node := fun link member same =>
    fresh (same ▸ mem_nodes_of_mem member)
  have labelSelf : (t.attach node parent name directory).label node = some (name, directory) :=
    update_self ..
  have nameOther : ∀ link ∈ t.links,
      (t.attach node parent name directory).nameOf link.1 = t.nameOf link.1 := fun link member => by
    rw [Table.nameOf, label_attach_of_ne (different link member), Table.nameOf]
  have nameSelf : (t.attach node parent name directory).nameOf node = some name := by
    rw [Table.nameOf, labelSelf]
    rfl
  refine ⟨?_, ?_, ?_, ?_, ?_, ?_⟩
  · have nonempty : t.links ≠ [] := by
      intro empty
      have := isDirectory.mem_nodes sound
      rw [Table.nodes, empty] at this
      exact absurd this List.not_mem_nil
    rw [Table.attach, List.head?_append_of_ne_nil _ nonempty]
    exact sound.head
  · rw [nodes_attach]
    refine List.nodup_append.mpr ⟨sound.nodup, List.nodup_singleton _, ?_⟩
    rintro other member new isNew rfl
    exact fresh (List.mem_singleton.mp isNew ▸ member)
  · intro other
    rw [nodes_attach, List.mem_append, List.mem_singleton]
    by_cases same : other = node
    · simp [same, labelSelf]
    · rw [label_attach_of_ne same, sound.live]
      simp [same]
  · intro link member
    rcases List.mem_append.mp member with old | new
    · rcases sound.parent link old with isRoot | ⟨above, hasParent, holds⟩
      · exact Or.inl isRoot
      · exact Or.inr ⟨above, hasParent, holds.attach sound fresh⟩
    · obtain rfl := List.mem_singleton.mp new
      exact Or.inr ⟨parent, rfl, isDirectory.attach sound fresh⟩
  · intro other member
    -- the old paths stay, and the new node stands below the path of its parent
    have kept : ∀ old ∈ t.nodes, ∃ path,
        Ends (t.attach node parent name directory).parentOf (some old) path ∧
          ∀ visited ∈ path, visited ∈ t.nodes := by
      intro old oldMember
      obtain ⟨path, ends, within⟩ := sound.rooted old oldMember
      exact ⟨path, ends.congr fun visited inPath => parentOf_attach_of_mem (within visited inPath),
        within⟩
    rw [nodes_attach]
    rw [nodes_attach, List.mem_append, List.mem_singleton] at member
    rcases member with old | rfl
    · obtain ⟨path, ends, within⟩ := kept other old
      exact ⟨path, ends, fun visited inPath => List.mem_append_left _ (within visited inPath)⟩
    · obtain ⟨path, ends, within⟩ := kept parent (isDirectory.mem_nodes sound)
      refine ⟨other :: path, .step (by rw [parentOf_attach_self fresh]; exact ends), ?_⟩
      intro visited inPath
      rcases List.mem_cons.mp inPath with rfl | later
      · simp
      · exact List.mem_append_left _ (within visited later)
  · intro first firstMember second secondMember sameParent sameName
    rcases List.mem_append.mp firstMember with firstOld | firstNew
    · rcases List.mem_append.mp secondMember with secondOld | secondNew
      · rw [nameOther first firstOld, nameOther second secondOld] at sameName
        exact sound.names first firstOld second secondOld sameParent sameName
      · obtain rfl := List.mem_singleton.mp secondNew
        rw [nameOther first firstOld, nameSelf] at sameName
        exact absurd sameName (free first firstOld sameParent)
    · obtain rfl := List.mem_singleton.mp firstNew
      rcases List.mem_append.mp secondMember with secondOld | secondNew
      · rw [nameOther second secondOld, nameSelf] at sameName
        exact absurd sameName.symm (free second secondOld sameParent.symm)
      · obtain rfl := List.mem_singleton.mp secondNew
        rfl

end Attach

section Detach

variable {t t' : Table Node Name} {root : Option Node} {node : Node}

/-- A row of the table and the node's label are taken out. -/
structure Detached (t t' : Table Node Name) (node : Node) : Prop where
  links : ∃ front parent back, t.links = front ++ (node, parent) :: back ∧ front ≠ [] ∧
    t'.links = front ++ back
  label : t'.label = update t.label node none

variable (detached : Detached t t' node)

include detached

variable (sound : Sound t root)

include sound

theorem Detached.mem_links (link : Node × Option Node) :
    link ∈ t'.links ↔ link ∈ t.links ∧ link.1 ≠ node := by
  obtain ⟨front, parent, back, before, -, after⟩ := detached.links
  have nodup := sound.nodup
  rw [Table.nodes, before, List.map_append, List.map_cons, List.nodup_append,
    List.nodup_cons] at nodup
  obtain ⟨-, ⟨notLater, -⟩, apart⟩ := nodup
  rw [after, before]
  constructor
  · intro member
    rcases List.mem_append.mp member with inFront | inBack
    · exact ⟨List.mem_append_left _ inFront, fun same =>
        apart link.1 (List.mem_map_of_mem inFront) node (List.mem_cons_self ..) same⟩
    · exact ⟨List.mem_append_right _ (List.mem_cons_of_mem _ inBack), fun same =>
        notLater (List.mem_map.mpr ⟨link, inBack, same⟩)⟩
  · rintro ⟨member, other⟩
    rcases List.mem_append.mp member with inFront | inRest
    · exact List.mem_append_left _ inFront
    · rcases List.mem_cons.mp inRest with rfl | inBack
      · exact absurd rfl other
      · exact List.mem_append_right _ inBack

theorem Detached.mem_nodes (other : Node) : other ∈ t'.nodes ↔ other ∈ t.nodes ∧ other ≠ node := by
  constructor
  · intro member
    obtain ⟨link, linkMember, rfl⟩ := List.mem_map.mp member
    obtain ⟨old, notNode⟩ := (detached.mem_links sound link).mp linkMember
    exact ⟨mem_nodes_of_mem old, notNode⟩
  · rintro ⟨member, notNode⟩
    obtain ⟨link, linkMember, rfl⟩ := List.mem_map.mp member
    exact mem_nodes_of_mem ((detached.mem_links sound link).mpr ⟨linkMember, notNode⟩)

theorem Detached.nodup : t'.nodes.Nodup := by
  obtain ⟨front, parent, back, before, -, after⟩ := detached.links
  refine List.Nodup.sublist ?_ sound.nodup
  rw [Table.nodes, Table.nodes, before, after]
  exact ((List.Sublist.refl front).append (List.sublist_cons_self _ back)).map _

theorem Detached.parentOf (member : other ∈ t.nodes) (notNode : other ≠ node) :
    t'.parentOf other = t.parentOf other := by
  obtain ⟨link, linkMember, rfl⟩ := List.mem_map.mp member
  rw [sound.parentOf_eq linkMember, Table.parentOf, find_link (detached.nodup sound)
    ((detached.mem_links sound link).mpr ⟨linkMember, notNode⟩)]
  rfl

omit sound

omit detached

theorem Table.Directory.detach (holds : t.Directory other)
    (detached : Detached t t' node) (notNode : other ≠ node) : t'.Directory other := by
  rw [Table.Directory, detached.label, update_of_ne notNode]
  exact holds

theorem Sound.detach (sound : Sound t root) (detached : Detached t t' node)
    (childless : ∀ link ∈ t.links, link.2 ≠ some node) : Sound t' root := by
  have labelOther : ∀ other, other ≠ node → t'.label other = t.label other := fun other notNode => by
    rw [detached.label, update_of_ne notNode]
  refine ⟨?_, detached.nodup sound, ?_, ?_, ?_, ?_⟩
  · obtain ⟨front, parent, back, before, nonempty, after⟩ := detached.links
    rw [after, List.head?_append_of_ne_nil _ nonempty,
      ← sound.head, before, List.head?_append_of_ne_nil _ nonempty]
  · intro other
    rw [detached.mem_nodes sound]
    by_cases same : other = node
    · simp [same, detached.label]
    · rw [labelOther other same, sound.live]
      simp [same]
  · intro link member
    obtain ⟨old, -⟩ := (detached.mem_links sound link).mp member
    rcases sound.parent link old with isRoot | ⟨above, hasParent, holds⟩
    · exact Or.inl isRoot
    · have notNode : above ≠ node := fun same => childless link old (same ▸ hasParent)
      exact Or.inr ⟨above, hasParent, holds.detach detached notNode⟩
  · intro other member
    obtain ⟨old, notNode⟩ := (detached.mem_nodes sound other).mp member
    obtain ⟨path, ends, within⟩ := sound.rooted other old
    have avoids : node ∉ path := by
      refine ends.not_mem within (fun same => notNode (Option.some.inj same)) ?_
      intro visited visitedMember
      obtain ⟨link, linkMember, rfl⟩ := List.mem_map.mp visitedMember
      rw [sound.parentOf_eq linkMember]
      exact childless link linkMember
    have differ : ∀ visited ∈ path, visited ≠ node := fun visited inPath same =>
      avoids (same ▸ inPath)
    refine ⟨path, ends.congr fun visited inPath => ?_, fun visited inPath => ?_⟩
    · exact detached.parentOf sound (within visited inPath) (differ visited inPath)
    · exact (detached.mem_nodes sound visited).mpr ⟨within visited inPath, differ visited inPath⟩
  · intro first firstMember second secondMember sameParent sameName
    obtain ⟨firstOld, firstOther⟩ := (detached.mem_links sound first).mp firstMember
    obtain ⟨secondOld, secondOther⟩ := (detached.mem_links sound second).mp secondMember
    rw [Table.nameOf, Table.nameOf, labelOther _ firstOther, labelOther _ secondOther] at sameName
    exact sound.names first firstOld second secondOld sameParent sameName

end Detach

end MiniOS.NamedTree
