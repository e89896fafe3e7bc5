import MiniOS.PagingSteps

/-!
# The eager reference machine

What fork means for a program: the child starts with its own copy of every
page, except for the pages of shared regions, which both spaces then use.  The
reference machine does this at once.  It has no frames, no reference counts and
no faults; a page is its contents, or the name of a shared cell.
-/

namespace MiniOS.Paging

open Function

inductive EagerPage
  | own (bytes : Nat → UInt8)
  | shared (cell : Nat)

structure EagerState where
  live : SpaceId → Bool
  nextSpace : SpaceId
  active : SpacePtr
  pages : Holder → Option EagerPage
  cells : Nat → Nat → UInt8
  nextCell : Nat

variable (ref : EagerState)

namespace EagerState

def initial : EagerState where
  live := fun _ => false
  nextSpace := 0
  active := .kernel
  pages := fun _ => none
  cells := fun _ _ => 0
  nextCell := 0

def create : EagerState :=
  { ref with
    live := update ref.live ref.nextSpace true
    nextSpace := ref.nextSpace + 1 }

/-- The child gets every page of the parent: private pages by value, shared
pages by name. -/
def copyPages (parent child : SpaceId) : EagerState :=
  { ref with
    pages := fun holder =>
      if holder.1 = child then ref.pages (parent, holder.2) else ref.pages holder }

def copyPage (parent child : SpaceId) (ref : EagerState) (slot : Slot) : EagerState :=
  { ref with pages := update ref.pages (child, slot) (ref.pages (parent, slot)) }

def clone : SpacePtr → EagerState
  | .null => ref
  | .kernel => ref.create
  | .user parent =>
    if ref.live parent then ref.create.copyPages parent ref.nextSpace else ref

/-- A request for a page succeeds in a live space that does not have it yet. -/
def wants (holder : Holder) : Bool :=
  ref.live holder.1 && (ref.pages holder).isNone

def map (ptr : SpacePtr) (vaddr : Nat) : EagerState :=
  match target ptr vaddr with
  | none => ref
  | some holder =>
    if ref.wants holder then
      { ref with pages := update ref.pages holder (some (.own fun _ => 0)) }
    else ref

def share (vaddr : Nat) : EagerState :=
  match shareTarget ref.active vaddr with
  | none => ref
  | some holder =>
    if ref.wants holder then
      { ref with
        pages := update ref.pages holder (some (.shared ref.nextCell))
        cells := update ref.cells ref.nextCell fun _ => 0
        nextCell := ref.nextCell + 1 }
    else ref

def unmap (ptr : SpacePtr) (vaddr : Nat) : EagerState :=
  match target ptr vaddr with
  | none => ref
  | some holder => { ref with pages := update ref.pages holder none }

def destroy : SpacePtr → EagerState
  | .null | .kernel => ref
  | .user id =>
    if ref.live id then
      { ref with
        live := update ref.live id false
        active := if .user id = ref.active then .kernel else ref.active
        pages := fun holder => if holder.1 = id then none else ref.pages holder }
    else ref

def activate : SpacePtr → EagerState
  | .null | .kernel => { ref with active := .kernel }
  | .user id => { ref with active := if ref.live id then .user id else .kernel }

/-- Write one byte of the page at `holder`, if there is one. -/
def write (holder : Holder) (offset : Nat) (byte : UInt8) : EagerState :=
  match ref.pages holder with
  | none => ref
  | some (.own bytes) =>
    { ref with
      pages := update ref.pages holder
        (some (.own (update bytes offset byte))) }
  | some (.shared cell) =>
    { ref with
      cells := update ref.cells cell
        (update (ref.cells cell) offset byte) }

def store (vaddr : Nat) (byte : UInt8) : EagerState :=
  match target ref.active vaddr with
  | none => ref
  | some holder => ref.write holder (vaddr % 0x1000) byte

def load (id : SpaceId) (vaddr : Nat) : Option UInt8 :=
  match userPte vaddr with
  | none => none
  | some slot =>
    match ref.pages (id, slot) with
    | none => none
    | some (.own bytes) => some (bytes (vaddr % 0x1000))
    | some (.shared cell) => some (ref.cells cell (vaddr % 0x1000))

end EagerState

theorem EagerState.copyPage_foldl {parent child : SpaceId} (distinct : parent ≠ child)
    (slots : List Slot) (ref : EagerState) :
    slots.foldl (copyPage parent child) ref =
      { ref with
        pages := fun holder =>
          if holder.1 = child ∧ holder.2 ∈ slots then ref.pages (parent, holder.2)
          else ref.pages holder } := by
  induction slots generalizing ref with
  | nil => simp
  | cons slot rest ih =>
    rw [List.foldl_cons, ih]
    simp only [copyPage, EagerState.mk.injEq, true_and, and_true]
    funext holder
    obtain ⟨id, place⟩ := holder
    have parentPage : ∀ place, ((parent, place) : Holder) ≠ (child, slot) := by
      intro place same
      exact distinct (Prod.mk.inj same).1
    simp only [update_of_ne (parentPage place), List.mem_cons]
    by_cases later : id = child ∧ place ∈ rest
    · simp [later.1, later.2]
    · by_cases here : id = child ∧ place = slot
      · simp [here.1, here.2]
      · have different : (id, place) ≠ (child, slot) := by
          rintro ⟨rfl, rfl⟩
          exact here ⟨rfl, rfl⟩
        have neither : ¬ (id = child ∧ (place = slot ∨ place ∈ rest)) := by
          tauto
        rw [if_neg later, if_neg neither, update_of_ne different]

/-- Copying page by page is copying all pages at once. -/
theorem EagerState.copyPages_eq_foldl {parent child : SpaceId} (distinct : parent ≠ child)
    (ref : EagerState) :
    ref.copyPages parent child = allSlots.foldl (copyPage parent child) ref := by
  rw [copyPage_foldl distinct]
  simp only [copyPages, mem_allSlots, and_true]

def eagerStep : PagingOp → EagerState
  | .create => ref.create
  | .clone parent => ref.clone parent
  | .map space vaddr => ref.map space vaddr
  | .unmap space vaddr => ref.unmap space vaddr
  | .share vaddr => ref.share vaddr
  | .destroy space => ref.destroy space
  | .activate space => ref.activate space
  | .cowFault _ => ref
  | .store vaddr byte => ref.store vaddr byte

end MiniOS.Paging
