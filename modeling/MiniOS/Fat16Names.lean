import Mathlib

/-!
# Names in FAT16 directories

A directory entry stores a name as eight characters and an extension of three,
padded with spaces and in upper case.  This file models the functions of
`fat16.c` that convert between such fields and the strings used by the rest of
the kernel.
-/

namespace MiniOS.Fat16

/-- The characters of a string of C, without the terminating zero. -/
structure CString where
  chars : List UInt8
  noNul : 0 ∉ chars
deriving DecidableEq

@[ext]
theorem CString.ext {first second : CString} (same : first.chars = second.chars) :
    first = second := by
  cases first
  cases second
  cases same
  rfl

def CString.ofBuffer (buffer : List UInt8) : CString where
  chars := buffer.takeWhile (· ≠ 0)
  noNul := fun member => by simpa using List.mem_takeWhile_imp member

def space : UInt8 := 0x20

def dot : UInt8 := 0x2E

def deletedMark : UInt8 := 0xE5

def fat16Lower (c : UInt8) : UInt8 := if 0x41 ≤ c ∧ c ≤ 0x5A then c + 32 else c

def fat16Upper (c : UInt8) : UInt8 := if 0x61 ≤ c ∧ c ≤ 0x7A then c - 32 else c

/-- The characters that `fat16_format_name` stores for the eleven bytes of a name
field. -/
def formatField (field : List UInt8) : List UInt8 :=
  let base := ((field.take 8).takeWhile (· ≠ space)).map fat16Lower
  let extension := (field.drop 8).take 3
  if extension.any (· ≠ space) then
    base ++ dot :: (extension.takeWhile (· ≠ space)).map fat16Lower
  else base

/-- `fat16_format_name` applied to a name field. -/
def fat16FormatName (field : List UInt8) : CString :=
  CString.ofBuffer (formatField field)

def lastDot (name : List UInt8) : Option Nat :=
  ((List.range name.length).reverse).find? fun i => name.getD i 0 = dot

/-- Upper case, padded with spaces to `width` characters. -/
def padField (width : Nat) (chars : List UInt8) : List UInt8 :=
  chars.map fat16Upper ++ List.replicate (width - chars.length) space

/-- `fat16_make_83`: the eleven bytes of a name field, or `none` when the name
does not fit. -/
def fat16Make83 (name : CString) : Option (List UInt8) :=
  let len := name.chars.length
  let nameLen := (lastDot name.chars).getD len
  let extStart := ((lastDot name.chars).map (· + 1)).getD len
  let extLen := len - extStart
  if nameLen = 0 ∨ 8 < nameLen ∨ 3 < extLen then none
  else some (padField 8 (name.chars.take nameLen) ++ padField 3 (name.chars.drop extStart))

def nameEq : List UInt8 → List UInt8 → Bool
  | a :: as, b :: bs => if fat16Lower a ≠ fat16Lower b then false else nameEq as bs
  | [], [] => true
  | _, _ => false

def fat16NameEq (a b : CString) : Bool := nameEq a.chars b.chars

theorem nameEq_iff {a b : List UInt8} :
    nameEq a b = true ↔ a.map fat16Lower = b.map fat16Lower := by
  induction a generalizing b with
  | nil => cases b <;> simp [nameEq]
  | cons first a ih =>
    cases b with
    | nil => simp [nameEq]
    | cons second b => by_cases same : fat16Lower first = fat16Lower second <;> simp [nameEq, same, ih]

theorem fat16NameEq_iff {a b : CString} :
    fat16NameEq a b = true ↔ a.chars.map fat16Lower = b.chars.map fat16Lower :=
  nameEq_iff

variable {c : UInt8} {name : CString} {field : List UInt8}

theorem fat16Upper_ne_zero (nonzero : c ≠ 0) : fat16Upper c ≠ 0 := by
  unfold fat16Upper
  grind

variable {width : Nat} {chars : List UInt8}

theorem padField_length (fits : chars.length ≤ width) : (padField width chars).length = width := by
  simp only [padField, List.length_append, List.length_map, List.length_replicate]
  omega

/-- The last dot splits a name into its base and its extension. -/
theorem lastDot_cases (name : List UInt8) : lastDot name = none ∧ dot ∉ name ∨
      ∃ base extension, lastDot name = some base.length ∧ name = base ++ dot :: extension ∧
        dot ∉ extension := by
  rw [lastDot]
  cases found : ((List.range name.length).reverse).find? fun i => decide (name.getD i 0 = dot) with
  | none =>
    refine Or.inl ⟨rfl, fun member => ?_⟩
    obtain ⟨i, below, atIndex⟩ := List.getElem_of_mem member
    rw [List.find?_eq_none] at found
    have notDot := found i (by simpa using below)
    simp [List.getD, below, atIndex] at notDot
  | some i =>
    have decreasing : ((List.range name.length).reverse).Pairwise (· > ·) :=
      List.pairwise_reverse.mpr List.pairwise_lt_range
    have below : i < name.length := by simpa using List.mem_of_find?_eq_some found
    rw [List.find?_eq_some_iff_append] at found
    obtain ⟨isDot, later, earlier, parts, notDots⟩ := found
    have atIndex : name[i] = dot := by simpa [List.getD, below] using isDot
    have lastOne : ∀ j, i < j → (inside : j < name.length) → name[j] ≠ dot := by
      intro j after inside isLater
      have member : j ∈ later ++ i :: earlier := by simp [← parts, inside]
      rw [parts, List.pairwise_append, List.pairwise_cons] at decreasing
      rcases List.mem_append.mp member with inLater | atOrBefore
      · have notDot := notDots j inLater
        simp [List.getD, inside, isLater] at notDot
      · rcases List.mem_cons.mp atOrBefore with rfl | inEarlier
        · omega
        · have smaller := decreasing.2.1.1 j inEarlier
          omega
    refine Or.inr ⟨name.take i, name.drop (i + 1), by simp [below.le], ?_, fun member => ?_⟩
    · rw [← atIndex, ← List.drop_eq_getElem_cons below, List.take_append_drop]
    · obtain ⟨k, inside, isLater⟩ := List.getElem_of_mem member
      rw [List.length_drop] at inside
      rw [List.getElem_drop] at isLater
      exact lastOne (i + 1 + k) (by omega) (by omega) isLater

variable (fits : fat16Make83 name = some field)

include fits

/-- The parts of a name that fits an entry. -/
theorem fat16Make83_parts :
    ∃ base extension, field = padField 8 base ++ padField 3 extension ∧ base ≠ [] ∧
      base.length ≤ 8 ∧ extension.length ≤ 3 ∧
      (name.chars = base ∧ extension = [] ∧ dot ∉ base ∨
        name.chars = base ++ dot :: extension ∧ dot ∉ extension) := by
  simp only [fat16Make83] at fits
  rcases lastDot_cases name.chars with ⟨noDot, free⟩ | ⟨base, extension, split, parts, free⟩
  · simp only [noDot, Option.getD_none, Option.map_none] at fits
    split at fits
    case isTrue => simp at fits
    case isFalse short =>
      rw [Option.some.injEq, List.take_length, List.drop_length] at fits
      refine ⟨name.chars, [], fits.symm, ?_, by omega, by simp, Or.inl ⟨rfl, rfl, free⟩⟩
      rintro empty
      simp [empty] at short
  · simp only [split, Option.getD_some, Option.map_some] at fits
    split at fits
    case isTrue => simp at fits
    case isFalse short =>
      rw [Option.some.injEq] at fits
      have takeBase : name.chars.take base.length = base := by simp [parts]
      have dropBase : name.chars.drop (base.length + 1) = extension := by simp [parts]
      have total : name.chars.length = base.length + 1 + extension.length := by
        rw [parts, List.length_append, List.length_cons]
        omega
      rw [takeBase, dropBase] at fits
      refine ⟨base, extension, fits.symm, ?_, by omega, by omega, Or.inr ⟨parts, free⟩⟩
      rintro rfl
      simp at short

theorem fat16Make83_length : field.length = 11 := by
  obtain ⟨base, extension, rfl, -, shortBase, shortExtension, -⟩ := fat16Make83_parts fits
  rw [List.length_append, padField_length shortBase, padField_length shortExtension]

theorem fat16Make83_first :
    ∃ first, name.chars.head? = some first ∧ field.getD 0 0 = fat16Upper first := by
  obtain ⟨base, extension, rfl, nonempty, -, -, parts⟩ := fat16Make83_parts fits
  obtain ⟨first, rest, rfl⟩ := List.exists_cons_of_ne_nil nonempty
  refine ⟨first, ?_, by simp [padField]⟩
  rcases parts with ⟨same, -, -⟩ | ⟨same, -⟩ <;> simp [same]

/-- The first byte of a stored name does not end the directory. -/
theorem fat16Make83_head : field.getD 0 0 ≠ 0 := by
  obtain ⟨first, atHead, stored⟩ := fat16Make83_first fits
  rw [stored]
  refine fat16Upper_ne_zero ?_
  rintro rfl
  exact name.noNul (List.mem_of_mem_head? atHead)

omit fits

theorem fat16Lower_ne_zero (nonzero : c ≠ 0) : fat16Lower c ≠ 0 := by
  unfold fat16Lower
  grind

theorem fat16Upper_eq_space : fat16Upper c = space ↔ c = space := by
  unfold fat16Upper space
  grind

/-- Storing a character in upper case and showing it in lower case. -/
theorem fat16Lower_stored (c : UInt8) : fat16Lower (fat16Upper c) = fat16Lower c := by
  unfold fat16Upper fat16Lower
  grind

theorem takeWhile_padField (width : Nat) (chars : List UInt8) :
    (padField width chars).takeWhile (· ≠ space) =
      (chars.takeWhile (· ≠ space)).map fat16Upper := by
  have padding : (List.replicate (width - chars.length) space).takeWhile (· ≠ space) = [] := by
    cases width - chars.length <;> simp [List.replicate_succ]
  rw [padField]
  generalize List.replicate (width - chars.length) space = rest at padding
  induction chars with
  | nil => exact padding
  | cons c chars ih =>
    by_cases isSpace : c = space
    · simp [isSpace, fat16Upper_eq_space.mpr rfl]
    · simpa [isSpace, fat16Upper_eq_space] using ih

theorem any_padField (width : Nat) (chars : List UInt8) :
    (padField width chars).any (· ≠ space) = chars.any (· ≠ space) := by
  simp [padField, Function.comp_def, fat16Upper_eq_space]

/-- A name that is shown as it was given: it has no space, its last character is
not a dot, and its first one marks neither a deleted nor a skipped entry. -/
structure PlainName (name : CString) : Prop where
  noSpace : space ∉ name.chars
  last : name.chars.getLast? ≠ some dot
  notDot : name.chars.head? ≠ some dot
  notDeleted : name.chars.head? ≠ some deletedMark

variable {base extension : List UInt8}

theorem formatField_padField (shortBase : base.length ≤ 8) (shortExtension : extension.length ≤ 3) :
    formatField (padField 8 base ++ padField 3 extension) =
      (base.takeWhile (· ≠ space)).map fat16Lower ++
        if extension.any (· ≠ space) then
          dot :: (extension.takeWhile (· ≠ space)).map fat16Lower
        else [] := by
  have baseLength := padField_length shortBase
  have extensionLength := padField_length shortExtension
  have baseField : (padField 8 base ++ padField 3 extension).take 8 = padField 8 base :=
    List.take_left' baseLength
  have extensionField :
      ((padField 8 base ++ padField 3 extension).drop 8).take 3 = padField 3 extension := by
    rw [List.drop_left' baseLength, List.take_of_length_le extensionLength.le]
  rw [formatField]
  simp only [baseField, extensionField, takeWhile_padField, any_padField, List.map_map,
    Function.comp_def, fat16Lower_stored]
  split <;> simp

theorem takeWhile_noSpace (noSpace : space ∉ chars) : chars.takeWhile (· ≠ space) = chars :=
  List.takeWhile_eq_self_iff.mpr fun _ member => decide_eq_true fun same => noSpace (same ▸ member)

theorem noSpace_of_length (long : chars.length ≤ (chars.takeWhile (· ≠ space)).length) :
    space ∉ chars := by
  have whole := (List.takeWhile_prefix _).eq_of_length_le long
  exact fun member => of_decide_eq_true (List.takeWhile_eq_self_iff.mp whole space member) rfl

section Encoding

variable (fits : fat16Make83 name = some field)

include fits

theorem fat16Make83_live : field.getD 0 0 ≠ deletedMark ∧ field.getD 0 0 ≠ dot ↔
    name.chars.head? ≠ some deletedMark ∧ name.chars.head? ≠ some dot := by
  obtain ⟨first, atHead, stored⟩ := fat16Make83_first fits
  simp only [atHead, stored, ne_eq, Option.some.injEq]
  unfold fat16Upper deletedMark dot
  grind

/-- The name that is shown is the one that was given exactly if it has no space and no dot at its
end. -/
theorem fat16Make83_shown : (fat16FormatName field).chars = name.chars.map fat16Lower ↔
    space ∉ name.chars ∧ name.chars.getLast? ≠ some dot := by
  obtain ⟨base, extension, rfl, -, shortBase, shortExtension, parts⟩ := fat16Make83_parts fits
  have format := formatField_padField shortBase shortExtension
  constructor
  · -- the string that is shown has no more characters than the name, and fewer where one stops it
    intro shown
    have long :
        name.chars.length ≤ (formatField (padField 8 base ++ padField 3 extension)).length := by
      rw [← List.length_map fat16Lower, ← shown]
      exact (List.takeWhile_prefix _).length_le
    have baseShort := (List.takeWhile_prefix (l := base) (· ≠ space)).length_le
    have extensionShort := (List.takeWhile_prefix (l := extension) (· ≠ space)).length_le
    rw [format, List.length_append, List.length_map] at long
    rcases parts with ⟨same, rfl, noDot⟩ | ⟨same, noDot⟩
    · rw [same] at long ⊢
      exact ⟨noSpace_of_length (by simpa using long), fun last => noDot (List.mem_of_getLast? last)⟩
    · rw [same, List.length_append, List.length_cons] at long
      split at long
      · next some =>
        rw [List.length_cons, List.length_map] at long
        have baseSpace : space ∉ base := noSpace_of_length (by omega)
        have extensionSpace : space ∉ extension := noSpace_of_length (by omega)
        refine ⟨?_, fun last => ?_⟩
        · have notDot : space ≠ dot := by decide
          rw [same]
          simp [baseSpace, extensionSpace, notDot]
        · rw [same] at last
          cases extension with
          | nil => simp at some
          | cons c extension =>
            rw [List.getLast?_append_cons, List.getLast?_cons_cons] at last
            exact noDot (List.mem_of_getLast? last)
      · rw [List.length_nil] at long
        omega
  · rintro ⟨noSpace, last⟩
    have lowered : formatField (padField 8 base ++ padField 3 extension) =
        name.chars.map fat16Lower := by
      rw [format]
      rcases parts with ⟨same, rfl, -⟩ | ⟨same, -⟩
      · rw [same] at noSpace ⊢
        rw [takeWhile_noSpace noSpace]
        exact List.append_nil _
      · rw [same] at noSpace last ⊢
        simp only [List.mem_append, List.mem_cons, not_or] at noSpace
        rw [takeWhile_noSpace noSpace.1, takeWhile_noSpace noSpace.2.2, List.map_append,
          List.map_cons]
        cases extension with
        | nil => exact absurd (List.getLast?_concat ..) last
        | cons c extension =>
          have notSpace : c ≠ space := fun same => noSpace.2.2 (by simp [same])
          simp [notSpace, fat16Lower, dot]
    rw [fat16FormatName, CString.ofBuffer, lowered]
    refine List.takeWhile_eq_self_iff.mpr fun c member => decide_eq_true ?_
    obtain ⟨original, inside, rfl⟩ := List.mem_map.mp member
    refine fat16Lower_ne_zero ?_
    rintro rfl
    exact name.noNul inside

/-- Encoding and decoding agree on plain names, and on no others. -/
theorem plainName_iff : PlainName name ↔
    (field.getD 0 0 ≠ deletedMark ∧ field.getD 0 0 ≠ dot) ∧
      (fat16FormatName field).chars = name.chars.map fat16Lower := by
  rw [fat16Make83_live fits, fat16Make83_shown fits]
  refine ⟨fun plain => ⟨⟨plain.notDeleted, plain.notDot⟩, plain.noSpace, plain.last⟩, ?_⟩
  rintro ⟨⟨notDeleted, notDot⟩, noSpace, last⟩
  exact ⟨noSpace, last, notDot, notDeleted⟩

end Encoding

theorem fat16NameEq_of_shown {shown : CString} (same : shown.chars = name.chars.map fat16Lower) :
    fat16NameEq shown name = true := by
  rw [fat16NameEq_iff, same, List.map_map]
  refine List.map_congr_left fun c _ => ?_
  unfold fat16Lower Function.comp
  grind

end MiniOS.Fat16
