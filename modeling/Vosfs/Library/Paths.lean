import Mathlib.Data.List.Basic

/-!
# Paths

A path is a string of names with `/` before each of them, and `"/"` is the root.
`IsChild path parent name` reads a path at its last `/`: what stands after it is the name,
and what stands before it is the parent, which is the root if nothing stands there.
-/

namespace Vosfs

/-- `path` is `name` below `parent`, with one slash between them. -/
def IsChild (path parent name : String) : Prop :=
  ∃ front, path.toList = front ++ '/' :: name.toList ∧ '/' ∉ name.toList ∧
    parent = if front = [] then "/" else String.ofList front

/-- The path is absolute. -/
def StartsWithSlash (path : String) : Prop :=
  ∃ rest, path.toList = '/' :: rest

variable {path parent parent' name name' : String}

theorem isChild_root (hname : '/' ∉ name.toList) : IsChild ("/" ++ name) "/" name :=
  ⟨[], by simp, hname, rfl⟩

theorem isChild_append (hparent : parent ≠ "") (hname : '/' ∉ name.toList) :
    IsChild (parent ++ "/" ++ name) parent name := by
  refine ⟨parent.toList, by simp, hname, ?_⟩
  rw [if_neg (fun hnil => hparent (String.toList_eq_nil_iff.mp hnil)), String.ofList_toList]

/-- The first `c` of a list is where it is. -/
theorem append_cons_inj {α : Type*} {c : α} {front front' rest rest' : List α}
    (hfront : c ∉ front) (hfront' : c ∉ front') (heq : front ++ c :: rest = front' ++ c :: rest') :
    front = front' ∧ rest = rest' := by
  induction front generalizing front' with
  | nil =>
    cases front' with
    | nil => exact ⟨rfl, (List.cons.inj heq).2⟩
    | cons head tail =>
      obtain ⟨rfl, -⟩ := List.cons.inj heq
      exact absurd List.mem_cons_self hfront'
  | cons head front ih =>
    cases front' with
    | nil =>
      obtain ⟨rfl, -⟩ := List.cons.inj heq
      exact absurd List.mem_cons_self hfront
    | cons head' front' =>
      obtain ⟨rfl, htail⟩ := List.cons.inj heq
      obtain ⟨rfl, rfl⟩ := ih (List.not_mem_of_not_mem_cons hfront)
        (List.not_mem_of_not_mem_cons hfront') htail
      exact ⟨rfl, rfl⟩

namespace IsChild

/-- A path has one parent and one name. -/
theorem unique (h : IsChild path parent name) (h' : IsChild path parent' name') :
    parent = parent' ∧ name = name' := by
  obtain ⟨front, hpath, hname, rfl⟩ := h
  obtain ⟨front', hpath', hname', rfl⟩ := h'
  -- the last `/` is the first one of the reversed path
  have hreversed : name.toList.reverse ++ '/' :: front.reverse =
      name'.toList.reverse ++ '/' :: front'.reverse := by
    simpa using congrArg List.reverse (hpath.symm.trans hpath')
  obtain ⟨hnames, hfronts⟩ :=
    append_cons_inj (by simpa using hname) (by simpa using hname') hreversed
  rw [List.reverse_inj.mp hfronts]
  exact ⟨rfl, String.toList_injective (List.reverse_inj.mp hnames)⟩

theorem ne_root (h : IsChild path parent name) (hname : name ≠ "") : path ≠ "/" := by
  rintro rfl
  have hroot : IsChild ("/" ++ "") "/" "" := isChild_root (by simp)
  exact hname (h.unique hroot).2

theorem startsWithSlash (h : IsChild path parent name) (hparent : StartsWithSlash parent) :
    StartsWithSlash path := by
  obtain ⟨front, hpath, -, rfl⟩ := h
  by_cases hfront : front = []
  · subst hfront
    exact ⟨name.toList, hpath⟩
  · obtain ⟨rest, hrest⟩ := hparent
    rw [if_neg hfront, String.toList_ofList] at hrest
    exact ⟨rest ++ '/' :: name.toList, by rw [hpath, hrest, List.cons_append]⟩

end IsChild

theorem StartsWithSlash.ne_empty (h : StartsWithSlash path) : path ≠ "" := by
  rintro rfl
  obtain ⟨rest, hrest⟩ := h
  cases hrest

end Vosfs
