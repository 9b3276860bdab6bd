import Mathlib.Order.Basic
import Mathlib.Logic.Function.Basic
import Vosfs.Library.Paths

/-!
# Namespaces

What a tree of directories and files is to its users: a path names a directory, or a file with
some content, or nothing.  The root is a directory, and so is the parent of every other path
(`Namespace`).  A path is added below a directory if it names nothing yet (`Fits`, `add`); nothing
is ever taken away, so that a later namespace shows all that an earlier one did (`le_add`).
-/

namespace Vosfs

/-- What stands at a path. -/
inductive Kind (Content : Type*)
  | directory
  | file (content : Content)
  deriving DecidableEq, Repr

/-- Whether it can have children. -/
def Kind.isDirectory {Content : Type*} : Kind Content → Bool
  | .directory => true
  | .file _ => false

/-- A tree of names: the root is a directory, and so is the parent of whatever stands at another
path. -/
@[ext]
structure Namespace (Content : Type*) where
  find : String → Option (Kind Content)
  root : find "/" = some .directory
  parent : ∀ {path kind}, find path = some kind → path ≠ "/" →
    ∃ parent name, IsChild path parent name ∧ name ≠ "" ∧ find parent = some .directory

/-- A path to be added, read at its last `/`. -/
structure Insertion (Content : Type*) where
  parent : String
  name : String
  path : String
  kind : Kind Content

namespace Namespace

variable {Content : Type*} {ns ns' : Namespace Content} {added : Insertion Content}
  {path : String} {kind : Kind Content}

/-- What one namespace shows, the other one shows as well. -/
instance : PartialOrder (Namespace Content) where
  le ns ns' := ∀ path kind, ns.find path = some kind → ns'.find path = some kind
  le_refl _ _ _ hfind := hfind
  le_trans _ _ _ hfirst hsecond path kind hfind := hsecond path kind (hfirst path kind hfind)
  le_antisymm ns ns' hle hge := by
    ext path kind
    exact ⟨hle path kind, hge path kind⟩

theorem find_of_le (hle : ns ≤ ns') (hfind : ns.find path = some kind) :
    ns'.find path = some kind :=
  hle path kind hfind

/-- The namespace of the root alone. -/
def empty : Namespace Content where
  find path := if path = "/" then some .directory else none
  root := if_pos rfl
  parent hfind hroot := by
    rw [if_neg hroot] at hfind
    cases hfind

/-- There is a directory to put the path into, and the path is free. -/
structure Fits (ns : Namespace Content) (added : Insertion Content) : Prop where
  parent : ns.find added.parent = some .directory
  child : IsChild added.path added.parent added.name
  name_ne : added.name ≠ ""
  free : ns.find added.path = none

/-- The namespace with the new path. -/
def insert (ns : Namespace Content) (added : Insertion Content) (hfits : ns.Fits added) :
    Namespace Content where
  find := Function.update ns.find added.path (some added.kind)
  root := by
    rw [Function.update_of_ne (hfits.child.ne_root hfits.name_ne).symm]
    exact ns.root
  parent {path kind} hfind hroot := by
    have hkept : ∀ {parent}, ns.find parent = some .directory →
        Function.update ns.find added.path (some added.kind) parent = some .directory := by
      intro parent hparent
      rw [Function.update_of_ne]
      · exact hparent
      · rintro rfl
        rw [hfits.free] at hparent
        cases hparent
    by_cases heq : path = added.path
    · exact ⟨added.parent, added.name, heq ▸ hfits.child, hfits.name_ne, hkept hfits.parent⟩
    · rw [Function.update_of_ne heq] at hfind
      obtain ⟨parent, name, hchild, hname, hparent⟩ := ns.parent hfind hroot
      exact ⟨parent, name, hchild, hname, hkept hparent⟩

open Classical in
/-- The namespace after a request to add a path, which is ignored if the path does not fit. -/
noncomputable def add (ns : Namespace Content) (added : Insertion Content) : Namespace Content :=
  if hfits : ns.Fits added then ns.insert added hfits else ns

theorem find_add_of_fits (hfits : ns.Fits added) (path : String) :
    (ns.add added).find path = if path = added.path then some added.kind else ns.find path := by
  rw [add, dif_pos hfits]
  exact Function.update_apply ..

theorem add_of_not_fits (hfits : ¬ ns.Fits added) : ns.add added = ns :=
  dif_neg hfits

/-- **Nothing is taken away.** -/
theorem le_add (ns : Namespace Content) (added : Insertion Content) : ns ≤ ns.add added := by
  intro path kind hfind
  by_cases hfits : ns.Fits added
  · rw [find_add_of_fits hfits, if_neg]
    · exact hfind
    · rintro rfl
      rw [hfits.free] at hfind
      cases hfind
  · rwa [add_of_not_fits hfits]

/-- `path` is listed in the directory `parent`, under `name`. -/
def Listed (ns : Namespace Content) (parent path name : String) (kind : Kind Content) : Prop :=
  path ≠ "/" ∧ IsChild path parent name ∧ ns.find path = some kind

theorem Listed.of_le {parent name : String} (h : ns.Listed parent path name kind)
    (hle : ns ≤ ns') : ns'.Listed parent path name kind :=
  ⟨h.1, h.2.1, find_of_le hle h.2.2⟩

end Namespace

end Vosfs
