import Stencil.Text.Basic

set_option autoImplicit false

/-! # Tables

Texts under names, each name once, in the order in which the names first appeared. Attributes
of elements, slots of a template and fragments of a site are kept in tables.
-/

namespace Stencil

/-- Names with their values, in order. -/
abbrev Table := List (Text × Text)

namespace Table

/-- The value of a name. -/
def get? (t : Table) (name : Text) : Option Text := t.lookup name

/-- The value of a name when it is present and not empty. -/
def filled? (t : Table) (name : Text) : Option Text := (get? t name).filter (!·.isEmpty)

/-- Whether a name is present. -/
def has (t : Table) (name : Text) : Bool := (get? t name).isSome

/-- Gives a name a value: in its old place, or at the end when it is new. -/
def set (name value : Text) : Table → Table
  | [] => [(name, value)]
  | (n, v) :: t => if n = name then (n, value) :: t else (n, v) :: set name value t

/-- The table without a name. -/
def erase (t : Table) (name : Text) : Table := t.filter (·.1 ≠ name)

/-- The table given by pairs: a repeated name keeps its first place and takes its last value. -/
def ofPairs (pairs : List (Text × Text)) : Table :=
  pairs.foldl (fun t (name, value) => set name value t) []

theorem get?_set_self (t : Table) (name value : Text) :
    get? (set name value t) name = some value := by
  induction t with
  | nil => simp [set, get?]
  | cons a t ih =>
      obtain ⟨n, v⟩ := a
      by_cases h : n = name
      · simp [set, get?, h]
      · have h' : (name == n) = false := by simpa using fun e => h e.symm
        simpa [set, get?, h, h', List.lookup_cons] using ih

end Table
end Stencil
