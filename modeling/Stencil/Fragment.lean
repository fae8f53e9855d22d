import Stencil.Path.Normal
import Stencil.Table

set_option autoImplicit false

/-! # Fragments

The texts that pages import, each under the normal form of its path. An import names a fragment
by a reference, with or without the extension, below a base folder: HTML and Markdown fragments
have a base each.
-/

namespace Stencil

open Text

namespace Fragment

/-- The extension of a fragment in HTML. -/
def htmlExtension : Text := ".html".text

/-- The extension of a fragment in Markdown. -/
def markdownExtension : Text := ".md".text

/-- The key a reference stands for, below a base. -/
def key (ref ext base : Text) : Text :=
  let file := if endsWith ref ext then ref else ref ++ ext
  Path.normalize (Path.joinTexts base (file.dropWhile (· == '/')))

end Fragment

/-- The fragments of a site, with the folders that references are looked up in. -/
structure Store where
  importsBase : Text
  contentBase : Text
  fragments : Table
  deriving DecidableEq, Repr

namespace Store

/-- A store without fragments. A content folder that is not given is the imports folder. -/
def new (importsBase : Text) (contentBase : Text) : Store :=
  ⟨importsBase, if contentBase.isEmpty then importsBase else contentBase, []⟩

/-- Stores a text under a path. -/
def put (store : Store) (path text : Text) : Store :=
  { store with fragments := Table.set (Path.normalize path) text store.fragments }

/-- The text under a path. -/
def get? (store : Store) (path : Text) : Option Text :=
  store.fragments.get? (Path.normalize path)

/-- Whether there is a text under a path. -/
def contains (store : Store) (path : Text) : Bool := (store.get? path).isSome

/-- The number of fragments. -/
def size (store : Store) : Nat := store.fragments.length

/-- The HTML fragment a reference stands for. -/
def html? (store : Store) (ref : Text) : Option Text :=
  store.get? (Fragment.key ref Fragment.htmlExtension store.importsBase)

/-- The Markdown fragment a reference stands for. -/
def markdown? (store : Store) (ref : Text) : Option Text :=
  store.get? (Fragment.key ref Fragment.markdownExtension store.contentBase)

/-- Stores files of a folder, given by their paths in it, below a base. -/
def putFiles (store : Store) (base : Text) (files : List (Text × Text)) : Store :=
  files.foldl (fun store (path, text) => store.put (Path.joinTexts base path) text) store

end Store
end Stencil
