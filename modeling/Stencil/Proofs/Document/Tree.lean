import Stencil.Html.Tree
import Stencil.Proofs.Document.Tokens

set_option autoImplicit false

/-! # The elements of a tree

However end tags are matched, the elements of a tree in the order of their start tags are the
start tags that were read: closing moves an element into the one around it, but never past
another start tag. `Builder.tags` is the invariant; for a document it makes the tags of the
tree the tags of the document.
-/

namespace Stencil.Html

open Text

theorem elementsOf_append (a b : List Node) : elementsOf (a ++ b) = elementsOf a ++ elementsOf b := by
  induction a with
  | nil => rfl
  | cons node a ih => simp [elementsOf, ih]

/-- The tags of the elements of some nodes. -/
def tagsOf (nodes : List Node) : List Tag := (elementsOf nodes).map (·.tag)

theorem tagsOf_append (a b : List Node) : tagsOf (a ++ b) = tagsOf a ++ tagsOf b := by
  simp [tagsOf, elementsOf_append]

theorem tagsOf_text (kind : TextKind) (s : Text) : tagsOf [.text kind s] = [] := rfl

theorem tagsOf_element (tag : Tag) (children : List Node) :
    tagsOf [.element tag children] = tag :: tagsOf children := by
  simp [tagsOf, elementsOf, Node.elements]

theorem mem_tagsOf {nodes : List Node} {tag : Tag} {children : List Node}
    (h : .element tag children ∈ nodes) : tag ∈ tagsOf nodes := by
  obtain ⟨a, b, rfl⟩ := List.append_of_mem h
  rw [← List.singleton_append, tagsOf_append, tagsOf_append, tagsOf_element]
  simp

/-! ## Builders -/

/-- The tags of an open element and of its content so far. -/
def Frame.tags (frame : Frame) : List Tag := frame.tag :: tagsOf frame.children.reverse

namespace Builder

/-- The tags of a tree under construction, in the order of the start tags. -/
def tags (b : Builder) : List Tag := tagsOf b.top.reverse ++ b.opened.reverse.flatMap Frame.tags

theorem tags_add (node : Node) (b : Builder) : (b.add node).tags = b.tags ++ tagsOf [node] := by
  unfold add
  split
  · rename_i h
    simp [tags, h, tagsOf_append]
  · rename_i frame frames h
    simp [tags, h, Frame.tags, tagsOf_append]

theorem tags_append (s : Text) (b : Builder) : (b.append s).tags = b.tags := rfl

theorem tags_flush (kind : TextKind) (b : Builder) : (b.flush kind).tags = b.tags := by
  unfold flush
  split
  · rfl
  · dsimp only
    rw [tags_add, tagsOf_text, List.append_nil]
    rfl

theorem tags_pop (b : Builder) : b.pop.tags = b.tags := by
  unfold pop
  split
  · rfl
  · rename_i frame frames h
    rw [tags_add, tagsOf_element]
    simp [tags, h, Frame.tags]

theorem tags_repeat_pop (n : Nat) (b : Builder) : (Nat.repeat pop n b).tags = b.tags := by
  induction n with
  | zero => rfl
  | succ n ih => rw [Nat.repeat, tags_pop, ih]

theorem tags_closeTo (name : Text) (b : Builder) : (b.closeTo name).tags = b.tags := by
  unfold closeTo
  split
  · rfl
  · exact tags_repeat_pop _ b

theorem tags_close (name : Text) (b : Builder) : (b.close name).tags = b.tags := by
  rw [close, tags_closeTo, tags_flush]

theorem tags_closeUnlessRedundant (name : Text) (b : Builder) :
    (b.closeUnlessRedundant name).tags = b.tags := by
  unfold closeUnlessRedundant
  split
  · rfl
  · exact tags_close name b

theorem tags_start (tag : Tag) (b : Builder) : (b.start tag).tags = b.tags ++ [tag] := by
  rw [← tags_flush .plain b]
  simp [start, tags, Frame.tags, tagsOf, elementsOf]

theorem tags_take (b : Builder) (t : Token) : (b.take t).tags = b.tags ++ t.opened?.toList := by
  cases t with
  | close name => simp [take, Token.opened?, tags_closeUnlessRedundant]
  | text kind s =>
      have key : (((b.flush .plain).append s).flush kind).tags = b.tags := by
        rw [tags_flush, tags_append, tags_flush]
      cases kind with
      | plain =>
          simp only [take, Token.opened?, Option.toList_none, List.append_nil]
          split
          · rfl
          · exact tags_append s b
      | comment | doctype | declaration | cdata | instruction =>
          simpa [take, Token.opened?] using key
  | start p tag =>
      simp only [take, Token.opened?, Option.toList_some]
      split
      · rw [tags_closeUnlessRedundant, tags_start]
      · split
        · show (close tag.name _).tags = _
          rw [tags_close, tags_start]
        · exact tags_start _ b

theorem tags_foldl_take (ts : List Token) (b : Builder) :
    (ts.foldl take b).tags = b.tags ++ ts.filterMap Token.opened? := by
  induction ts generalizing b with
  | nil => simp
  | cons t ts ih =>
      rw [List.foldl_cons, ih, tags_take, List.append_assoc]
      cases h : t.opened? with
      | none => simp [h]
      | some tag => simp [h]

theorem opened_pop (b : Builder) : b.pop.opened.length = b.opened.length - 1 := by
  unfold pop
  split
  · rename_i h
    simp [h]
  · rename_i frame frames h
    cases frames <;> simp [add, h]

theorem opened_repeat_pop (n : Nat) (b : Builder) :
    (Nat.repeat pop n b).opened.length = b.opened.length - n := by
  induction n with
  | zero => rfl
  | succ n ih =>
      rw [Nat.repeat, opened_pop, ih]
      omega

/-- Closing every open element leaves the tags at the top. -/
theorem tagsOf_finish (b : Builder) : tagsOf b.finish = b.tags := by
  have hopened := opened_repeat_pop (b.flush .plain).opened.length (b.flush .plain)
  have htags := tags_repeat_pop (b.flush .plain).opened.length (b.flush .plain)
  rw [Nat.sub_self, List.length_eq_zero_iff] at hopened
  rw [tags_flush, tags, hopened] at htags
  simpa [finish] using htags

end Builder

/-! ## Documents -/

theorem tagsOf_ofSource {source : Text} {ts : List Token} (h : tokens source = .ok ts) :
    ∃ nodes, Node.ofSource source = .ok nodes ∧ tagsOf nodes = ts.filterMap Token.opened? := by
  refine ⟨(ts.foldl Builder.take .empty).finish, by rw [Node.ofSource, h]; rfl, ?_⟩
  rw [Builder.tagsOf_finish, Builder.tags_foldl_take]
  rfl

/-- The tree of a document has the tags of the document. -/
theorem Document.WellFormed.ofSource {d : Document} (h : d.WellFormed) :
    ∃ nodes, Node.ofSource d.source = .ok nodes ∧ tagsOf nodes = d.tagsFrom .origin := by
  obtain ⟨ts, hts, htags⟩ := h.tokens_source
  obtain ⟨nodes, hnodes, hof⟩ := tagsOf_ofSource hts
  exact ⟨nodes, hnodes, by rw [hof, htags]⟩

end Stencil.Html
