import Stencil.Scope.Wrapper
import Stencil.Proofs.Document.Retag

set_option autoImplicit false

/-! # The top of the tree of a document

The tokens of a document are its texts, its start tags and its end tags (`tokens_eq`). Each end tag
finds its own element open, so building the tree of a piece of a document adds finished nodes to the
innermost open element and leaves the others as they are (`Builder.Grows`). What stands at the top of
the tree decides whether a document is one wrapper (`WellFormed.encloses_eq`). Some elements that have
content in a document, such as `keygen`, never have any in a tree: their content stands behind
them.
-/

namespace Stencil.Html

open Text Vocabulary

/-! ## The tokens of a document -/

/-- Running text as it is read. -/
def runningTokens (s : Text) : List Token := if s.isEmpty then [] else [Step.plain s]

theorem readsTokens_running {s r : Text} (hs : IsRunning s) (hr : EndsRunning r) (last : Bool)
    (p : Position) : ReadsTokens last .markup .markup p s (runningTokens s) r := by
  by_cases hne : s = []
  · subst hne
    exact readsTokens_nil last .markup p r
  · rw [runningTokens, if_neg (by simpa using hne)]
    exact readsTokens_of_next hne (next_running hs hne hr last p)

theorem readsTokens_openTag {t : OpenTag} (h : t.WellFormed) (last : Bool) (p : Position) (r : Text) :
    ReadsTokens last .markup t.contentMode p t.source [.start p ⟨t.name, t.pairs, false⟩] r := by
  have key := next_startTag h.isWritten last p r
  rw [h.closesItself_eq_false, h.modeAfter] at key
  exact readsTokens_of_next (by simp [OpenTag.source]) key

namespace Document

/-- The tokens of a document that is written at a position. -/
def tokensFrom (p : Position) : Document → List Token
  | text s => runningTokens s
  | element before tag content rest =>
      runningTokens before ++ ([.start (p.advance before) ⟨tag.name, tag.pairs, false⟩] ++
        ((if RawText.names.elem tag.name then [Step.plain content.source]
          else content.tokensFrom (p.advance (before ++ tag.source))) ++ ([.close tag.name] ++
        rest.tokensFrom (p.advance (before ++ tag.source ++ content.source ++ endTagText tag.name)))))

theorem WellFormed.readsTokens_source {d : Document} (h : d.WellFormed) (p : Position) {r : Text}
    (hr : EndsRunning r) : ReadsTokens false .markup .markup p d.source (d.tokensFrom p) r := by
  induction h generalizing p r with
  | text hs => exact readsTokens_running hs hr false p
  | @element before tag content rest hb ht hn hc _ ihc ihr =>
      have hopen := readsTokens_openTag ht false (p.advance before)
        (content.source ++ (endTagText tag.name ++ (rest.source ++ r)))
      rw [OpenTag.contentMode_of_not_mem hn] at hopen
      have h₁ := (readsTokens_running hb (endsRunning_source _) false p).append hopen
      have h₂ := h₁.append (ihc _ (endsRunning_endTagText _ _))
      have h₃ := h₂.append
        (readsTokens_of_next (by simp [endTagText]) (next_endTag ht.name false _ _))
      have h₄ := h₃.append (ihr _ hr)
      simpa [source, tokensFrom, hn, Position.advance_append] using h₄
  | @raw before tag css rest hb ht hn hcss _ ihr =>
      have hopen := readsTokens_openTag ht false (p.advance before)
        (css ++ endTagText tag.name ++ (rest.source ++ r))
      rw [OpenTag.contentMode_of_mem hn] at hopen
      have hcut := cutAt?_endTag_of_not_mem hcss tag.name
      have h₁ := (readsTokens_running hb (endsRunning_source _) false p).append hopen
      have h₂ := h₁.append
        (readsTokens_of_next (by simp [endTagText]) (next_rawText hn hcut false _ _))
      have h₃ := h₂.append (ihr _ hr)
      simpa [source, tokensFrom, hn, Position.advance_append] using h₃

/-- The tokens of a document are its texts and tags. -/
theorem WellFormed.tokens_eq {d : Document} (h : d.WellFormed) :
    tokens d.source = .ok (d.tokensFrom .origin) :=
  tokens_of_readsTokens (h.readsTokens_source .origin (Or.inl rfl))

end Document

/-! ## Building a piece of the tree -/

/-- The member of a list with one member. -/
def only? {α : Type} : List α → Option α
  | [a] => some a
  | _ => none

theorem only?_map {α β : Type} (f : α → β) (l : List α) : only? (l.map f) = (only? l).map f := by
  rcases l with _ | ⟨a, _ | ⟨b, l⟩⟩ <;> rfl

/-- The attributes of an element; a text has none. -/
def Node.attrs? : Node → Option Attributes
  | .text _ _ => none
  | .element tag _ => some tag.attrs

/-- Whether a node is an element or a blank text. -/
def Node.isBlankOrElement (node : Node) : Bool := Wrapper.isBlankNode node || node.attrs?.isSome

/-- Whether running text that no node holds yet is blank. -/
def isBlankPending (pending : Option Text) : Bool := pending.all isBlankText

theorem isBlankText_append (s t : Text) : isBlankText (s ++ t) = (isBlankText s && isBlankText t) :=
  List.all_append

/-- Blanks stay blanks in a document, and other texts stay what they are. -/
theorem isBlankText_normalizeBlank (s : Text) : isBlankText (normalizeBlank s) = isBlankText s := by
  rw [normalizeBlank]
  split
  · rename_i hindent
    have hblank : isBlankText s = true := List.all_eq_true.2 fun c hc =>
      isBlank_of_isIndent (List.all_eq_true.1 hindent c hc)
    rw [hblank]
    split <;> rfl
  · rfl

namespace Builder

/-- Puts nodes at the end of the innermost open element. -/
def addAll (nodes : List Node) (b : Builder) : Builder := nodes.foldl (fun b node => b.add node) b

/-- Sets the running text that no node holds yet. -/
def withPending (pending : Option Text) (b : Builder) : Builder := { b with pending := pending }

/-- Sets the names whose next end tags are ignored. -/
def withRedundant (names : List Text) (b : Builder) : Builder := { b with redundant := names }

/-- A builder with one more open element. -/
def push (tag : Tag) (b : Builder) : Builder := { b with opened := ⟨tag, []⟩ :: b.opened }

theorem addAll_append (ns ms : List Node) (b : Builder) :
    b.addAll (ns ++ ms) = (b.addAll ns).addAll ms := List.foldl_append

/-- Nodes go into the innermost open element, or to the top, and nothing else changes. -/
theorem addAll_eq (nodes : List Node) (b : Builder) :
    b.addAll nodes = match b.opened with
      | [] => { b with top := nodes.reverse ++ b.top }
      | ⟨tag, children⟩ :: frames =>
          { b with opened := ⟨tag, nodes.reverse ++ children⟩ :: frames } := by
  induction nodes generalizing b with
  | nil => obtain ⟨_ | ⟨⟨tag, children⟩, frames⟩, top, pending, redundant⟩ := b <;> rfl
  | cons node nodes ih =>
      refine (ih (b.add node)).trans ?_
      obtain ⟨_ | ⟨⟨tag, children⟩, frames⟩, top, pending, redundant⟩ := b <;> simp [add]

theorem pending_addAll (nodes : List Node) (b : Builder) : (b.addAll nodes).pending = b.pending := by
  rw [addAll_eq]
  split <;> rfl

theorem redundant_addAll (nodes : List Node) (b : Builder) :
    (b.addAll nodes).redundant = b.redundant := by
  rw [addAll_eq]
  split <;> rfl

theorem addAll_withPending (nodes : List Node) (pending : Option Text) (b : Builder) :
    (b.withPending pending).addAll nodes = (b.addAll nodes).withPending pending := by
  rw [addAll_eq, addAll_eq]
  obtain ⟨_ | ⟨⟨tag, children⟩, frames⟩, top, pending', redundant⟩ := b <;> rfl

theorem addAll_withRedundant (nodes : List Node) (names : List Text) (b : Builder) :
    (b.withRedundant names).addAll nodes = (b.addAll nodes).withRedundant names := by
  rw [addAll_eq, addAll_eq]
  obtain ⟨_ | ⟨⟨tag, children⟩, frames⟩, top, pending, redundant⟩ := b <;> rfl

theorem addAll_push (nodes : List Node) (tag : Tag) (b : Builder) :
    (b.push tag).addAll nodes = { b with opened := ⟨tag, nodes.reverse⟩ :: b.opened } := by
  rw [addAll_eq]
  simp [push]

theorem finish_of_flush {b : Builder} {nodes : List Node} (h : b.flush .plain = empty.addAll nodes) :
    b.finish = nodes := by
  unfold finish
  rw [h, addAll_eq]
  show (nodes.reverse ++ []).reverse = nodes
  rw [List.append_nil, List.reverse_reverse]

/-- What happens to a builder on the way to another one: nodes are put at the end of the innermost
open element. Among them are elements with some attributes, in this order, and `blank` says whether
all the text that has come between them is blank. -/
def Grows (b b' : Builder) (attrs : List Attributes) (blank : Bool) : Prop :=
  ∃ nodes pending, b' = (b.addAll nodes).withPending pending ∧ nodes.filterMap Node.attrs? = attrs ∧
    (nodes.all Node.isBlankOrElement && isBlankPending pending) = (isBlankPending b.pending && blank)

section

variable {b b₁ b₂ : Builder} {as₁ as₂ : List Attributes} {x₁ x₂ : Bool}

theorem Grows.redundant (h : Grows b b₁ as₁ x₁) : b₁.redundant = b.redundant := by
  obtain ⟨nodes, pending, rfl, -, -⟩ := h
  exact redundant_addAll nodes b

theorem Grows.trans (h₁ : Grows b b₁ as₁ x₁) (h₂ : Grows b₁ b₂ as₂ x₂) :
    Grows b b₂ (as₁ ++ as₂) (x₁ && x₂) := by
  obtain ⟨ns, p, rfl, has₁, hx₁⟩ := h₁
  obtain ⟨ms, q, rfl, has₂, hx₂⟩ := h₂
  have hp : ((b.addAll ns).withPending p).pending = p := rfl
  rw [hp] at hx₂
  refine ⟨ns ++ ms, q, ?_, by rw [List.filterMap_append, has₁, has₂], ?_⟩
  · rw [addAll_withPending, addAll_append]
    rfl
  · rw [List.all_append, Bool.and_assoc, hx₂, ← Bool.and_assoc, hx₁, Bool.and_assoc]

theorem Grows.refl (b : Builder) : Grows b b [] true := ⟨[], b.pending, rfl, rfl, by simp⟩

/-- Running text is kept until a tag comes. -/
theorem grows_plain (s : Text) (b : Builder) : Grows b (b.take (Step.plain s)) [] (isBlankText s) := by
  rw [Step.plain, take]
  split
  · rename_i hs
    rw [List.isEmpty_iff.1 hs]
    exact Grows.refl b
  · refine ⟨[], some (b.pending.getD [] ++ s), rfl, rfl, ?_⟩
    cases b.pending with
    | none => simp [isBlankPending]
    | some u => simp [isBlankPending, isBlankText_append]

theorem grows_running (s : Text) (b : Builder) :
    Grows b ((runningTokens s).foldl take b) [] (isBlankText s) := by
  rw [runningTokens]
  split
  · rename_i hs
    rw [List.isEmpty_iff.1 hs]
    exact Grows.refl b
  · exact grows_plain s b

theorem pending_flush (kind : TextKind) (b : Builder) : (b.flush kind).pending = none := by
  rw [flush]
  split
  · assumption
  · rw [add]
    split <;> rfl

/-- Running text becomes a node that is blank when the text is. -/
theorem grows_flush (b : Builder) : Grows b (b.flush .plain) [] true := by
  rw [flush]
  split
  · rename_i hpending
    refine ⟨[], none, ?_, rfl, ?_⟩
    · rw [← hpending]
      rfl
    · simp [hpending]
  · rename_i s hpending
    dsimp only
    refine ⟨[_], none, (addAll_withPending [_] none b), rfl, ?_⟩
    rw [hpending]
    simp only [List.all_cons, List.all_nil, Bool.and_true, isBlankPending, Option.all_none,
      Option.all_some, Node.isBlankOrElement, Node.attrs?, Option.isSome_none, Bool.or_false,
      Wrapper.isBlankNode]
    split
    exacts [rfl, isBlankText_normalizeBlank s]

theorem closeTo_opened {b : Builder} {frame : Frame} {frames : List Frame}
    (h : b.opened = frame :: frames) : b.closeTo frame.tag.name = b.pop := by
  have hfirst : b.opened.findIdx? (·.tag.name = frame.tag.name) = some 0 := by
    rw [h]
    simp [List.findIdx?_cons]
  rw [closeTo, hfirst]
  rfl

/-- The end tag of the innermost open element closes it, whatever has been added to it. -/
theorem grows_close {tag : Tag} (hb : b.pending = none) (h : Grows (b.push tag) b₁ as₁ x₁) :
    Grows b (b₁.close tag.name) [tag.attrs] true := by
  obtain ⟨nodes, pending, hflush, -, -⟩ := h.trans (grows_flush b₁)
  have hnone : pending = none := by
    have hp := pending_flush .plain b₁
    rwa [hflush] at hp
  rw [hnone, addAll_push] at hflush
  have hclose : b₁.close tag.name = b.add (.element tag nodes) := by
    rw [close, hflush]
    refine (@closeTo_opened _ ⟨tag, nodes.reverse⟩ _ rfl).trans ?_
    obtain ⟨opened, top, pending', redundant⟩ := b
    obtain rfl : pending' = none := hb
    rw [pop]
    simp [withPending]
  refine ⟨[.element tag nodes], none, ?_, rfl, ?_⟩
  · rw [hclose]
    have hp := pending_addAll [.element tag nodes] b
    rw [hb] at hp
    show b.addAll [.element tag nodes] = { b.addAll [.element tag nodes] with pending := none }
    rw [← hp]
  · rw [hb]
    rfl

/-- Which end tags are ignored later makes no difference to what has been added. -/
theorem Grows.withRedundant (h : Grows b b₁ as₁ x₁) (names : List Text) :
    Grows (b.withRedundant names) (b₁.withRedundant names) as₁ x₁ := by
  obtain ⟨nodes, pending, rfl, has, hx⟩ := h
  refine ⟨nodes, pending, ?_, has, hx⟩
  rw [addAll_withRedundant]
  rfl

/-- An element with content is put at the end when its end tag comes. -/
theorem grows_element {name : Text} (hname : name ∉ emptyNames) (hb : ∀ n ∈ b.redundant, n ∈ emptyNames)
    (p : Position) (attrs : List (Text × Text)) {ts : List Token}
    (hts : ∀ b' : Builder, b'.redundant = b.redundant → ∃ as x, Grows b' (ts.foldl take b') as x) :
    Grows b ((ts.foldl take (b.take (.start p ⟨name, attrs, false⟩))).take (.close name))
      [Table.ofPairs attrs] true := by
  have helem : emptyNames.elem name = false := by simpa using hname
  have hstart : b.take (.start p ⟨name, attrs, false⟩)
      = (b.flush .plain).push ⟨name, Table.ofPairs attrs, p⟩ := by
    rw [take]
    simp only [helem, Bool.false_eq_true, if_false]
    rfl
  have hflush := grows_flush b
  obtain ⟨as, x, hcontent⟩ := hts ((b.flush .plain).push ⟨name, Table.ofPairs attrs, p⟩) hflush.redundant
  have hclose := hflush.trans (grows_close (pending_flush .plain b) hcontent)
  rw [hstart, take, closeUnlessRedundant, if_neg]
  · exact hclose
  · rw [hcontent.redundant, List.elem_eq_mem, decide_eq_true_eq]
    intro hmem
    exact hname (hb name (hflush.redundant ▸ hmem))

/-- An element that never has content is closed at once, and what stands in front of its end tag is
put behind it. -/
theorem grows_emptyElement {name : Text} (hname : name ∈ emptyNames) (p : Position)
    (attrs : List (Text × Text)) {ts : List Token}
    (hts : ∀ b' : Builder, b'.redundant = name :: b.redundant → Grows b' (ts.foldl take b') as₁ x₁) :
    Grows b ((ts.foldl take (b.take (.start p ⟨name, attrs, false⟩))).take (.close name))
      (Table.ofPairs attrs :: as₁) x₁ := by
  have helem : emptyNames.elem name = true := by simpa using hname
  have hclose := (grows_flush b).trans (grows_close (pending_flush .plain b)
    (Grows.refl ((b.flush .plain).push ⟨name, Table.ofPairs attrs, p⟩)))
  have hstart : b.take (.start p ⟨name, attrs, false⟩)
      = let closed := ((b.flush .plain).push ⟨name, Table.ofPairs attrs, p⟩).close name
        closed.withRedundant (name :: closed.redundant) := by
    rw [take]
    simp only [helem, if_true, Bool.false_eq_true, if_false]
    rfl
  rw [hstart]
  dsimp only at hclose ⊢
  generalize ((b.flush .plain).push ⟨name, Table.ofPairs attrs, p⟩).close name = b₁ at hclose ⊢
  have hcontent := hts (b₁.withRedundant (name :: b₁.redundant)) (by rw [← hclose.redundant]; rfl)
  have hlater : (b₁.withRedundant (name :: b₁.redundant)).redundant = name :: b₁.redundant := rfl
  -- the end tag takes the name away that the start tag has put there
  have hend : (ts.foldl take (b₁.withRedundant (name :: b₁.redundant))).take (.close name)
      = (ts.foldl take (b₁.withRedundant (name :: b₁.redundant))).withRedundant b₁.redundant := by
    rw [take, closeUnlessRedundant, hcontent.redundant, hlater]
    simp [withRedundant]
  rw [hend]
  exact hclose.trans (hcontent.withRedundant b₁.redundant)

end
end Builder

/-! ## The top of a document -/

namespace Document

/-- The start tags at the top of the tree of a document. What an element holds that never has
content in a tree is at the top, too. -/
def topTags : Document → List OpenTag
  | text _ => []
  | element _ tag content rest =>
      tag :: ((if emptyNames.elem tag.name then content.topTags else []) ++ rest.topTags)

/-- Whether all text at the top of the tree of a document is blank. -/
def hasBlankTop : Document → Bool
  | text s => isBlankText s
  | element before tag content rest =>
      isBlankText before &&
        ((if emptyNames.elem tag.name then content.hasBlankTop else true) && rest.hasBlankTop)

/-- Whether a document is one wrapper, with nothing but blanks around it. -/
def isEnclosed (d : Document) : Bool :=
  d.hasBlankTop && (only? d.topTags).any (·.table.has wrapperAttr)

open Builder

/-- Taking the tokens of a document adds what is at its top. -/
theorem WellFormed.grows_tokens {d : Document} (h : d.WellFormed) (p : Position) {b : Builder}
    (hb : ∀ n ∈ b.redundant, n ∈ emptyNames) :
    b.Grows ((d.tokensFrom p).foldl take b) (d.topTags.map OpenTag.table) d.hasBlankTop := by
  induction d generalizing p b with
  | text s => exact grows_running s b
  | element before tag content rest ihc ihr =>
      have hbefore := grows_running before b
      have hlater := hbefore.redundant
      have hrest : ∀ {b' : Builder} {as : List Attributes} {x : Bool} (q : Position), b.Grows b' as x →
          b'.Grows ((rest.tokensFrom q).foldl take b') (rest.topTags.map OpenTag.table)
            rest.hasBlankTop := fun q hgrows => ihr h.rest q (by rwa [hgrows.redundant])
      rw [tokensFrom, List.foldl_append, List.foldl_append, List.foldl_append, List.foldl_append]
      by_cases hname : tag.name ∈ emptyNames
      · cases h with
        | raw _ _ hn _ _ =>
            exact absurd hname ((by decide : ∀ n ∈ RawText.names, n ∉ emptyNames) _ hn)
        | element _ _ hn hc _ =>
            have helement := hbefore.trans <|
              grows_emptyElement hname (p.advance before) tag.pairs fun b' hb' =>
                ihc hc (p.advance (before ++ tag.source)) fun n hmem => by
                  rw [hb', hlater] at hmem
                  rcases List.mem_cons.1 hmem with rfl | hmem
                  exacts [hname, hb n hmem]
            have key := helement.trans (hrest
              (p.advance (before ++ tag.source ++ content.source ++ endTagText tag.name)) helement)
            rw [if_neg (by simpa using hn)]
            simpa [topTags, hasBlankTop, hname, Bool.and_assoc, OpenTag.table] using key
      · have hcontent : ∀ b' : Builder, b'.redundant = ((runningTokens before).foldl take b).redundant →
            ∃ as x, b'.Grows ((if RawText.names.elem tag.name then [Step.plain content.source]
              else content.tokensFrom (p.advance (before ++ tag.source))).foldl take b') as x := by
          intro b' hb'
          cases h with
          | element _ _ hn hc _ =>
              rw [if_neg (by simpa using hn)]
              exact ⟨_, _, ihc hc _ (by rwa [hb', hlater])⟩
          | @raw _ _ css _ _ _ hn _ _ =>
              rw [if_pos (by simpa using hn)]
              exact ⟨_, _, grows_plain css b'⟩
        have helement := hbefore.trans <|
          grows_element hname (by rwa [hlater]) (p.advance before) tag.pairs hcontent
        have key := helement.trans (hrest
          (p.advance (before ++ tag.source ++ content.source ++ endTagText tag.name)) helement)
        simpa [topTags, hasBlankTop, hname, OpenTag.table] using key

/-- The nodes of a source are the elements at the top of the document, and texts. -/
theorem WellFormed.ofSource_top {d : Document} (h : d.WellFormed) : ∃ nodes,
    Node.ofSource d.source = .ok nodes ∧ nodes.filterMap Node.attrs? = d.topTags.map OpenTag.table ∧
      nodes.all Node.isBlankOrElement = d.hasBlankTop := by
  have hgrows := h.grows_tokens .origin (b := .empty) (by simp [Builder.empty])
  obtain ⟨nodes, pending, hflush, hattrs, hblank⟩ := hgrows.trans (grows_flush _)
  have hnone : pending = none := by
    have hp := pending_flush .plain (((d.tokensFrom .origin).foldl take Builder.empty))
    rwa [hflush] at hp
  refine ⟨nodes, ?_, by simpa using hattrs, by simpa [hnone, isBlankPending, Builder.empty] using hblank⟩
  rw [Node.ofSource, h.tokens_eq]
  refine congrArg Except.ok (finish_of_flush ?_)
  rw [hflush, hnone, addAll_eq]
  rfl

/-- The one node that is left is a wrapper when all that are left are elements and the one element
is a wrapper. -/
theorem only?_isWrapper (nodes : List Node) :
    (only? nodes).any Wrapper.isWrapper
      = (nodes.all (·.attrs?.isSome) &&
        (only? (nodes.filterMap Node.attrs?)).any (·.has wrapperAttr)) := by
  rcases nodes with _ | ⟨node, _ | ⟨node', nodes⟩⟩
  · rfl
  · cases node <;> rfl
  · cases node <;> cases node' <;> simp [Node.attrs?, only?]

/-- A source is one wrapper when the document is. -/
theorem WellFormed.encloses_eq {d : Document} (h : d.WellFormed) :
    Wrapper.encloses d.source = .ok d.isEnclosed := by
  obtain ⟨nodes, hnodes, htags, hblank⟩ := h.ofSource_top
  rw [Wrapper.encloses]
  split
  · -- a source without tags is a text
    rename_i hlt
    cases d with
    | text s => simp [isEnclosed, topTags, only?]
    | element before tag content rest => simp [source, OpenTag.source] at hlt
  · rw [hnodes]
    refine congrArg Except.ok ?_
    have hattrs : (nodes.filter (!Wrapper.isBlankNode ·)).filterMap Node.attrs?
        = d.topTags.map OpenTag.table := by
      rw [← htags, List.filterMap_filter]
      refine List.filterMap_congr fun node _ => ?_
      cases node with
      | text kind s => simp [Node.attrs?]
      | element tag children => rfl
    have hall : (nodes.filter (!Wrapper.isBlankNode ·)).all (·.attrs?.isSome) = d.hasBlankTop := by
      rw [← hblank, List.all_filter]
      congr 1
      funext node
      rw [Node.isBlankOrElement, Bool.not_not]
    calc
      _ = (only? (nodes.filter (!Wrapper.isBlankNode ·))).any Wrapper.isWrapper := by
        dsimp only
        generalize nodes.filter (!Wrapper.isBlankNode ·) = kept
        rcases kept with _ | ⟨node, _ | ⟨node', kept⟩⟩ <;> rfl
      _ = d.isEnclosed := by
        rw [only?_isWrapper, hattrs, hall, only?_map, Option.any_map]
        rfl

theorem isEnclosed_iff {d : Document} : d.isEnclosed = true ↔
    d.hasBlankTop = true ∧ ∃ tag, d.topTags = [tag] ∧ tag.table.has wrapperAttr = true := by
  rw [isEnclosed, Bool.and_eq_true]
  refine and_congr_right fun _ => ?_
  rcases d.topTags with _ | ⟨tag, _ | ⟨tag', tags⟩⟩ <;> simp [only?]

/-! ## Other start tags at the top -/

/-- A document with another start tag for its first element. -/
def retagRoot (f : OpenTag → OpenTag) : Document → Document
  | text s => text s
  | element before tag content rest => element before (f tag) content rest

section

variable {f : OpenTag → OpenTag} (hname : ∀ t, (f t).name = t.name)

include hname

theorem topTags_retag (d : Document) :
    (d.retag fun t => some (f t)).topTags = d.topTags.map f := by
  induction d with
  | text s => rfl
  | element before tag content rest ihc ihr =>
      rw [retag, topTags, topTags, ihc, ihr, hname]
      split <;> simp

theorem hasBlankTop_retag (d : Document) :
    (d.retag fun t => some (f t)).hasBlankTop = d.hasBlankTop := by
  induction d with
  | text s => rfl
  | element before tag content rest ihc ihr =>
      rw [retag, hasBlankTop, hasBlankTop, ihc, ihr, hname]

/-- A document stays a wrapper when start tags keep the attribute of wrappers. -/
theorem isEnclosed_retag {d : Document} (h : d.isEnclosed = true)
    (hf : ∀ t : OpenTag, t.table.has wrapperAttr = true → (f t).table.has wrapperAttr = true) :
    (d.retag fun t => some (f t)).isEnclosed = true := by
  obtain ⟨hblank, tag, htop, hwrapper⟩ := isEnclosed_iff.1 h
  rw [isEnclosed_iff, hasBlankTop_retag hname, topTags_retag hname, htop]
  exact ⟨hblank, f tag, rfl, hf tag hwrapper⟩

theorem isEnclosed_retagRoot {d : Document} (h : d.isEnclosed = true)
    (hf : ∀ t : OpenTag, t.table.has wrapperAttr = true → (f t).table.has wrapperAttr = true) :
    (d.retagRoot f).isEnclosed = true := by
  obtain ⟨hblank, tag, htop, hwrapper⟩ := isEnclosed_iff.1 h
  rw [isEnclosed_iff]
  cases d with
  | text s => cases htop
  | element before t content rest =>
      rw [topTags] at htop
      obtain ⟨rfl, hnone⟩ := List.cons.inj htop
      refine ⟨?_, f t, ?_, hf t hwrapper⟩
      · rw [retagRoot, hasBlankTop, hname]
        exact hblank
      · rw [retagRoot, topTags, hname, hnone]

theorem WellFormed.retagRoot {d : Document} (h : d.WellFormed)
    (hf : ∀ t : OpenTag, t.WellFormed → (f t).WellFormed) : (d.retagRoot f).WellFormed := by
  cases h with
  | text hs => exact .text hs
  | element hb ht hn hc hr => exact .element hb (hf _ ht) (by rwa [hname]) hc hr
  | raw hb ht hn hcss hr => exact .raw hb (hf _ ht) (by rwa [hname]) hcss hr

end

end Document
end Stencil.Html
