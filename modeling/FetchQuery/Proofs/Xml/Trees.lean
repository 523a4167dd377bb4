import FetchQuery.Xml.Document
import FetchQuery.Proofs.Xml.Tags

/-!
# Written markup is read as its elements

`Node.elements` says which elements a list of nodes stands for. The text of nodes inside an element
is taken in as exactly these elements (`feedsAll_of_proper`), whatever the indentation, if every
tag is proper (`Node.Proper`) and there are no comments among them.

`Feeds cs b b'` says that a builder takes in the characters `cs`, whatever follows them, and
goes from `b` to `b'`. Text is always taken in together with the tag behind it, so no condition
on what follows is needed, and the facts about single tags are put together by `Feeds.append`.
-/

set_option autoImplicit false

namespace FetchQuery.Xml

namespace Node

/-- The line starts in front of nodes that follow each other. -/
def blanks (indent depth : Nat) : List Node → String
  | [] => ""
  | _ :: nodes => lineStart indent depth ++ blanks indent depth nodes

/-- The elements that nodes stand for. The line starts around the children of an element are
its text. -/
def elements (indent depth : Nat) : List Node → List Element
  | [] => []
  | .comment _ :: nodes => elements indent depth nodes
  | .leaf name attributes :: nodes => ⟨name, attributes, [], ""⟩ :: elements indent depth nodes
  | .text name content :: nodes => ⟨name, [], [], content⟩ :: elements indent depth nodes
  | .branch name attributes children :: nodes =>
    ⟨name, attributes, elements indent (depth + 1) children,
      blanks indent (depth + 1) children ++ lineStart indent depth⟩ :: elements indent depth nodes

/-- Nodes with proper tags and without comments. -/
def Proper : List Node → Prop
  | [] => True
  | .comment _ :: _ => False
  | .leaf name attributes :: nodes => IsTag name attributes ∧ Proper nodes
  | .text name _ :: nodes => IsTag name [] ∧ Proper nodes
  | .branch name attributes children :: nodes =>
    IsTag name attributes ∧ Proper children ∧ Proper nodes

theorem elements_leaf (indent depth : Nat) (name : String) (attributes : List (String × String)) :
    elements indent depth [.leaf name attributes] = [⟨name, attributes, [], ""⟩] := by
  simp only [elements]

theorem elements_branch (indent depth : Nat) (name : String) (attributes : List (String × String))
    (children : List Node) :
    elements indent depth [.branch name attributes children] =
      [⟨name, attributes, elements indent (depth + 1) children,
        blanks indent (depth + 1) children ++ lineStart indent depth⟩] := by
  simp only [elements]

theorem elements_append (indent depth : Nat) (xs ys : List Node) :
    elements indent depth (xs ++ ys) = elements indent depth xs ++ elements indent depth ys := by
  induction xs with
  | nil => simp [elements]
  | cons x xs ih => cases x <;> simp [elements, ih]

/-- Elements that hold only text. -/
theorem elements_map_text (indent depth : Nat) (name : String) (texts : List String) :
    elements indent depth (texts.map (Node.text name)) =
      texts.map fun text => ⟨name, [], [], text⟩ := by
  induction texts with
  | nil => simp only [List.map_nil, elements]
  | cons text texts ih => simp only [List.map_cons, elements, ih]

/-- Elements without content determine their nodes. -/
theorem eq_of_elements_map {α : Type} {f g : α → Node} {as : List α}
    (hf : ∀ a, ∃ name attributes, f a = .leaf name attributes)
    (hg : ∀ a, ∃ name attributes, g a = .leaf name attributes) {indent depth : Nat}
    (h : elements indent depth (as.map f) = elements indent depth (as.map g)) :
    ∀ a ∈ as, f a = g a := by
  induction as with
  | nil => simp
  | cons a as ih =>
    obtain ⟨name, attributes, hfa⟩ := hf a
    obtain ⟨name', attributes', hga⟩ := hg a
    rw [List.map_cons, List.map_cons, hfa, hga, elements, elements] at h
    obtain ⟨hfirst, hrest⟩ := List.cons.inj h
    obtain ⟨rfl, rfl, -⟩ := Element.mk.inj hfirst
    intro b hb
    rcases List.mem_cons.1 hb with rfl | hb
    · rw [hfa, hga]
    · exact ih hrest b hb

theorem proper_append {xs ys : List Node} : Proper (xs ++ ys) ↔ Proper xs ∧ Proper ys := by
  induction xs with
  | nil => simp [Proper]
  | cons x xs ih => cases x <;> simp [Proper, ih, and_assoc]

/-- What nodes keep when they are put together holds of a list of nodes if it holds of each. -/
theorem map_of_append {P : List Node → Prop} (hnil : P [])
    (happend : ∀ {xs ys}, P xs → P ys → P (xs ++ ys)) {α : Type} {node : α → Node} {as : List α}
    (h : ∀ a ∈ as, P [node a]) : P (as.map node) := by
  induction as with
  | nil => exact hnil
  | cons a as ih =>
    rw [List.map_cons, ← List.singleton_append]
    exact happend (h a List.mem_cons_self) (ih fun b hb => h b (List.mem_cons_of_mem a hb))

theorem proper_map {α : Type} {node : α → Node} {as : List α}
    (h : ∀ a ∈ as, Proper [node a]) : Proper (as.map node) :=
  map_of_append (by simp [Proper]) (fun hxs hys => proper_append.2 ⟨hxs, hys⟩) h

end Node

/-! ## Taking in characters -/

/-- A builder goes from `b` to `b'` over the characters `cs`. -/
def Feeds (cs : List Char) (b b' : Builder) : Prop :=
  ∀ (total start : Nat) (rest : List Char), ∃ start',
    b.addAll (piecesFrom total 0 start (cs ++ rest)) = b'.addAll (piecesFrom total 0 start' rest)

theorem feeds_nil (b : Builder) : Feeds [] b b :=
  fun _ start _ => ⟨start, rfl⟩

theorem Feeds.append {cs ds : List Char} {b b' b'' : Builder} (hc : Feeds cs b b')
    (hd : Feeds ds b' b'') : Feeds (cs ++ ds) b b'' := by
  intro total start rest
  obtain ⟨start₁, h₁⟩ := hc total start (ds ++ rest)
  obtain ⟨start₂, h₂⟩ := hd total start₁ rest
  exact ⟨start₂, by rw [List.append_assoc, h₁, h₂]⟩

/-- The characters of a piece are passed over. -/
theorem piecesFrom_skip (total start : Nat) (passed rest : List Char) :
    ∃ start', piecesFrom total passed.length start (passed ++ rest) =
      piecesFrom total 0 start' rest := by
  induction passed generalizing start with
  | nil => exact ⟨start, rfl⟩
  | cons c passed ih => exact ih (start + c.utf8Size)

theorem addAll_cons_ok {b b' : Builder} {piece : Markup} (h : b.add piece = .ok b')
    (rest : List Markup) : b.addAll (piece :: rest) = b'.addAll rest := by
  rw [Builder.addAll, h]
  rfl

/-- What is no declaration and no comment is a tag. -/
theorem outline_tag {c : Char} {cs : List Char} (hmark : c ≠ '!') (hquestion : c ≠ '?') :
    outline (c :: cs) = tagOutline (c :: cs) := by
  unfold outline
  split
  case h_7 => rfl
  all_goals next h => exact absurd (List.cons.inj h).1 (by assumption)

/-- A construct is taken in up to its closing bracket. -/
theorem feeds_closed {cs : List Char} {piece : Nat → Markup}
    (houtline : ∀ rest, outline (cs ++ '>' :: rest) = .closed piece cs) {b b' : Builder}
    (hadd : ∀ stop, b.add (piece stop) = .ok b') : Feeds ('<' :: cs ++ ['>']) b b' := by
  intro total start rest
  obtain ⟨start', hskip⟩ := piecesFrom_skip total (start + 1) (cs ++ ['>']) rest
  rw [List.length_append, List.length_singleton, List.append_assoc, List.singleton_append] at hskip
  refine ⟨start', ?_⟩
  rw [List.cons_append, List.cons_append, List.append_assoc, List.singleton_append, piecesFrom,
    if_pos rfl, houtline]
  simp only [hskip]
  exact addAll_cons_ok (hadd _) _

theorem feeds_tag {c : Char} {cs : List Char} (hpasses : Passes (c :: cs)) (hmark : c ≠ '!')
    (hquestion : c ≠ '?') {b b' : Builder}
    (hadd : ∀ stop, b.add (tagPiece (c :: cs) stop) = .ok b') :
    Feeds ('<' :: (c :: cs) ++ ['>']) b b' := by
  refine feeds_closed (fun rest => ?_) hadd
  -- the tag ends at its own bracket, since none in front of it is outside quotes
  rw [List.cons_append, outline_tag hmark hquestion, ← List.cons_append, tagOutline,
    hpasses.tagBody?]

/-- Text is taken in together with the tag behind it. -/
theorem feeds_text {text cs : List Char} (htext : '<' ∉ text) {value : List Char}
    (hvalue : unescape text = .ok value) {b b₁ b' : Builder}
    (hadd : b.addText (String.ofList value) (value.all Text.isBlank) .textOutsideRoot = .ok b₁)
    (h : Feeds ('<' :: cs) b₁ b') : Feeds (text ++ '<' :: cs) b b' := by
  cases text with
  | nil =>
    -- no text is no piece, and adds nothing
    obtain rfl : [] = value := Except.ok.inj hvalue
    obtain rfl : b = b₁ := by
      obtain ⟨_ | ⟨⟨name, attributes, children, text⟩, outer⟩, root, comments⟩ := b
      · exact Except.ok.inj hadd
      · simpa [Builder.addText] using hadd
    exact h
  | cons c text =>
    intro total start rest
    obtain ⟨start₁, hskip⟩ := piecesFrom_skip total (start + c.utf8Size) text ('<' :: cs ++ rest)
    obtain ⟨start₂, hrest⟩ := h total start₁ rest
    have htake : (c :: text ++ '<' :: cs ++ rest).takeWhile (· != '<') = c :: text := by
      rw [List.append_assoc, List.takeWhile_append_of_pos]
      · simp
      · intro d hd
        have hne : d ≠ '<' := fun heq => htext (heq ▸ hd)
        simpa using hne
    have hc : c ≠ '<' := fun heq => htext (heq ▸ List.mem_cons_self)
    refine ⟨start₂, ?_⟩
    rw [← hrest]
    rw [List.cons_append, List.cons_append] at htake ⊢
    rw [piecesFrom, if_neg hc]
    simp only [htake, List.length_cons, Nat.add_sub_cancel]
    rw [List.append_assoc, hskip]
    refine addAll_cons_ok ?_ _
    simp only [Builder.add, hvalue, hadd]

theorem unescapeFrom_plain {cs : List Char} (h : '&' ∉ cs) (total start : Nat) :
    unescapeFrom total 0 start cs = .ok cs := by
  induction cs generalizing start with
  | nil => rfl
  | cons c cs ih =>
    rw [List.mem_cons, not_or] at h
    rw [unescapeFrom, if_neg (Ne.symm h.1), ih h.2]
    rfl

theorem mem_lineStart {indent depth : Nat} {c : Char}
    (h : c ∈ (Node.lineStart indent depth).toList) : c = '\n' ∨ c = ' ' := by
  rw [Node.lineStart] at h
  split at h
  · simp at h
  · simp only [String.toList_append, String.toList_ofList, List.mem_append,
      List.mem_replicate] at h
    rcases h with h | ⟨-, h⟩
    · exact Or.inl (by simpa using h)
    · exact Or.inr h

/-- A line start is blank text, so it may stand in an element or outside of all. -/
theorem feeds_lineStart (indent depth : Nat) {cs : List Char} {b b₁ b' : Builder}
    (hadd : b.addText (Node.lineStart indent depth) true .textOutsideRoot = .ok b₁)
    (h : Feeds ('<' :: cs) b₁ b') :
    Feeds ((Node.lineStart indent depth).toList ++ '<' :: cs) b b' := by
  -- a line start holds neither markup nor references
  have hblank : ∀ c : Char, c ≠ '\n' → c ≠ ' ' → c ∉ (Node.lineStart indent depth).toList := by
    intro c hline hspace hc
    rcases mem_lineStart hc with rfl | rfl
    · exact hline rfl
    · exact hspace rfl
  have hall : (Node.lineStart indent depth).toList.all Text.isBlank = true := by
    rw [List.all_eq_true]
    intro c hc
    rcases mem_lineStart hc with rfl | rfl
    · decide
    · decide
  refine feeds_text (hblank '<' (by decide) (by decide))
    (unescapeFrom_plain (hblank '&' (by decide) (by decide)) _ _) ?_ h
  rw [String.ofList_toList, hall, hadd]

/-! ## Tags -/

section Tag

variable {name : String} {attributes : List (String × String)} {b b' : Builder}

theorem passes_slash : Passes ['/'] :=
  passes_plain (by simp)

theorem element_tagText (htag : IsTag name attributes) :
    Builder.element (Node.tagText name attributes).toList = .ok ⟨name, attributes, [], ""⟩ := by
  rw [Builder.element, tagAttributes_tagText htag]
  simp only [tagName_tagText htag, String.ofList_toList]

theorem feeds_startTag (htag : IsTag name attributes)
    (h : b.openElement ⟨name, attributes, [], ""⟩ = .ok b') :
    Feeds ('<' :: (Node.tagText name attributes).toList ++ ['>']) b b' := by
  obtain ⟨c, cs, htext, hc⟩ := tagText_cons htag
  have hpasses := passes_tagText htag
  have hadd : ∀ stop, b.add (tagPiece (Node.tagText name attributes).toList stop) = .ok b' := by
    intro stop
    rw [tagPiece_start htag, Builder.add, element_tagText htag]
    exact h
  rw [htext] at hpasses hadd ⊢
  exact feeds_tag hpasses (Text.ne_of_class hc (by decide)) (Text.ne_of_class hc (by decide)) hadd

theorem feeds_emptyTag (htag : IsTag name attributes)
    (h : b.attach ⟨name, attributes, [], ""⟩ = .ok b') :
    Feeds ('<' :: ((Node.tagText name attributes).toList ++ ['/']) ++ ['>']) b b' := by
  obtain ⟨c, cs, htext, hc⟩ := tagText_cons htag
  have hpasses := (passes_tagText htag).append passes_slash
  have hadd : ∀ stop,
      b.add (tagPiece ((Node.tagText name attributes).toList ++ ['/']) stop) = .ok b' := by
    intro stop
    rw [tagPiece_empty htag, Builder.add, element_tagText htag]
    exact h
  rw [htext, List.cons_append] at hpasses hadd ⊢
  exact feeds_tag hpasses (Text.ne_of_class hc (by decide)) (Text.ne_of_class hc (by decide)) hadd

theorem feeds_endTag (hname : IsName name) (h : ∀ stop, b.closeElement name stop = .ok b') :
    Feeds ('<' :: ('/' :: name.toList) ++ ['>']) b b' := by
  have hpasses : Passes ('/' :: name.toList) := passes_slash.append (passes_name hname)
  apply feeds_tag hpasses (by decide) (by decide)
  intro stop
  rw [tagPiece_end hname, Builder.add, String.ofList_toList]
  exact h stop

/-- Closing an element adds it to what is open around it. -/
theorem closeElement_opened (b : Builder) (e : Element) (stop : Nat) :
    Builder.closeElement { b with opened := e :: b.opened } e.name stop = b.attach e := by
  rw [Builder.closeElement]
  exact if_pos rfl

end Tag

/-! ## Trees -/

namespace Node

section Branch

variable {indent depth : Nat} {name : String} {attributes : List (String × String)}
  {children : List Node}

/-- The children of an open element are added to it, and the line starts to its text. -/
def FeedsAll (indent depth : Nat) (nodes : List Node) : Prop :=
  ∀ (e : Element) (outer : List Element) (root : Option Element) (comments : List String),
    Feeds (renderAll indent depth nodes).toList ⟨e :: outer, root, comments⟩
      ⟨{ e with
          children := e.children ++ elements indent depth nodes
          text := e.text ++ blanks indent depth nodes } :: outer, root, comments⟩

theorem toList_render_branch :
    (render indent depth (.branch name attributes children)).toList =
      ('<' :: (tagText name attributes).toList ++ ['>']) ++
        (renderAll indent (depth + 1) children).toList ++
        ((lineStart indent depth).toList ++ ('<' :: ('/' :: name.toList) ++ ['>'])) := by
  simp [render]

/-- An element is opened, takes in its children, and is closed. -/
theorem feeds_branch (htag : IsTag name attributes)
    (hchildren : FeedsAll indent (depth + 1) children) {b b' : Builder}
    (hopen : b.openElement ⟨name, attributes, [], ""⟩ =
      .ok { b with opened := ⟨name, attributes, [], ""⟩ :: b.opened })
    (hattach : b.attach ⟨name, attributes, elements indent (depth + 1) children,
      blanks indent (depth + 1) children ++ lineStart indent depth⟩ = .ok b') :
    Feeds (render indent depth (.branch name attributes children)).toList b b' := by
  have hinner := hchildren ⟨name, attributes, [], ""⟩ b.opened b.root b.comments
  simp only [List.nil_append, String.empty_append] at hinner
  rw [toList_render_branch]
  refine ((feeds_startTag htag hopen).append hinner).append (feeds_lineStart indent depth rfl ?_)
  apply feeds_endTag htag.name
  intro stop
  exact (closeElement_opened b _ stop).trans hattach

end Branch

theorem attach_opened (e parent : Element) (outer : List Element) (root : Option Element)
    (comments : List String) :
    Builder.attach ⟨parent :: outer, root, comments⟩ e =
      .ok ⟨{ parent with children := parent.children ++ [e] } :: outer, root, comments⟩ :=
  rfl

/-- A node on a line of its own is added to the open element, and so are those behind it. -/
theorem feedsAll_cons {indent depth : Nat} {node : Node} {nodes : List Node} {cs : List Char}
    {e : Element} (htext : (render indent depth node).toList = '<' :: cs)
    (helements : elements indent depth (node :: nodes) = e :: elements indent depth nodes)
    (hnode : ∀ b b' : Builder, b.opened ≠ [] → b.attach e = .ok b' →
      Feeds (render indent depth node).toList b b')
    (hnodes : FeedsAll indent depth nodes) : FeedsAll indent depth (node :: nodes) := by
  intro parent outer root comments
  have hfirst := hnode _ _ (by simp)
    (attach_opened e { parent with text := parent.text ++ lineStart indent depth } outer root
      comments)
  have hrest := hnodes
    { parent with
      children := parent.children ++ [e]
      text := parent.text ++ lineStart indent depth } outer root comments
  rw [htext] at hfirst
  have hall := (feeds_lineStart (b := ⟨parent :: outer, root, comments⟩) indent depth rfl
    hfirst).append hrest
  rw [← htext] at hall
  simp only [renderAll, String.toList_append, helements, blanks]
  simpa [String.append_assoc] using hall

theorem feedsAll_of_proper (indent depth : Nat) {nodes : List Node} (h : Proper nodes) :
    FeedsAll indent depth nodes := by
  -- along the elements that the nodes stand for, down into the branches
  induction depth, nodes using elements.induct with
  | case1 depth =>
    rintro ⟨⟩ outer root comments
    simpa [renderAll, elements, blanks] using feeds_nil _
  | case2 depth body nodes ih => simp [Proper] at h
  | case3 depth name attributes nodes ih =>
    rw [Proper] at h
    have htext : (render indent depth (.leaf name attributes)).toList =
        '<' :: ((tagText name attributes).toList ++ ['/']) ++ ['>'] := by simp [render]
    refine feedsAll_cons htext (by rw [elements]) (fun b b' _ hattach => ?_) (ih h.2)
    rw [htext]
    exact feeds_emptyTag h.1 hattach
  | case4 depth name content nodes ih =>
    rw [Proper] at h
    have htext : (render indent depth (.text name content)).toList =
        '<' :: (tagText name []).toList ++ ['>'] ++
          ((escape content).toList ++ ('<' :: ('/' :: name.toList) ++ ['>'])) := by
      simp [render, tagText]
    refine feedsAll_cons htext (by rw [elements]) (fun b b' hopened hattach => ?_) (ih h.2)
    have hopen : b.openElement ⟨name, [], [], ""⟩ =
        .ok { b with opened := ⟨name, [], [], ""⟩ :: b.opened } := by
      rw [Builder.openElement, if_neg (by simp [hopened])]
    have hcontent : '<' ∉ (escape content).toList := fun hmem => (ne_of_mem_escape hmem).2 rfl
    rw [htext]
    refine (feeds_startTag h.1 hopen).append (feeds_text hcontent (unescape_escape content) rfl ?_)
    apply feeds_endTag h.1.name
    intro stop
    rw [String.empty_append, String.ofList_toList]
    exact (closeElement_opened b ⟨name, [], [], content⟩ stop).trans hattach
  | case5 depth name attributes children nodes ihchildren ih =>
    rw [Proper] at h
    obtain ⟨cs, htext⟩ : ∃ cs,
        (render indent depth (.branch name attributes children)).toList = '<' :: cs := by
      rw [toList_render_branch]
      exact ⟨_, rfl⟩
    refine feedsAll_cons htext (by rw [elements]) (fun b b' hopened hattach => ?_) (ih h.2.2)
    refine feeds_branch h.1 (ihchildren h.2.1) ?_ hattach
    rw [Builder.openElement, if_neg (by simp [hopened])]

end Node

end FetchQuery.Xml
