import FetchQuery.Proofs.Xml.Trees
import Mathlib.Data.List.Infix

/-!
# Written documents are read back

A document is written as comments and one element behind them. It is read as that element and
the trimmed comments (`parse_renderDocument`), whatever the indentation, if no comment holds two
hyphens in a row.

A comment closes at the first bracket behind two hyphens that are not those that open it. Where
no two hyphens follow each other, that is the bracket it was written with (`outline_comment`).
-/

set_option autoImplicit false

namespace FetchQuery.Xml

/-! ## Comments -/

/-- A construct ends at the first bracket where it may close. -/
theorem untilClose?_append {closes : List Char → Bool} {body : List Char} (passed rest : List Char)
    (hinside : ∀ front back, body = front ++ '>' :: back → closes (front.reverse ++ passed) = false)
    (hend : closes (body.reverse ++ passed) = true) :
    untilClose? closes passed (body ++ '>' :: rest) = some (passed.reverse ++ body) := by
  induction body generalizing passed with
  | nil =>
    have hcloses : closes passed = true := hend
    simp [untilClose?, hcloses]
  | cons c body ih =>
    have hopen : ¬(c = '>' ∧ closes passed = true) := by
      rintro ⟨rfl, hcloses⟩
      have hnot : closes passed = false := hinside [] body rfl
      rw [hcloses] at hnot
      cases hnot
    rw [List.cons_append, untilClose?, if_neg hopen, ih (c :: passed)]
    · simp
    · intro front back hbody
      have hcons := hinside (c :: front) back (by rw [hbody, List.cons_append])
      simpa using hcons
    · simpa using hend

/-- A bracket inside a comment does not close it. -/
theorem closesComment_inside {body front back : List Char} (hbody : ¬['-', '-'] <:+: body)
    (hsplit : body ++ ['-', '-'] = front ++ '>' :: back) :
    closesComment (front.reverse ++ ['-', '-', '!']) = false := by
  rw [Bool.eq_false_iff]
  intro hcloses
  rw [closesComment, Bool.and_eq_true, beq_iff_eq, decide_eq_true_eq] at hcloses
  obtain ⟨hhyphens, hlength⟩ := hcloses
  -- the hyphens in front of the bracket are not those that open the comment, so they belong to it
  obtain ⟨start, rfl⟩ : ∃ start, front = start ++ ['-', '-'] := by
    rcases hreverse : front.reverse with _ | ⟨last, _ | ⟨before, start⟩⟩
    · simp [hreverse] at hlength
    · simp [hreverse] at hlength
    · simp only [hreverse, List.cons_append, List.take_succ_cons, List.take_zero,
        List.cons.injEq, and_true] at hhyphens
      obtain ⟨rfl, rfl⟩ := hhyphens
      exact ⟨start.reverse, by rw [List.reverse_eq_iff.1 hreverse]; simp⟩
  rcases List.append_eq_append_iff.1 hsplit with ⟨more, -, hmore⟩ | ⟨more, hmore, -⟩
  · have hbracket : '>' ∈ ['-', '-'] := by simp [hmore]
    simp at hbracket
  · exact hbody ⟨start, more, hmore.symm⟩

/-- A comment without two hyphens in a row ends where it was written to end. -/
theorem outline_comment {body : List Char} (hbody : ¬['-', '-'] <:+: body) (rest : List Char) :
    outline ('!' :: '-' :: '-' :: (body ++ ['-', '-']) ++ '>' :: rest) =
      .closed (fun _ => .comment body) ('!' :: '-' :: '-' :: (body ++ ['-', '-'])) := by
  have hclose : untilClose? closesComment []
      ('!' :: '-' :: '-' :: (body ++ ['-', '-']) ++ '>' :: rest) =
        some ('!' :: '-' :: '-' :: (body ++ ['-', '-'])) := by
    -- the three characters that open the comment are no brackets
    simp only [List.cons_append, untilClose?, false_and, if_false, Char.reduceEq]
    refine untilClose?_append ['-', '-', '!'] rest (fun front back hsplit => ?_) ?_
    · exact closesComment_inside hbody hsplit
    · simp [closesComment]
  change commentOutline _ = _
  rw [commentOutline, hclose]
  simp

theorem toList_render_comment (indent depth : Nat) (body : String) :
    (Node.render indent depth (.comment body)).toList =
      '<' :: ('!' :: '-' :: '-' :: (body.toList ++ ['-', '-'])) ++ ['>'] := by
  simp [Node.render]

theorem feeds_comment {body : String} (hbody : ¬['-', '-'] <:+: body.toList)
    (indent depth : Nat) (b : Builder) :
    Feeds (Node.render indent depth (.comment body)).toList b (b.addComment (Text.trim body)) := by
  rw [toList_render_comment]
  exact feeds_closed (outline_comment hbody) fun _ => rfl

/-! ## Documents -/

/-- What is taken in as a root with comments in front of it is read as a document. -/
theorem parse_of_feeds {xml : String} (hxml : xml.toList.head? = some '<')
    {comments : List String} {root : Element}
    (h : Feeds xml.toList Builder.start ⟨[], some root, comments⟩) :
    Document.parse xml = .ok ⟨comments, root⟩ := by
  -- the text begins with a bracket, so no byte order mark is dropped
  have hmark : dropMark xml.toList = xml.toList := by
    obtain ⟨cs, hcs⟩ := List.head?_eq_some_iff.1 hxml
    rw [hcs]
    rfl
  obtain ⟨start, hpieces⟩ := h (byteLength xml.toList) 0 []
  rw [List.append_nil] at hpieces
  rw [Document.parse, hmark, pieces, hpieces]
  rfl

namespace Node

section Document

variable (indent : Nat) {comments : List String}
variable (hcomments : ∀ body ∈ comments, ¬['-', '-'] <:+: body.toList)
variable {name : String} {attributes : List (String × String)} {children : List Node}
variable (htag : IsTag name attributes) (hchildren : Proper children)

/-- The element that a branch at the top of a document is read as. -/
def rootElement (indent : Nat) (name : String) (attributes : List (String × String))
    (children : List Node) : Element :=
  ⟨name, attributes, elements indent 1 children, blanks indent 1 children ++ lineStart indent 0⟩

include htag hchildren

theorem feeds_root (kept : List String) :
    Feeds (render indent 0 (.branch name attributes children)).toList ⟨[], none, kept⟩
      ⟨[], some (rootElement indent name attributes children), kept⟩ :=
  feeds_branch htag (feedsAll_of_proper indent 1 hchildren) rfl rfl

include hcomments

/-- Comments on lines of their own are kept, up to the root behind them. -/
theorem feeds_lines (kept : List String) :
    Feeds (renderAll indent 0 (comments.map Node.comment ++ [.branch name attributes children])).toList
      ⟨[], none, kept⟩
      ⟨[], some (rootElement indent name attributes children), kept ++ comments.map Text.trim⟩ := by
  induction comments generalizing kept with
  | nil =>
    have hroot := feeds_root indent htag hchildren kept
    rw [toList_render_branch] at hroot
    have hline := feeds_lineStart (b := ⟨[], none, kept⟩) indent 0 rfl hroot
    simpa [renderAll, toList_render_branch] using hline
  | cons body comments ih =>
    have hfirst := feeds_comment (hcomments body List.mem_cons_self) indent 0 ⟨[], none, kept⟩
    have hrest := ih (fun b hb => hcomments b (List.mem_cons_of_mem body hb))
      (kept ++ [Text.trim body])
    rw [toList_render_comment] at hfirst
    have hall := (feeds_lineStart (b := ⟨[], none, kept⟩) indent 0 rfl hfirst).append hrest
    simpa [renderAll, toList_render_comment] using hall

/-- A document is read as its element and its comments. -/
theorem parse_renderDocument :
    Document.parse
        (renderDocument indent (comments.map Node.comment ++ [.branch name attributes children])) =
      .ok ⟨comments.map Text.trim, rootElement indent name attributes children⟩ := by
  cases comments with
  | nil =>
    have htext : (renderDocument indent [.branch name attributes children]).toList =
        (render indent 0 (.branch name attributes children)).toList := by
      simp [renderDocument, renderAll]
    have hroot := feeds_root indent htag hchildren []
    rw [← htext] at hroot
    refine parse_of_feeds ?_ hroot
    rw [List.map_nil, List.nil_append, htext, toList_render_branch]
    rfl
  | cons body comments =>
    have htext : (renderDocument indent (.comment body :: (comments.map Node.comment ++
        [.branch name attributes children]))).toList =
          (render indent 0 (.comment body)).toList ++ (renderAll indent 0 (comments.map
            Node.comment ++ [.branch name attributes children])).toList := by
      simp [renderDocument]
    have hfirst := feeds_comment (hcomments body List.mem_cons_self) indent 0 Builder.start
    have hrest := feeds_lines indent
      (fun b hb => hcomments b (List.mem_cons_of_mem body hb)) htag hchildren [Text.trim body]
    have hall := hfirst.append hrest
    rw [← htext] at hall
    refine parse_of_feeds ?_ hall
    rw [List.map_cons, List.cons_append, htext, toList_render_comment]
    rfl

end Document

end Node

end FetchQuery.Xml
