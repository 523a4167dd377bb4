import FetchQuery.Proofs.Fetch.Contents

/-!
# Structural defects of fetch documents

`defects` lists what keeps a document from being read as a query: a root that is no fetch, no
entity below it, an entity without a name, and links without one of the attributes that make a
join. The links are those that an entity encloses (`Encloses`), in document order.

Reading reports the first defect, and a document without one is always read, whatever else it
holds (`read_error_iff_defects`). `Reports` relates a computation to such a list of errors. It
goes through `map` and `bind`, so each reading function has the list of the functions it calls,
one behind the other.
-/

set_option autoImplicit false

namespace FetchQuery.Fetch

open Xml

/-! ## Reporting the first error -/

/-- A computation succeeds if a list of errors is empty, and else fails with the first of
them. -/
inductive Reports {ε α : Type} : Except ε α → List ε → Prop where
  | ok (a : α) : Reports (.ok a) []
  | error (e : ε) (others : List ε) : Reports (.error e) (e :: others)

section Reports

variable {ε α β : Type} {x : Except ε α} {f : α → Except ε β} {errors others : List ε}

theorem Reports.map (g : α → β) (h : Reports x errors) : Reports (x.map g) errors := by
  cases h with
  | ok a => exact .ok (g a)
  | error e others => exact .error e others

/-- The errors of a second step count behind those of the first. -/
theorem Reports.bind (h : Reports x errors) (hf : ∀ a, x = .ok a → Reports (f a) others) :
    Reports (x.bind f) (errors ++ others) := by
  cases h with
  | ok a => exact hf a rfl
  | error e rest => exact .error e (rest ++ others)

theorem Reports.eq_error_iff (h : Reports x errors) (e : ε) :
    x = .error e ↔ errors.head? = some e := by
  cases h <;> simp

theorem Reports.exists_ok_iff (h : Reports x errors) : (∃ a, x = .ok a) ↔ errors = [] := by
  cases h <;> simp

theorem Reports.exists_error_iff (h : Reports x errors) :
    (∃ e, x = .error e) ↔ errors ≠ [] := by
  cases h <;> simp

end Reports

/-! ## The links that an element encloses -/

/-- A link stands below an element, with nothing but links between them. -/
inductive Encloses : Element → Element → Prop where
  | child {e link : Element} (hmem : link ∈ e.children) (hname : link.name = "link-entity") :
      Encloses e link
  | inside {e outer link : Element} (hmem : outer ∈ e.children)
      (hname : outer.name = "link-entity") (h : Encloses outer link) : Encloses e link

theorem encloses_iff {e link : Element} :
    Encloses e link ↔
      ∃ outer ∈ e.children, outer.name = "link-entity" ∧ (link = outer ∨ Encloses outer link) := by
  constructor
  · intro h
    cases h with
    | child hmem hname => exact ⟨link, hmem, hname, .inl rfl⟩
    | inside hmem hname h => exact ⟨_, hmem, hname, .inr h⟩
  · rintro ⟨outer, hmem, hname, rfl | h⟩
    · exact .child hmem hname
    · exact .inside hmem hname h

/-- The links among the contents of a body, in document order. -/
def linksIn (owner : Owner) (xs : List Element) : List Element :=
  ((contents owner xs).map Prod.snd).filter fun e => e.name = "link-entity"

section Links

variable {owner : Owner} {e : Element} {rest : List Element}

theorem linksIn_cons_of_not_link (h : e.name ≠ "link-entity") :
    linksIn owner (e :: rest) = linksIn owner rest := by
  simp [linksIn, contents_cons_of_not_link h, h]

theorem linksIn_cons_of_link (h : e.name = "link-entity") :
    linksIn owner (e :: rest) =
      e :: (linksIn (linkOwner e) e.children ++ linksIn owner rest) := by
  simp [linksIn, contents_cons_of_link h, h]

end Links

theorem mem_linksIn_iff (link : Element) (owner : Owner) (xs : List Element) :
    link ∈ linksIn owner xs ↔
      ∃ outer ∈ xs, outer.name = "link-entity" ∧ (link = outer ∨ Encloses outer link) := by
  induction owner, xs using contents_induction with
  | nil owner => simp [linksIn, contents]
  | element owner e rest hname ih =>
    rw [linksIn_cons_of_not_link hname, ih]
    simp [hname]
  | link owner e rest hname ihinner ih =>
    rw [linksIn_cons_of_link hname, List.mem_cons, List.mem_append, ihinner, ih, ← encloses_iff]
    simp [hname, or_assoc]

/-! ## Defects -/

/-- The errors for the attributes that an element must have and does not. -/
def missing (element : String) (names : List String) (e : Element) : List ReadError :=
  (names.filter fun name => (e.attr? name).isNone).map (.noAttribute element)

/-- The errors for the attributes that a link must have. -/
def linkDefects : Element → List ReadError :=
  missing "link-entity" ["name", "from", "to"]

/-- What keeps the document of a root element from being read, in the order in which reading
finds it. Of several entities only the first counts. -/
def defects (root : Element) : List ReadError :=
  (if root.name = "fetch" then [] else [.unexpectedRoot root.name]) ++
    match root.childrenNamed "entity" with
    | [] => [.noEntity]
    | entity :: _ =>
      missing "entity" ["name"] entity ++
        (linksIn (rootOwner entity) entity.children).flatMap linkDefects

theorem missing_of_none {element name : String} {e : Element} (h : e.attr? name = none) :
    missing element [name] e = [.noAttribute element name] := by
  simp [missing, h]

theorem missing_of_some {element name value : String} {e : Element}
    (h : e.attr? name = some value) : missing element [name] e = [] := by
  simp [missing, h]

theorem missing_cons (element name : String) (names : List String) (e : Element) :
    missing element (name :: names) e = missing element [name] e ++ missing element names e := by
  rw [missing, ← List.singleton_append, List.filter_append, List.map_append]
  rfl

theorem missing_ne_nil_iff {element : String} {names : List String} {e : Element} :
    missing element names e ≠ [] ↔ ∃ name ∈ names, e.attr? name = none := by
  simp [missing, List.filter_eq_nil_iff]

/-- Some link below an entity has a defect exactly if it encloses one that lacks an attribute. -/
theorem flatMap_linkDefects_ne_nil_iff (owner : Owner) (entity : Element) :
    (linksIn owner entity.children).flatMap linkDefects ≠ [] ↔
      ∃ link, Encloses entity link ∧ ∃ name ∈ ["name", "from", "to"], link.attr? name = none := by
  have hmem : ∀ link, link ∈ linksIn owner entity.children ↔ Encloses entity link := by
    intro link
    rw [mem_linksIn_iff, ← encloses_iff]
  simp only [ne_eq, List.flatMap_eq_nil_iff, not_forall, hmem, exists_prop, linkDefects]
  exact exists_congr fun link => and_congr_right fun _ => missing_ne_nil_iff

theorem defects_ne_nil_iff (root : Element) :
    defects root ≠ [] ↔
      root.name ≠ "fetch" ∨ root.childrenNamed "entity" = [] ∨
        ∃ entity others, root.childrenNamed "entity" = entity :: others ∧
          (entity.attr? "name" = none ∨
            ∃ link, Encloses entity link ∧
              ∃ name ∈ ["name", "from", "to"], link.attr? name = none) := by
  have hroot : (if root.name = "fetch" then [] else [ReadError.unexpectedRoot root.name]) ≠ [] ↔
      root.name ≠ "fetch" := by
    split <;> simp [*]
  rw [defects, ne_eq, List.append_eq_nil_iff, not_and_or, ← ne_eq, hroot]
  refine or_congr_right ?_
  cases hentity : root.childrenNamed "entity" with
  | nil => simp
  | cons entity others =>
    have hname : missing "entity" ["name"] entity ≠ [] ↔ entity.attr? "name" = none := by
      simp [missing_ne_nil_iff]
    simp only [List.append_eq_nil_iff, not_and_or, ← ne_eq, hname, flatMap_linkDefects_ne_nil_iff]
    simp

/-! ## Reading reports the first defect -/

theorem reports_required (e : Element) (name : String) :
    Reports (required e name) (missing "link-entity" [name] e) := by
  cases hvalue : e.attr? name with
  | none =>
    rw [required, hvalue, missing_of_none hvalue]
    exact .error _ []
  | some value =>
    rw [required, hvalue, missing_of_some hvalue]
    exact .ok value

theorem reports_readLink (parent : Option String) (e : Element) :
    Reports (readLink parent e) (linkDefects e) := by
  rw [linkDefects, missing_cons, missing_cons _ "from", missing_cons _ "to"]
  refine (reports_required e "name").bind fun entity _ => ?_
  refine (reports_required e "from").bind fun toAttribute _ => ?_
  exact (reports_required e "to").bind fun fromAttribute _ => .ok _

/-- A body fails at the first defect of the links inside it. The induction follows the links:
the defects of a link come before those of the links inside it, and these before those behind. -/
theorem reports_readBody (root : String) (owner : Owner) (xs : List Element) :
    ∀ d, Reports (readBody root owner xs d) ((linksIn owner xs).flatMap linkDefects) := by
  induction owner, xs using contents_induction with
  | nil owner =>
    intro d
    rw [readBody]
    exact .ok ([], d)
  | element owner e rest hname ih =>
    intro d
    rw [readBody_of_not_link hname, linksIn_cons_of_not_link hname]
    exact (ih _).map _
  | link owner e rest hname ihinner ih =>
    intro d
    have hjoin : Reports (readJoin root owner e d)
        (linkDefects e ++ (linksIn (linkOwner e) e.children).flatMap linkDefects) := by
      obtain ⟨name, attributes, children, text⟩ := e
      rw [readJoin]
      refine (reports_readLink owner.qualifier _).bind fun join hlink => ?_
      cases readLink_eq hlink
      exact (ihinner _).map _
    rw [readBody_of_link hname, linksIn_cons_of_link hname, List.flatMap_cons, List.flatMap_append,
      ← List.append_assoc]
    exact hjoin.bind fun d' _ => ih d'

theorem reports_ofDocument (doc : Document) : Reports (ofDocument doc) (defects doc.root) := by
  rw [ofDocument, defects]
  by_cases hfetch : doc.root.name = "fetch"
  · rw [if_neg (not_not_intro hfetch), if_pos hfetch, List.nil_append]
    cases hentity : doc.root.childrenNamed "entity" with
    | nil => exact .error _ _
    | cons entity others =>
      cases hname : entity.attr? "name" with
      | none =>
        simp only [hname, missing_of_none hname, List.singleton_append]
        exact .error _ _
      | some root =>
        have howner : rootOwner entity = ⟨none, root, .inner⟩ := by
          simp [rootOwner, hname]
        simp only [hname, missing_of_some hname, List.nil_append, howner]
        exact (reports_readBody root _ entity.children _).map _
  · rw [if_pos hfetch, if_neg hfetch]
    exact .error _ _

/-- A document is not read exactly if its root is no fetch, there is no entity, the first entity
has no name, or it encloses a link without one of its three attributes. The error is the first
defect, and a document without defects is read. -/
theorem read_error_iff_defects {xml : String} {doc : Document}
    (h : Document.parse xml = .ok doc) :
    ((∃ error, read xml = .error error) ↔
      doc.root.name ≠ "fetch" ∨ doc.root.childrenNamed "entity" = [] ∨
        ∃ entity others, doc.root.childrenNamed "entity" = entity :: others ∧
          (entity.attr? "name" = none ∨
            ∃ link, Encloses entity link ∧
              ∃ name ∈ ["name", "from", "to"], link.attr? name = none)) ∧
      (∀ error, read xml = .error error ↔ (defects doc.root).head? = some error) ∧
      ((∃ reading, read xml = .ok reading) ↔ defects doc.root = []) := by
  have hread : read xml = ofDocument doc := by
    rw [read, h]
  have hreports := reports_ofDocument doc
  rw [hread]
  refine ⟨?_, hreports.eq_error_iff, hreports.exists_ok_iff⟩
  rw [hreports.exists_error_iff, defects_ne_nil_iff]

/-- A document with a complete link, and inside it one that lacks two attributes. -/
def unfinishedLink : String :=
  "<fetch><entity name=\"book\"><link-entity name=\"pen\" from=\"id\" to=\"by\">" ++
    "<link-entity to=\"at\"/></link-entity></entity></fetch>"

theorem read_unfinishedLink :
    ∃ doc, Document.parse unfinishedLink = .ok doc ∧
      defects doc.root =
        [.noAttribute "link-entity" "name", .noAttribute "link-entity" "from"] ∧
      read unfinishedLink = .error (.noAttribute "link-entity" "name") := by
  have hdefects : (Document.parse unfinishedLink).toOption.map (fun doc => defects doc.root) =
      some [.noAttribute "link-entity" "name", .noAttribute "link-entity" "from"] := by
    decide +kernel
  cases hdoc : Document.parse unfinishedLink with
  | error error => simp [hdoc, Except.toOption] at hdefects
  | ok doc =>
    have hlist : defects doc.root =
        [.noAttribute "link-entity" "name", .noAttribute "link-entity" "from"] := by
      simpa [hdoc, Except.toOption] using hdefects
    exact ⟨doc, rfl, hlist, ((read_error_iff_defects hdoc).2.1 _).2 (by rw [hlist]; rfl)⟩

end FetchQuery.Fetch
