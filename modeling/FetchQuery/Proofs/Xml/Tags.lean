import FetchQuery.Xml.Node
import FetchQuery.Xml.TagAttribute
import FetchQuery.Proofs.Text.Classes

/-!
# Tags and references that are read back

A text written with references resolves to itself (`unescape_escape`), and the attributes of a
tag are read as they were written (`tagAttributes_tagText`). The values may hold any
characters. Tag names and keys are made of basic letters and hyphens (`IsName`), so that they
never run into the markup around them, and no key is given twice (`IsTag`).
-/

set_option autoImplicit false

namespace FetchQuery.Xml

/-! ## References -/

theorem referenceName?_append {name : List Char} (hname : ∀ c ∈ name, c ≠ ';' ∧ c ≠ '&')
    (rest : List Char) : referenceName? (name ++ ';' :: rest) = some name := by
  induction name with
  | nil => rfl
  | cons c name ih =>
    obtain ⟨hsemicolon, hampersand⟩ := hname c List.mem_cons_self
    rw [List.cons_append, referenceName?, if_neg hsemicolon, if_neg hampersand,
      ih fun d hd => hname d (List.mem_cons_of_mem c hd)]
    rfl

/-- The characters of a reference are passed over. -/
theorem unescapeFrom_skip (total start : Nat) (passed rest : List Char) :
    ∃ start', unescapeFrom total passed.length start (passed ++ rest) =
      unescapeFrom total 0 start' rest := by
  induction passed generalizing start with
  | nil => exact ⟨start, rfl⟩
  | cons c passed ih => exact ih (start + c.utf8Size)

/-- A reference resolves to its character, and reading goes on behind it. -/
theorem unescapeFrom_reference (name : List Char) {c : Char}
    (hname : ∀ d ∈ name, d ≠ ';' ∧ d ≠ '&') (hc : ∀ start, referencedChar start name = .ok c)
    (total start : Nat) (rest : List Char) :
    ∃ start', unescapeFrom total 0 start ('&' :: (name ++ ';' :: rest)) =
      (unescapeFrom total 0 start' rest).map (c :: ·) := by
  -- the name and the semicolon are skipped one character at a time
  obtain ⟨start', hskip⟩ := unescapeFrom_skip total (start + 1) (name ++ [';']) rest
  rw [List.length_append, List.length_singleton, List.append_assoc, List.singleton_append] at hskip
  refine ⟨start', ?_⟩
  rw [unescapeFrom, if_pos rfl, referenceName?_append hname]
  simp only [hc, hskip]

/-- Whatever a character is written as resolves to the character. -/
theorem unescapeFrom_escapeChar (total start : Nat) (c : Char) (rest : List Char) :
    ∃ start', unescapeFrom total 0 start (escapeChar c ++ rest) =
      (unescapeFrom total 0 start' rest).map (c :: ·) := by
  unfold escapeChar
  split
  · exact unescapeFrom_reference ['l', 't'] (by simp) (fun _ => rfl) total start rest
  · exact unescapeFrom_reference ['g', 't'] (by simp) (fun _ => rfl) total start rest
  · exact unescapeFrom_reference ['a', 'm', 'p'] (by simp) (fun _ => rfl) total start rest
  · exact unescapeFrom_reference ['a', 'p', 'o', 's'] (by simp) (fun _ => rfl) total start
      rest
  · exact unescapeFrom_reference ['q', 'u', 'o', 't'] (by simp) (fun _ => rfl) total start
      rest
  · -- all other characters stand for themselves, and an ampersand is not among them
    next hampersand _ _ =>
    refine ⟨start + c.utf8Size, ?_⟩
    rw [List.singleton_append, unescapeFrom, if_neg hampersand]

theorem unescapeFrom_escape (total start : Nat) (cs : List Char) :
    unescapeFrom total 0 start (cs.flatMap escapeChar) = .ok cs := by
  induction cs generalizing start with
  | nil => rfl
  | cons c cs ih =>
    obtain ⟨start', hc⟩ := unescapeFrom_escapeChar total start c (cs.flatMap escapeChar)
    rw [List.flatMap_cons, hc, ih]
    rfl

/-- A text resolves to itself from how it is written. -/
theorem unescape_escape (s : String) : unescape (escape s).toList = .ok s.toList := by
  rw [escape, String.toList_ofList]
  exact unescapeFrom_escape _ _ _

/-- A written text holds no quote and no opening bracket. -/
theorem ne_of_mem_escape {s : String} {c : Char} (h : c ∈ (escape s).toList) :
    c ≠ '"' ∧ c ≠ '<' := by
  rw [escape, String.toList_ofList, List.mem_flatMap] at h
  obtain ⟨d, -, hc⟩ := h
  unfold escapeChar at hc
  split at hc
  case h_6 hlt _ _ _ hquote =>
    -- a character that is written as itself
    obtain rfl : c = d := by simpa using hc
    exact ⟨hquote, hlt⟩
  all_goals
    simp only [List.mem_cons, List.not_mem_nil, or_false] at hc
    rcases hc with rfl | rfl | rfl | rfl | rfl | rfl <;> decide

/-! ## Names -/

/-- The characters of tag names and keys. -/
def isNameChar (c : Char) : Bool :=
  c.isAlpha || c == '-'

/-- A name of basic letters and hyphens. -/
def IsName (s : String) : Prop :=
  s.toList ≠ [] ∧ ∀ c ∈ s.toList, isNameChar c = true

-- along the list of characters: there is no deciding over all characters
instance (s : String) : Decidable (IsName s) :=
  @instDecidableAnd _ _ _ (List.decidableBAll _ _)

theorem isSpace_of_isNameChar {c : Char} (hc : isNameChar c = true) : isSpace c = false := by
  have hspace := Text.ne_of_class (d := ' ') hc (by decide)
  have htab := Text.ne_of_class (d := '\t') hc (by decide)
  have hreturn := Text.ne_of_class (d := '\r') hc (by decide)
  have hline := Text.ne_of_class (d := '\n') hc (by decide)
  simp [isSpace, hspace, htab, hreturn, hline]

/-- The name and the keys of a tag that can be read back. -/
structure IsTag (name : String) (attributes : List (String × String)) : Prop where
  name : IsName name
  keys : ∀ a ∈ attributes, IsName a.1
  keys_nodup : (attributes.map Prod.fst).Nodup

/-- A tag is proper if its keys are among distinct names. -/
theorem isTag_of_keys {name : String} {attributes : List (String × String)} (keys : List String)
    (hkeys : (attributes.map Prod.fst).Sublist keys)
    (h : IsName name ∧ (∀ key ∈ keys, IsName key) ∧ keys.Nodup) : IsTag name attributes := by
  obtain ⟨hname, hnames, hnodup⟩ := h
  refine ⟨hname, fun a ha => ?_, hnodup.sublist hkeys⟩
  exact hnames a.1 (hkeys.mem (List.mem_map_of_mem ha))

/-! ## Attributes -/

theorem toList_attributeText (a : String × String) :
    (Node.attributeText a).toList =
      ' ' :: (a.1.toList ++ '=' :: '"' :: ((escape a.2).toList ++ ['"'])) := by
  simp [Node.attributeText]

theorem toList_join_attributeText (attributes : List (String × String)) :
    (String.join (attributes.map Node.attributeText)).toList =
      attributes.flatMap fun a => (Node.attributeText a).toList := by
  induction attributes with
  | nil => rfl
  | cons a attributes ih => simp [ih]

theorem attributeKey_append {key : List Char} (hne : key ≠ [])
    (hkey : ∀ c ∈ key, isNameChar c = true) (rest : List Char) :
    attributeKey (key ++ '=' :: rest) = key := by
  obtain ⟨c, key, rfl⟩ := List.exists_cons_of_ne_nil hne
  rw [List.cons_append, attributeKey, List.takeWhile_append_of_pos]
  · simp
  · intro d hd
    have hd' := hkey d (List.mem_cons_of_mem c hd)
    simp [isSpace_of_isNameChar hd', Text.ne_of_class hd' (by decide : isNameChar '=' = false)]

theorem quotedValue_append {raw : List Char} (hraw : '"' ∉ raw) (total : Nat) (rest : List Char) :
    quotedValue total ('"' :: (raw ++ '"' :: rest)) = .ok raw := by
  have htake : (raw ++ '"' :: rest).takeWhile (· != '"') = raw := by
    rw [List.takeWhile_append_of_pos]
    · simp
    · intro c hc
      have hne : c ≠ '"' := fun h => hraw (h ▸ hc)
      simpa using hne
  rw [quotedValue, if_pos (Or.inl rfl), if_pos (by simp), htake]

/-- One attribute is read from its text if its key is new, and the others behind it. -/
theorem attributesWithin_attributeText (total : Nat) {a : String × String} (ha : IsName a.1)
    {seen : List (List Char × Nat)} (hfresh : ∀ k ∈ seen, k.1 ≠ a.1.toList) {n : Nat}
    {rest : List Char} {others : List (String × String)}
    (hothers : ∀ place, attributesWithin total n ((a.1.toList, place) :: seen) rest = .ok others) :
    attributesWithin total (n + 1) seen ((Node.attributeText a).toList ++ rest) =
      .ok (a :: others) := by
  obtain ⟨hne, hname⟩ := ha
  let behind := '"' :: ((escape a.2).toList ++ '"' :: rest)
  have hvalue : '"' ∉ (escape a.2).toList := fun h => (ne_of_mem_escape h).1 rfl
  have hchars : (Node.attributeText a).toList ++ rest = ' ' :: (a.1.toList ++ '=' :: behind) := by
    rw [toList_attributeText]
    simp [behind]
  -- from here on the steps of the reader, in their order
  obtain ⟨c, key, hkey⟩ := List.exists_cons_of_ne_nil hne
  have hdrop : (' ' :: (a.1.toList ++ '=' :: behind)).dropWhile isSpace =
      c :: (key ++ '=' :: behind) := by
    have hc : isSpace c = false := isSpace_of_isNameChar (hname c (by simp [hkey]))
    rw [hkey, List.cons_append, List.dropWhile_cons_of_pos (by decide),
      List.dropWhile_cons_of_neg (by simp [hc])]
  have hattributeKey : attributeKey (c :: (key ++ '=' :: behind)) = c :: key := by
    rw [← List.cons_append, ← hkey]
    exact attributeKey_append hne hname _
  have hbehind : behindEquals total ((c :: (key ++ '=' :: behind)).drop (c :: key).length) =
      .ok behind := by
    rw [← List.cons_append, List.drop_left, behindEquals]
    rfl
  have hfind : seen.find? (fun k => k.1 == c :: key) = none := by
    rw [List.find?_eq_none, ← hkey]
    intro k hk
    simpa using hfresh k hk
  have hrest : behind.drop ((escape a.2).toList.length + 2) = rest := by
    simp [behind]
  rw [hkey] at hothers
  rw [hchars, attributesWithin, hdrop]
  simp only [hattributeKey, hbehind, hfind, quotedValue_append hvalue, unescape_escape, hrest,
    hothers, behind]
  rw [← hkey, String.ofList_toList, String.ofList_toList]

/-- Attributes are read one after the other, each behind the keys of those before it. -/
theorem attributesWithin_flatMap (total : Nat) {attributes : List (String × String)}
    (hkeys : ∀ a ∈ attributes, IsName a.1) (hnodup : (attributes.map Prod.fst).Nodup) {n : Nat}
    (hn : attributes.length ≤ n) {seen : List (List Char × Nat)}
    (hseen : ∀ a ∈ attributes, ∀ k ∈ seen, k.1 ≠ a.1.toList) :
    attributesWithin total n seen
      (attributes.flatMap fun a => (Node.attributeText a).toList) = .ok attributes := by
  induction attributes generalizing n seen with
  | nil => cases n <;> rfl
  | cons a attributes ih =>
    rw [List.length_cons] at hn
    obtain ⟨n, rfl⟩ := Nat.exists_eq_succ_of_ne_zero (n := n) (by omega)
    rw [List.map_cons, List.nodup_cons] at hnodup
    rw [List.flatMap_cons]
    apply attributesWithin_attributeText total (hkeys a List.mem_cons_self)
      (hseen a List.mem_cons_self)
    intro place
    apply ih (fun b hb => hkeys b (List.mem_cons_of_mem a hb)) hnodup.2 (by omega)
    intro b hb k hk
    rcases List.mem_cons.1 hk with rfl | hk
    · -- the key just read is none of those to come
      intro heq
      exact hnodup.1 (String.toList_inj.1 heq ▸ List.mem_map_of_mem hb)
    · exact hseen b (List.mem_cons_of_mem a hb) k hk

theorem tagName_append {name : List Char} (hname : ∀ c ∈ name, isNameChar c = true)
    {rest : List Char} (hrest : ∀ c ∈ rest.head?, isSpace c = true) :
    tagName (name ++ rest) = name := by
  rw [tagName, List.takeWhile_append_of_pos]
  · cases rest with
    | nil => simp
    | cons c rest => simp [hrest c rfl]
  · intro c hc
    simp [isSpace_of_isNameChar (hname c hc)]

theorem toList_tagText (name : String) (attributes : List (String × String)) :
    (Node.tagText name attributes).toList =
      name.toList ++ attributes.flatMap fun a => (Node.attributeText a).toList := by
  rw [Node.tagText, String.toList_append, toList_join_attributeText]

section Tag

variable {name : String} {attributes : List (String × String)} (htag : IsTag name attributes)

include htag

/-- The text of a tag begins with the first character of its name. -/
theorem tagText_cons : ∃ c cs, (Node.tagText name attributes).toList = c :: cs ∧
    isNameChar c = true := by
  obtain ⟨c, cs, hname⟩ := List.exists_cons_of_ne_nil htag.name.1
  have htext := toList_tagText name attributes
  rw [hname, List.cons_append] at htext
  exact ⟨c, _, htext, htag.name.2 c (by simp [hname])⟩

theorem tagName_tagText : tagName (Node.tagText name attributes).toList = name.toList := by
  rw [toList_tagText]
  refine tagName_append htag.name.2 ?_
  cases attributes with
  | nil => simp
  | cons a attributes =>
    rw [List.flatMap_cons, toList_attributeText]
    rintro c ⟨⟩
    rfl

/-- The attributes of a tag are read back. -/
theorem tagAttributes_tagText :
    tagAttributes (Node.tagText name attributes).toList = .ok attributes := by
  rw [tagAttributes, tagName_tagText htag]
  have hlength : attributes.length ≤ (Node.tagText name attributes).toList.length := by
    rw [toList_tagText, List.length_append]
    -- every attribute has at least two characters
    have hle : attributes.length ≤
        (attributes.flatMap fun a => (Node.attributeText a).toList).length := by
      clear htag
      induction attributes with
      | nil => exact Nat.zero_le _
      | cons a attributes ih =>
        rw [List.flatMap_cons, List.length_append, toList_attributeText, List.length_cons,
          List.length_cons]
        omega
    omega
  rw [toList_tagText, List.drop_left, ← toList_tagText]
  exact attributesWithin_flatMap _ htag.keys htag.keys_nodup hlength (by simp)

end Tag

/-! ## The end of a tag -/

/-- Characters in which no tag ends: every quote in them is closed again. -/
def Passes (cs : List Char) : Prop :=
  ∀ rest, tagBody? none (cs ++ rest) = (tagBody? none rest).map (cs ++ ·)

theorem Passes.append {cs ds : List Char} (hc : Passes cs) (hd : Passes ds) :
    Passes (cs ++ ds) := by
  intro rest
  rw [List.append_assoc, hc, hd, Option.map_map]
  simp [Function.comp_def]

/-- A tag ends at the first bracket behind characters that are passed. -/
theorem Passes.tagBody? {cs : List Char} (h : Passes cs) (rest : List Char) :
    tagBody? none (cs ++ '>' :: rest) = some cs := by
  rw [h, Xml.tagBody?, if_pos rfl]
  simp

theorem passes_plain {cs : List Char} (h : ∀ c ∈ cs, c ≠ '>' ∧ c ≠ '\'' ∧ c ≠ '"') :
    Passes cs := by
  intro rest
  induction cs with
  | nil => simp
  | cons c cs ih =>
    obtain ⟨hbracket, hapostrophe, hquote⟩ := h c List.mem_cons_self
    rw [List.cons_append, tagBody?, if_neg hbracket, if_neg (by simp [hapostrophe, hquote]),
      ih fun d hd => h d (List.mem_cons_of_mem c hd), Option.map_map]
    rfl

theorem tagBody?_quoted {cs : List Char} (h : '"' ∉ cs) (rest : List Char) :
    tagBody? (some '"') (cs ++ '"' :: rest) =
      (tagBody? none rest).map fun body => cs ++ '"' :: body := by
  induction cs with
  | nil =>
    rw [List.nil_append, tagBody?, if_pos rfl]
    rfl
  | cons c cs ih =>
    rw [List.mem_cons, not_or] at h
    rw [List.cons_append, tagBody?, if_neg (Ne.symm h.1), ih h.2, Option.map_map]
    rfl

theorem passes_quoted {cs : List Char} (h : '"' ∉ cs) : Passes ('"' :: (cs ++ ['"'])) := by
  intro rest
  rw [List.cons_append, List.append_assoc, tagBody?, if_neg (by decide), if_pos (Or.inr rfl),
    List.singleton_append, tagBody?_quoted h, Option.map_map]
  simp [Function.comp_def]

theorem passes_name {name : String} (h : IsName name) : Passes name.toList := by
  apply passes_plain
  intro c hc
  have hname := h.2 c hc
  exact ⟨Text.ne_of_class hname (by decide), Text.ne_of_class hname (by decide),
    Text.ne_of_class hname (by decide)⟩

theorem passes_attributeText {a : String × String} (h : IsName a.1) :
    Passes (Node.attributeText a).toList := by
  have hvalue : '"' ∉ (escape a.2).toList := fun hmem => (ne_of_mem_escape hmem).1 rfl
  have hspace : Passes [' '] := passes_plain (by simp)
  have hequals : Passes ['='] := passes_plain (by simp)
  have hall := ((hspace.append (passes_name h)).append hequals).append (passes_quoted hvalue)
  rw [toList_attributeText]
  simpa using hall

theorem passes_tagText {name : String} {attributes : List (String × String)}
    (h : IsTag name attributes) : Passes (Node.tagText name attributes).toList := by
  rw [toList_tagText]
  refine (passes_name h.name).append ?_
  have hkeys := h.keys
  clear h
  induction attributes with
  | nil => exact fun rest => by simp
  | cons a attributes ih =>
    rw [List.flatMap_cons]
    exact (passes_attributeText (hkeys a List.mem_cons_self)).append
      (ih fun b hb => hkeys b (List.mem_cons_of_mem a hb))

/-! ## The pieces of tags -/

/-- A tag text ends in a letter, a hyphen or a quote. -/
theorem getLast?_tagText {name : String} {attributes : List (String × String)}
    (h : IsTag name attributes) : (Node.tagText name attributes).toList.getLast? ≠ some '/' := by
  rw [toList_tagText]
  cases hrev : attributes.reverse with
  | nil =>
    obtain rfl : attributes = [] := by simpa using hrev
    rw [List.flatMap_nil, List.append_nil]
    intro hlast
    have hname := h.name.2 '/' (List.mem_of_getLast? hlast)
    exact absurd hname (by decide)
  | cons a before =>
    -- the last attribute ends with the quote behind its value
    have hattributes : attributes = before.reverse ++ [a] := by
      rw [← List.reverse_reverse attributes, hrev, List.reverse_cons]
    have hquote : (Node.attributeText a).toList =
        (' ' :: (a.1.toList ++ '=' :: '"' :: (escape a.2).toList)) ++ ['"'] := by
      simp [toList_attributeText]
    rw [hattributes, List.flatMap_append, List.flatMap_singleton, hquote, ← List.append_assoc,
      ← List.append_assoc, List.getLast?_concat]
    simp

theorem tagPiece_start {name : String} {attributes : List (String × String)}
    (h : IsTag name attributes) (stop : Nat) :
    tagPiece (Node.tagText name attributes).toList stop =
      .startTag (Node.tagText name attributes).toList := by
  obtain ⟨c, cs, htext, hc⟩ := tagText_cons h
  unfold tagPiece
  split
  · next content hslash =>
    rw [htext] at hslash
    exact absurd (List.cons.inj hslash).1 (Text.ne_of_class hc (by decide))
  · rw [if_neg (getLast?_tagText h)]

theorem tagPiece_empty {name : String} {attributes : List (String × String)}
    (h : IsTag name attributes) (stop : Nat) :
    tagPiece ((Node.tagText name attributes).toList ++ ['/']) stop =
      .emptyTag (Node.tagText name attributes).toList := by
  obtain ⟨c, cs, htext, hc⟩ := tagText_cons h
  unfold tagPiece
  split
  · next content hslash =>
    rw [htext, List.cons_append] at hslash
    exact absurd (List.cons.inj hslash).1 (Text.ne_of_class hc (by decide))
  · rw [if_pos (by simp), List.dropLast_concat]

theorem tagPiece_end {name : String} (h : IsName name) (stop : Nat) :
    tagPiece ('/' :: name.toList) stop = .endTag name.toList stop := by
  have hspace : ∀ c ∈ name.toList, isSpace c = false := fun c hc =>
    isSpace_of_isNameChar (h.2 c hc)
  have hall : name.toList.all isSpace = false := by
    obtain ⟨c, cs, hname⟩ := List.exists_cons_of_ne_nil h.1
    simp [hname, hspace c (by simp [hname])]
  have hend : dropEndSpace name.toList = name.toList := by
    rw [dropEndSpace, List.reverse_eq_iff]
    cases hrev : name.toList.reverse with
    | nil => rfl
    | cons c cs =>
      have hmem : c ∈ name.toList := List.mem_reverse.1 (by simp [hrev])
      rw [List.dropWhile_cons_of_neg (by simp [hspace c hmem])]
  rw [tagPiece, endTagName, hall, if_neg Bool.false_ne_true, hend]

end FetchQuery.Xml
