import FetchQuery.Statement
import Mathlib.Data.List.Nodup
import Mathlib.Data.List.Perm.Basic

/-!
# The forest of joins

Joins name their parents, and every parent comes before its children (`ParentsIn`, `IsForest`).
`preorder` lists the joins below an entity the way nested links are written and read: every join is
followed by the joins below it.

From the root every join is listed exactly once (`preorder_perm`), and the children of each
entity keep their order (`childrenOf_preorder`). The reason is that a block of children is
listed once for every time its parent is listed (`filter_parent_preorder`), and nothing is
listed below itself (`later_of_mem_preorder`).

`preorder` is bounded by a number of levels. `DepthFirst` says without such a bound what a listing
of joins in depth-first order is, and as many levels as there are joins are enough for it
(`depthFirst_preorder`).
-/

set_option autoImplicit false

namespace FetchQuery

/-- Every join hangs off the root, off one of the `earlier` qualifiers, or off a join before
it in the list. -/
def ParentsIn : List String → List Join → Prop
  | _, [] => True
  | earlier, j :: joins =>
    (∀ p, j.parent = some p → p ∈ earlier) ∧ ParentsIn (earlier ++ [j.qualifier]) joins

theorem parentsIn_iff {earlier : List String} {joins : List Join} :
    ParentsIn earlier joins ↔ ∀ (i : Nat) (j : Join) (p : String), joins[i]? = some j →
      j.parent = some p → p ∈ earlier ++ (joins.take i).map Join.qualifier := by
  induction joins generalizing earlier with
  | nil => simp [ParentsIn]
  | cons first joins ih =>
    rw [ParentsIn, ih]
    constructor
    · rintro ⟨hfirst, hrest⟩ i j p hi hp
      cases i with
      | zero =>
        obtain rfl : first = j := by simpa using hi
        simpa using hfirst p hp
      | succ i => simpa using hrest i j p (by simpa using hi) hp
    · intro h
      refine ⟨fun p hp => by simpa using h 0 first p rfl hp, fun i j p hi hp => ?_⟩
      simpa using h (i + 1) j p (by simpa using hi) hp

theorem parentsIn_append {earlier : List String} {xs ys : List Join} :
    ParentsIn earlier (xs ++ ys) ↔
      ParentsIn earlier xs ∧ ParentsIn (earlier ++ xs.map Join.qualifier) ys := by
  induction xs generalizing earlier with
  | nil => simp [ParentsIn]
  | cons x xs ih => simp [ParentsIn, ih, and_assoc]

/-- Without earlier qualifiers every parent is a join before its child. -/
theorem parentsIn_nil_iff {joins : List Join} :
    ParentsIn [] joins ↔ ∀ (i : Nat) (j : Join) (p : String), joins[i]? = some j →
      j.parent = some p →
        ∃ (k : Nat) (j' : Join), k < i ∧ joins[k]? = some j' ∧ j'.qualifier = p := by
  rw [parentsIn_iff]
  constructor
  · intro h i j p hi hp
    have hmem := h i j p hi hp
    rw [List.nil_append] at hmem
    obtain ⟨j', hj', rfl⟩ := List.mem_map.1 hmem
    obtain ⟨k, hk⟩ := List.mem_iff_getElem?.1 hj'
    rw [List.getElem?_take] at hk
    split at hk
    · next hlt => exact ⟨k, j', hlt, hk, rfl⟩
    · simp at hk
  · intro h i j p hi hp
    obtain ⟨k, j', hki, hj', rfl⟩ := h i j p hi hp
    rw [List.nil_append]
    refine List.mem_map_of_mem (List.mem_iff_getElem?.2 ⟨k, ?_⟩)
    rw [List.getElem?_take_of_lt hki, hj']

namespace JoinForest

/-- The joins that hang off the entity with the qualifier `owner`, the root having none. -/
def childrenOf (joins : List Join) (owner : Option String) : List Join :=
  joins.filter fun j => j.parent == owner

/-- The joins below an entity, down to `depth` levels, each before the joins below it. -/
def preorder (joins : List Join) : Nat → Option String → List Join
  | 0, _ => []
  | depth + 1, owner =>
    (childrenOf joins owner).flatMap fun j => j :: preorder joins depth (some j.qualifier)

/-- A depth-first listing of siblings: each of them is followed by a listing of its children. -/
inductive DepthFirst (joins : List Join) : List Join → List Join → Prop where
  | nil : DepthFirst joins [] []
  | cons {j : Join} {siblings below rest : List Join}
    (hbelow : DepthFirst joins (childrenOf joins (some j.qualifier)) below)
    (hrest : DepthFirst joins siblings rest) :
    DepthFirst joins (j :: siblings) (j :: below ++ rest)

/-- Joins with distinct qualifiers, each behind its parent. -/
structure IsForest (joins : List Join) : Prop where
  qualifiers_nodup : (joins.map Join.qualifier).Nodup
  parent_earlier : ∀ (i : Nat) (j : Join) (p : String), joins[i]? = some j →
    j.parent = some p → ∃ (k : Nat) (j' : Join), k < i ∧ joins[k]? = some j' ∧ j'.qualifier = p

theorem mem_childrenOf {joins : List Join} {owner : Option String} {j : Join} :
    j ∈ childrenOf joins owner ↔ j ∈ joins ∧ j.parent = owner := by
  rw [childrenOf, List.mem_filter, beq_iff_eq]

theorem mem_preorder_succ {joins : List Join} {depth : Nat} {owner : Option String} {x : Join} :
    x ∈ preorder joins (depth + 1) owner ↔
      ∃ j ∈ childrenOf joins owner, x = j ∨ x ∈ preorder joins depth (some j.qualifier) := by
  rw [preorder, List.mem_flatMap]
  simp only [List.mem_cons]

theorem mem_of_mem_preorder {joins : List Join} {depth : Nat} {owner : Option String} {x : Join}
    (h : x ∈ preorder joins depth owner) : x ∈ joins := by
  induction depth generalizing owner with
  | zero => simp [preorder] at h
  | succ depth ih =>
    obtain ⟨j, hj, rfl | hx⟩ := mem_preorder_succ.1 h
    · exact (mem_childrenOf.1 hj).1
    · exact ih hx

/-- Below a join everything has a parent. -/
theorem parent_ne_none_of_mem_preorder {joins : List Join} {depth : Nat} {q : String} {x : Join}
    (h : x ∈ preorder joins depth (some q)) : x.parent ≠ none := by
  induction depth generalizing q with
  | zero => simp [preorder] at h
  | succ depth ih =>
    obtain ⟨j, hj, rfl | hx⟩ := mem_preorder_succ.1 h
    · rw [(mem_childrenOf.1 hj).2]
      simp
    · exact ih hx

/-- A qualifier that is given once is found once. -/
theorem filter_qualifier_eq_singleton {joins : List Join} (h : (joins.map Join.qualifier).Nodup)
    {x : Join} (hx : x ∈ joins) : joins.filter (fun y => y.qualifier == x.qualifier) = [x] := by
  induction joins with
  | nil => simp at hx
  | cons j joins ih =>
    rw [List.map_cons, List.nodup_cons] at h
    rcases List.mem_cons.1 hx with rfl | hx
    · have hnone : joins.filter (fun y => y.qualifier == x.qualifier) = [] := by
        rw [List.filter_eq_nil_iff]
        intro y hy hq
        exact h.1 (beq_iff_eq.1 hq ▸ List.mem_map_of_mem hy)
      rw [List.filter_cons_of_pos (by simp), hnone]
    · have hne : j.qualifier ≠ x.qualifier := fun hq => h.1 (hq ▸ List.mem_map_of_mem hx)
      rw [List.filter_cons_of_neg (by simp [hne]), ih h.2 hx]

/-- In a preorder every parent comes before its children. -/
theorem parentsIn_preorder {joins : List Join} {depth : Nat} {owner : Option String}
    {earlier : List String} (howner : ∀ q, owner = some q → q ∈ earlier) :
    ParentsIn earlier (preorder joins depth owner) := by
  induction depth generalizing owner earlier with
  | zero => trivial
  | succ depth ih =>
    rw [preorder]
    have hparents : ∀ j ∈ childrenOf joins owner, j.parent = owner := fun j hj =>
      (mem_childrenOf.1 hj).2
    -- the outer induction is on the levels, the inner one on the children of one entity
    generalize childrenOf joins owner = children at hparents
    induction children generalizing earlier with
    | nil => trivial
    | cons j children ihc =>
      rw [List.flatMap_cons, parentsIn_append]
      refine ⟨⟨?_, ?_⟩, ?_⟩
      · rw [hparents j List.mem_cons_self]
        exact howner
      · refine ih ?_
        rintro _ ⟨⟩
        simp
      · refine ihc (fun q hq => ?_) fun j' hj' => hparents j' (List.mem_cons_of_mem j hj')
        exact List.mem_append_left _ (howner q hq)

section Forest

variable {joins : List Join} (hf : IsForest joins)

include hf

theorem IsForest.index_eq {i k : Nat} {x y : Join} (hx : joins[i]? = some x)
    (hy : joins[k]? = some y) (h : x.qualifier = y.qualifier) : i = k := by
  have hi : i < (joins.map Join.qualifier).length := by
    rw [List.length_map]
    exact (List.getElem?_eq_some_iff.1 hx).1
  refine (List.getElem?_inj hi hf.qualifiers_nodup).1 ?_
  rw [List.getElem?_map, List.getElem?_map, hx, hy, Option.map_some, Option.map_some, h]

theorem IsForest.eq_of_qualifier_eq {x y : Join} (hx : x ∈ joins) (hy : y ∈ joins)
    (h : x.qualifier = y.qualifier) : x = y := by
  obtain ⟨i, hi⟩ := List.mem_iff_getElem?.1 hx
  obtain ⟨k, hk⟩ := List.mem_iff_getElem?.1 hy
  rw [hf.index_eq hi hk h] at hi
  exact Option.some.inj (hi.symm.trans hk)

/-- A child stands behind its parent. -/
theorem IsForest.later_of_parent {k : Nat} {y x : Join} (hy : joins[k]? = some y)
    (hx : x ∈ joins) (hp : x.parent = some y.qualifier) : ∃ i, k < i ∧ joins[i]? = some x := by
  obtain ⟨i, hi⟩ := List.mem_iff_getElem?.1 hx
  obtain ⟨k', y', hlt, hy', hq⟩ := hf.parent_earlier i x _ hi hp
  obtain rfl : k' = k := hf.index_eq hy' hy hq
  exact ⟨i, hlt, hi⟩

/-- Everything below a join stands behind it. -/
theorem later_of_mem_preorder {depth k : Nat} {y x : Join} (hy : joins[k]? = some y)
    (hx : x ∈ preorder joins depth (some y.qualifier)) : ∃ i, k < i ∧ joins[i]? = some x := by
  induction depth generalizing k y with
  | zero => simp [preorder] at hx
  | succ depth ih =>
    obtain ⟨j, hj, hx⟩ := mem_preorder_succ.1 hx
    obtain ⟨hmem, hparent⟩ := mem_childrenOf.1 hj
    obtain ⟨i, hki, hi⟩ := hf.later_of_parent hy hmem hparent
    rcases hx with rfl | hx
    · exact ⟨i, hki, hi⟩
    · obtain ⟨i', hii', hi'⟩ := ih hi hx
      exact ⟨i', by omega, hi'⟩

/-- A join is not listed below itself. -/
theorem qualifier_ne_of_mem_preorder {depth : Nat} {x : Join} {q : String}
    (hx : x ∈ preorder joins depth (some q)) : x.qualifier ≠ q := by
  rintro rfl
  obtain ⟨k, hk⟩ := List.mem_iff_getElem?.1 (mem_of_mem_preorder hx)
  obtain ⟨i, hlt, hi⟩ := later_of_mem_preorder hf hk hx
  have hik := hf.index_eq hi hk rfl
  omega

/-- What is listed below a join has its parent there or at the join itself. -/
theorem le_of_parent_eq {depth k m : Nat} {y x z : Join} (hy : joins[k]? = some y)
    (hx : x ∈ preorder joins depth (some y.qualifier)) (hz : joins[m]? = some z)
    (hparent : x.parent = some z.qualifier) : k ≤ m := by
  induction depth generalizing k y with
  | zero => simp [preorder] at hx
  | succ depth ih =>
    obtain ⟨j, hj, hx⟩ := mem_preorder_succ.1 hx
    obtain ⟨hmem, hj⟩ := mem_childrenOf.1 hj
    rcases hx with rfl | hx
    · rw [hj, Option.some.injEq] at hparent
      exact Nat.le_of_eq (hf.index_eq hy hz hparent)
    · obtain ⟨i, hki, hi⟩ := hf.later_of_parent hy hmem hj
      have him := ih hi hx
      omega

/-- What is listed below a child of an entity does not hang off the entity itself. -/
theorem parent_ne_of_mem_preorder {depth : Nat} {j x : Join} {owner : Option String}
    (hj : j ∈ childrenOf joins owner) (hx : x ∈ preorder joins depth (some j.qualifier)) :
    x.parent ≠ owner := by
  cases owner with
  | none => exact parent_ne_none_of_mem_preorder hx
  | some q =>
    -- the parent of `x` stands at `j` or behind it, the parent of `j` before it
    intro hxq
    obtain ⟨hmem, hparent⟩ := mem_childrenOf.1 hj
    obtain ⟨i, hi⟩ := List.mem_iff_getElem?.1 hmem
    obtain ⟨m, z, hmi, hm, rfl⟩ := hf.parent_earlier i j q hi hparent
    have him := le_of_parent_eq hf hi hx hm hxq
    omega

/-! ## Counting -/

/-- The children of the entity itself come in order, with nothing between them that hangs off
the entity as well. -/
theorem filter_parent_self (depth : Nat) (owner : Option String) :
    (preorder joins (depth + 1) owner).filter (fun x => x.parent == owner) =
      childrenOf joins owner := by
  -- of the block of each child only the child itself hangs off the entity
  have hblock : ∀ j ∈ childrenOf joins owner,
      (j :: preorder joins depth (some j.qualifier)).filter (fun x => x.parent == owner) = [j] := by
    intro j hj
    have hbelow : (preorder joins depth (some j.qualifier)).filter (fun x => x.parent == owner) =
        [] := by
      rw [List.filter_eq_nil_iff]
      intro x hx
      simpa using parent_ne_of_mem_preorder hf hj hx
    rw [List.filter_cons_of_pos (by simp [(mem_childrenOf.1 hj).2]), hbelow]
  rw [preorder, List.filter_flatMap, List.flatMap_congr hblock, List.flatMap_singleton']

/-- The children of `q` are listed as a block each time `q` is listed. -/
theorem filter_parent_preorder (depth : Nat) {owner : Option String} {q : String}
    (howner : owner ≠ some q) :
    (preorder joins (depth + 1) owner).filter (fun x => x.parent == some q) =
      ((preorder joins depth owner).filter fun x => x.qualifier == q).flatMap fun _ =>
        childrenOf joins (some q) := by
  induction depth generalizing owner with
  | zero =>
    simp only [preorder, List.filter_flatMap, List.filter_nil, List.flatMap_nil,
      List.flatMap_eq_nil_iff]
    intro j hj
    rw [List.filter_eq_nil_iff]
    intro x hx
    obtain rfl : x = j := by simpa using hx
    rw [(mem_childrenOf.1 hj).2]
    simpa using howner
  | succ depth ih =>
    rw [preorder, List.filter_flatMap, preorder, List.filter_flatMap, List.flatMap_assoc]
    apply List.flatMap_congr
    intro j hj
    have hparent : (j.parent == some q) = false := by
      rw [(mem_childrenOf.1 hj).2]
      simpa using howner
    rw [List.filter_cons_of_neg (by simp [hparent])]
    by_cases hq : j.qualifier = q
    · -- the block of `q` itself, and `q` is not listed again below it
      have hnone : (preorder joins depth (some j.qualifier)).filter (fun x => x.qualifier == q) =
          [] := by
        rw [List.filter_eq_nil_iff, ← hq]
        intro x hx
        simpa using qualifier_ne_of_mem_preorder hf hx
      rw [List.filter_cons_of_pos (by simp [hq]), hnone, hq, filter_parent_self hf]
      simp
    · rw [List.filter_cons_of_neg (by simp [hq])]
      exact ih (by simpa using hq)

/-- The children of an entity keep their order, as soon as the entity is listed once. -/
theorem filter_parent_of_single {depth : Nat} {y : Join}
    (hy : (preorder joins depth none).filter (fun z => z.qualifier == y.qualifier) = [y]) :
    (preorder joins (depth + 1) none).filter (fun z => z.parent == some y.qualifier) =
      childrenOf joins (some y.qualifier) := by
  rw [filter_parent_preorder hf depth (by simp), hy]
  simp

/-- From the root a join is listed exactly once, if the levels reach down to it. -/
theorem filter_qualifier_preorder {i depth : Nat} {x : Join} (hx : joins[i]? = some x)
    (hdepth : i < depth) :
    (preorder joins depth none).filter (fun y => y.qualifier == x.qualifier) = [x] := by
  -- by the position of the join, which is greater than that of its parent
  induction i using Nat.strongRecOn generalizing depth x with
  | _ i ih =>
    obtain ⟨depth, rfl⟩ := Nat.exists_eq_succ_of_ne_zero (n := depth) (by omega)
    have hmem : x ∈ joins := List.mem_of_getElem? hx
    -- the siblings of `x` are listed once and in order, so `x` is listed once among them
    have hsiblings : (preorder joins (depth + 1) none).filter (fun y => y.parent == x.parent) =
        childrenOf joins x.parent := by
      cases hp : x.parent with
      | none => exact filter_parent_self hf depth none
      | some p =>
        obtain ⟨k, y, hki, hy, rfl⟩ := hf.parent_earlier i x p hx hp
        exact filter_parent_of_single hf (ih k hki hy (by omega))
    -- what has the qualifier of `x` is `x`, so it is among the siblings of `x`
    have hsame : ∀ l : List Join, (∀ y ∈ l, y ∈ joins) →
        l.filter (fun y => y.qualifier == x.qualifier) =
          (l.filter fun y => y.parent == x.parent).filter fun y => y.qualifier == x.qualifier := by
      intro l hl
      rw [List.filter_filter]
      apply List.filter_congr
      intro y hy
      by_cases hq : y.qualifier = x.qualifier
      · simp [hf.eq_of_qualifier_eq (hl y hy) hmem hq]
      · simp [hq]
    rw [hsame _ fun y hy => mem_of_mem_preorder hy, hsiblings, childrenOf,
      ← hsame joins fun y hy => hy]
    exact filter_qualifier_eq_singleton hf.qualifiers_nodup hmem

/-! ## All joins -/

theorem mem_preorder_iff {x : Join} : x ∈ preorder joins joins.length none ↔ x ∈ joins := by
  constructor
  · exact mem_of_mem_preorder
  · intro hx
    obtain ⟨i, hi⟩ := List.mem_iff_getElem?.1 hx
    have hlist := filter_qualifier_preorder hf hi (List.getElem?_eq_some_iff.1 hi).1
    exact List.mem_of_mem_filter (hlist ▸ List.mem_cons_self)

/-- A qualifier finds the same joins in the preorder as in the list itself. -/
theorem filter_qualifier_preorder_eq (q : String) :
    (preorder joins joins.length none).filter (fun x => x.qualifier == q) =
      joins.filter fun x => x.qualifier == q := by
  by_cases hq : ∃ x ∈ joins, x.qualifier = q
  · obtain ⟨x, hx, rfl⟩ := hq
    obtain ⟨i, hi⟩ := List.mem_iff_getElem?.1 hx
    rw [filter_qualifier_preorder hf hi (List.getElem?_eq_some_iff.1 hi).1,
      filter_qualifier_eq_singleton hf.qualifiers_nodup hx]
  · have hnone : ∀ l : List Join, (∀ x ∈ l, x ∈ joins) →
        l.filter (fun x => x.qualifier == q) = [] := by
      intro l hl
      rw [List.filter_eq_nil_iff]
      intro x hx hxq
      exact hq ⟨x, hl x hx, by simpa using hxq⟩
    rw [hnone _ fun x hx => mem_of_mem_preorder hx, hnone joins fun x hx => hx]

theorem nodup_qualifier_preorder :
    ((preorder joins joins.length none).map Join.qualifier).Nodup := by
  have hjoins := hf.qualifiers_nodup
  rw [List.nodup_iff_count_le_one] at hjoins ⊢
  intro q
  have hq := hjoins q
  rw [List.count_eq_length_filter, List.filter_map, List.length_map] at hq ⊢
  exact Nat.le_trans (Nat.le_of_eq (congrArg List.length (filter_qualifier_preorder_eq hf q))) hq

/-- The preorder of a forest is a forest. -/
theorem isForest_preorder : IsForest (preorder joins joins.length none) where
  qualifiers_nodup := nodup_qualifier_preorder hf
  parent_earlier := parentsIn_nil_iff.1 (parentsIn_preorder (by simp))

/-- From the root every join is listed exactly once. -/
theorem preorder_perm : (preorder joins joins.length none).Perm joins :=
  (List.perm_ext_iff_of_nodup (nodup_qualifier_preorder hf).of_map hf.qualifiers_nodup.of_map).2
    fun _ => mem_preorder_iff hf

/-- The children of every entity keep their order. -/
theorem childrenOf_preorder (owner : Option String) :
    childrenOf (preorder joins joins.length none) owner = childrenOf joins owner := by
  cases owner with
  | none =>
    cases hlength : joins.length with
    | zero => rw [List.length_eq_zero_iff.1 hlength]; rfl
    | succ n => exact filter_parent_self hf n none
  | some q =>
    by_cases hq : childrenOf joins (some q) = []
    · rw [hq, childrenOf, List.filter_eq_nil_iff]
      intro x hx hparent
      have hmem : x ∈ childrenOf joins (some q) :=
        mem_childrenOf.2 ⟨mem_of_mem_preorder hx, by simpa using hparent⟩
      simp [hq] at hmem
    · -- a child shows that `q` is a join, at a position that leaves a level for its children
      obtain ⟨x, hx⟩ := List.exists_mem_of_ne_nil _ hq
      obtain ⟨hmem, hparent⟩ := mem_childrenOf.1 hx
      obtain ⟨i, hi⟩ := List.mem_iff_getElem?.1 hmem
      obtain ⟨k, y, hki, hk, rfl⟩ := hf.parent_earlier i x q hi hparent
      have hlt := (List.getElem?_eq_some_iff.1 hi).1
      obtain ⟨n, hn⟩ := Nat.exists_eq_succ_of_ne_zero (n := joins.length) (by omega)
      rw [hn]
      exact filter_parent_of_single hf (filter_qualifier_preorder hf hk (by omega))

/-! ## Depth-first listings -/

omit hf in
theorem depthFirst_flatMap {siblings : List Join} {below : Join → List Join}
    (h : ∀ j ∈ siblings, DepthFirst joins (childrenOf joins (some j.qualifier)) (below j)) :
    DepthFirst joins siblings (siblings.flatMap fun j => j :: below j) := by
  induction siblings with
  | nil => exact .nil
  | cons j siblings ih =>
    rw [List.flatMap_cons]
    exact .cons (h j List.mem_cons_self) (ih fun j' hj' => h j' (List.mem_cons_of_mem j hj'))

/-- Below a join the levels are enough if they reach the end of the list, since a child stands
behind its parent. -/
theorem depthFirst_below {depth k : Nat} {y : Join} (hy : joins[k]? = some y)
    (hdepth : joins.length ≤ depth + k + 1) :
    DepthFirst joins (childrenOf joins (some y.qualifier))
      (preorder joins depth (some y.qualifier)) := by
  induction depth generalizing k y with
  | zero =>
    have hnone : childrenOf joins (some y.qualifier) = [] := by
      rw [List.eq_nil_iff_forall_not_mem]
      intro j hj
      obtain ⟨hmem, hparent⟩ := mem_childrenOf.1 hj
      obtain ⟨i, hki, hi⟩ := hf.later_of_parent hy hmem hparent
      have hlt := (List.getElem?_eq_some_iff.1 hi).1
      omega
    rw [hnone]
    exact .nil
  | succ depth ih =>
    refine depthFirst_flatMap fun j hj => ?_
    obtain ⟨hmem, hparent⟩ := mem_childrenOf.1 hj
    obtain ⟨i, hki, hi⟩ := hf.later_of_parent hy hmem hparent
    exact ih hi (by omega)

/-- The preorder lists the joins depth first. -/
theorem depthFirst_preorder :
    DepthFirst joins (childrenOf joins none) (preorder joins joins.length none) := by
  cases hlength : joins.length with
  | zero =>
    rw [List.length_eq_zero_iff.1 hlength]
    exact .nil
  | succ n =>
    refine depthFirst_flatMap fun j hj => ?_
    obtain ⟨i, hi⟩ := List.mem_iff_getElem?.1 (mem_childrenOf.1 hj).1
    exact depthFirst_below hf hi (by omega)

end Forest

end JoinForest

end FetchQuery
