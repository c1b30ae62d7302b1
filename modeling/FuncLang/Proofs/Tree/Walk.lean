import FuncLang.Proofs.Tree.Serial
import Mathlib.Tactic.TFAE

/-! # Walks over trees

A walk comes to every node of a tree once. Nodes may be equal, so they are told apart by their addresses, and
a walk goes through all addresses of a tree in increasing order. A visitor that is sent through the tree meets
the nodes of the walk one after the other.

What a walk shows of the nodes determines the tree, though it does not show where the children of a node end:
their number is shown, and each of them ends where its own children do, whatever nodes come behind it.
-/

namespace FuncLang.Tree

/-! ## Addresses -/

/-- The node at an address, which tells the number of each child on the way to it, counted from zero. -/
def nodeAt? : Tree → List Nat → Option Tree
  | tree, [] => some tree
  | tree, number :: address => tree.children[number]?.bind (nodeAt? · address)

mutual

/-- All nodes of a tree with their addresses, each before its children. -/
def addressed : Tree → List (List Nat × Tree)
  | ⟨kind, value, children⟩ => ([], ⟨kind, value, children⟩) :: addressedFrom 0 children

/-- All nodes below a node with their addresses, from the child with the given number on. -/
def addressedFrom (number : Nat) : List Tree → List (List Nat × Tree)
  | [] => []
  | tree :: trees =>
    tree.addressed.map (fun entry => (number :: entry.1, entry.2)) ++ addressedFrom (number + 1) trees

end

mutual

theorem map_snd_addressed : (tree : Tree) → tree.addressed.map Prod.snd = tree.walk
  | ⟨kind, value, children⟩ => by
    rw [addressed, List.map_cons, map_snd_addressedFrom 0 children, walk]

theorem map_snd_addressedFrom (number : Nat) :
    (trees : List Tree) → (addressedFrom number trees).map Prod.snd = walkAll trees
  | [] => rfl
  | tree :: trees => by
    rw [addressedFrom, List.map_append, map_snd_addressedFrom (number + 1) trees, List.map_map,
      walkAll_cons, ← map_snd_addressed tree]
    rfl

end

mutual

/-- Every node is listed with its address, and nothing else is. -/
theorem mem_addressed_iff : (tree : Tree) → {address : List Nat} → {node : Tree} →
    ((address, node) ∈ tree.addressed ↔ tree.nodeAt? address = some node)
  | ⟨kind, value, children⟩, [], node => by
    -- Only the root has the empty address.
    have below : ([], node) ∉ addressedFrom 0 children := by
      rw [mem_addressedFrom_iff]
      rintro ⟨index, address, impossible, -⟩
      cases impossible
    rw [addressed, List.mem_cons, or_iff_left below, Prod.mk.injEq, nodeAt?, Option.some_inj]
    exact ⟨fun same => same.2.symm, fun same => ⟨rfl, same.symm⟩⟩
  | ⟨kind, value, children⟩, number :: address, node => by
    rw [addressed, List.mem_cons, mem_addressedFrom_iff, nodeAt?, Option.bind_eq_some_iff]
    constructor
    · rintro (impossible | ⟨index, address, same, child, found, behind⟩)
      · cases impossible
      · rw [Nat.zero_add] at same
        obtain ⟨rfl, rfl⟩ := List.cons.inj same
        exact ⟨child, found, behind⟩
    · rintro ⟨child, found, behind⟩
      exact .inr ⟨number, address, by rw [Nat.zero_add], child, found, behind⟩

theorem mem_addressedFrom_iff : {number : Nat} → (trees : List Tree) → {address : List Nat} →
    {node : Tree} →
    ((address, node) ∈ addressedFrom number trees ↔
      ∃ index below, address = (number + index) :: below ∧
        ∃ child, trees[index]? = some child ∧ child.nodeAt? below = some node)
  | number, [], address, node => by simp [addressedFrom]
  | number, tree :: trees, address, node => by
    rw [addressedFrom, List.mem_append, List.mem_map, mem_addressedFrom_iff trees]
    constructor
    · rintro (⟨⟨below, node⟩, member, same⟩ | ⟨index, below, rfl, child, found, behind⟩)
      · obtain ⟨rfl, rfl⟩ := Prod.mk.inj same
        exact ⟨0, below, rfl, tree, rfl, (mem_addressed_iff tree).mp member⟩
      · exact ⟨index + 1, below, by rw [Nat.add_assoc, Nat.add_comm 1], child, found, behind⟩
    · rintro ⟨index, below, rfl, child, found, behind⟩
      cases index with
      | zero =>
        obtain rfl := Option.some.inj found
        exact .inl ⟨(below, node), (mem_addressed_iff tree).mpr behind, rfl⟩
      | succ index =>
        exact .inr ⟨index, below, by rw [Nat.add_assoc, Nat.add_comm 1], child, found, behind⟩

end

mutual

/-- Addresses are listed in increasing order, and so none of them is listed twice. -/
theorem pairwise_addressed : (tree : Tree) → (tree.addressed.map Prod.fst).Pairwise (· < ·)
  | ⟨kind, value, children⟩ => by
    rw [addressed, List.map_cons]
    refine List.pairwise_cons.mpr ⟨fun address member => ?_, pairwise_addressedFrom 0 children⟩
    obtain ⟨⟨address, node⟩, among, rfl⟩ := List.mem_map.mp member
    obtain ⟨index, below, rfl, -⟩ := (mem_addressedFrom_iff children).mp among
    exact List.nil_lt_cons _ _

theorem pairwise_addressedFrom (number : Nat) :
    (trees : List Tree) → ((addressedFrom number trees).map Prod.fst).Pairwise (· < ·)
  | [] => .nil
  | tree :: trees => by
    rw [addressedFrom, List.map_append, List.map_map]
    refine List.pairwise_append.mpr ⟨?_, pairwise_addressedFrom (number + 1) trees, ?_⟩
    · refine List.pairwise_map.mpr ((List.pairwise_map.mp (pairwise_addressed tree)).imp fun before => ?_)
      exact List.cons_lt_cons_iff.mpr (.inr ⟨rfl, before⟩)
    · -- Addresses in later children begin with greater numbers.
      intro address first other second
      obtain ⟨entry, -, rfl⟩ := List.mem_map.mp first
      obtain ⟨⟨other, node⟩, among, rfl⟩ := List.mem_map.mp second
      obtain ⟨index, below, rfl, -⟩ := (mem_addressedFrom_iff trees).mp among
      exact List.cons_lt_cons_iff.mpr (.inl (by omega))

end

/-! ## Visitors -/

section

variable {σ : Type} (visitor : σ → Tree → σ)

mutual

/-- Sends a visitor to all nodes of a tree, to each before its children, with what it has made of the nodes
in front of it. -/
def walkWith (kept : σ) : Tree → σ
  | ⟨kind, value, children⟩ => walkAllWith (visitor kept ⟨kind, value, children⟩) children

/-- Sends a visitor to all nodes of several trees, one tree after the other. -/
def walkAllWith (kept : σ) : List Tree → σ
  | [] => kept
  | tree :: trees => walkAllWith (walkWith kept tree) trees

end

mutual

/-- A visitor meets the nodes of the walk one after the other. -/
theorem walkWith_eq_foldl (kept : σ) :
    (tree : Tree) → walkWith visitor kept tree = tree.walk.foldl visitor kept
  | ⟨kind, value, children⟩ => by
    rw [walkWith, walkAllWith_eq_foldl, walk, List.foldl_cons]

theorem walkAllWith_eq_foldl (kept : σ) :
    (trees : List Tree) → walkAllWith visitor kept trees = (walkAll trees).foldl visitor kept
  | [] => rfl
  | tree :: trees => by
    rw [walkAllWith, walkAllWith_eq_foldl, walkWith_eq_foldl kept tree, walkAll_cons, List.foldl_append]

end

end

/-- The visitor that collects the nodes that are wanted. -/
def collect (wanted : Tree → Bool) (found : List Tree) (node : Tree) : List Tree :=
  if wanted node then found ++ [node] else found

theorem foldl_collect (wanted : Tree → Bool) (found nodes : List Tree) :
    nodes.foldl (collect wanted) found = found ++ nodes.filter wanted := by
  induction nodes generalizing found with
  | nil => rw [List.foldl_nil, List.filter_nil, List.append_nil]
  | cons node nodes ih =>
    rw [List.foldl_cons, ih, collect, List.filter_cons]
    split
    · rw [List.append_assoc, List.singleton_append]
    · rfl

/-! ## Listings -/

mutual

/-- Two listings with something behind each of them are equal only if the trees are, and so is what is behind
them. -/
theorem eq_of_visits_append : (a b : Tree) → {behind other : List Visit} →
    a.visits ++ behind = b.visits ++ other → a = b ∧ behind = other
  | ⟨kind, value, children⟩, ⟨kind', value', children'⟩, behind, other, same => by
    -- The first visit tells how many children there are, and so where what is behind them begins.
    obtain ⟨first, rest⟩ := List.cons.inj same
    obtain ⟨rfl, rfl, arity⟩ := Visit.mk.inj first
    obtain ⟨rfl, rfl⟩ := eq_of_visitsAll_append children children' arity rest
    exact ⟨rfl, rfl⟩

theorem eq_of_visitsAll_append : (as bs : List Tree) → {behind other : List Visit} →
    as.length = bs.length → (walkAll as).map visit ++ behind = (walkAll bs).map visit ++ other →
    as = bs ∧ behind = other
  | [], [], behind, other, _, same => ⟨rfl, same⟩
  | a :: as, b :: bs, behind, other, lengths, same => by
    rw [walkAll_cons, walkAll_cons, List.map_append, List.map_append, List.append_assoc,
      List.append_assoc] at same
    obtain ⟨rfl, others⟩ := eq_of_visits_append a b same
    obtain ⟨rfl, rfl⟩ := eq_of_visitsAll_append as bs (Nat.succ.inj lengths) others
    exact ⟨rfl, rfl⟩

end

/-- Trees are equal if they are equal as serialised values, and if their walks show the same. The walk comes
to every address of the tree once and in increasing order, each visitor meets the nodes of the walk one after
the other, and the placeholders are those nodes of it that are placeholders, which is what a visitor collects
that wants them. -/
theorem views_determine_tree (a b : Tree) :
    [a = b, a.toJson = b.toJson, a.toJson.Same b.toJson, a.visits = b.visits].TFAE ∧
      (∃ addressed : List (List Nat × Tree), addressed.map Prod.snd = a.walk ∧
        (addressed.map Prod.fst).Pairwise (· < ·) ∧
        ∀ address node, (address, node) ∈ addressed ↔ a.nodeAt? address = some node) ∧
      (∀ (σ : Type) (visitor : σ → Tree → σ) (start : σ),
        walkWith visitor start a = a.walk.foldl visitor start) ∧
      a.placeholders = a.walk.filter isPlaceholder ∧
      walkWith (collect isPlaceholder) [] a = a.placeholders := by
  refine ⟨?_, ⟨a.addressed, map_snd_addressed a, pairwise_addressed a, fun _ _ => mem_addressed_iff a⟩,
    fun _ visitor start => walkWith_eq_foldl visitor start a, rfl, ?_⟩
  · tfae_have 1 → 2 := congrArg toJson
    tfae_have 2 → 3 := fun same => same ▸ Json.Same.refl a.toJson
    tfae_have 3 → 1 := eq_of_same_toJson a b
    tfae_have 1 → 4 := congrArg visits
    tfae_have 4 → 1 := fun same => (eq_of_visits_append a b (congrArg (· ++ []) same)).1
    tfae_finish
  · rw [walkWith_eq_foldl, foldl_collect, List.nil_append]
    rfl

end FuncLang.Tree
