import Mathlib.Data.Fintype.EquivFin
import Mathlib.Data.Set.Card
import Mathlib.Order.WellFounded
import GroupBench.Proofs.Store.Paging

/-! The graph that a store holds: groups lead to subgroups and to users. The layers of a
breadth-first traversal hold one entry for each path, so a group is in them as often as there are
paths to it. -/
namespace GroupBench

instance : Finite GroupId :=
  Finite.of_injective (fun id : GroupId => id.bits.toFin) fun _ _ h =>
    GroupId.ext (BitVec.eq_of_toFin_eq h)

namespace Store
variable (s : Store)

def HasSubgroup (group member : GroupId) : Prop := (s.edgesOf group)[member]? = some .subgroup

def HasUser (group member : GroupId) : Prop := (s.edgesOf group)[member]? = some .user

/-- The groups that one row after the other leads to. -/
def subgroupsIn (rows : List MemberRow) : List GroupId :=
  (rows.filter fun row => row.2.isSubgroup).map Prod.fst

/-- The subgroups of a group in ascending order. -/
def subgroupsOf (group : GroupId) : List GroupId := subgroupsIn (s.membersOf group)

/-- The groups at a root and below it. -/
abbrev Below (root : GroupId) := {group // Relation.ReflTransGen s.HasSubgroup root group}

/-- No cycle of subgroups can be reached from a root. -/
def AcyclicFrom (root : GroupId) : Prop :=
  ∀ group, Relation.ReflTransGen s.HasSubgroup root group →
    ¬ Relation.TransGen s.HasSubgroup group group

/-- The groups that a path from the root visits after it. There are no two edges between the same
groups, so a path is what it visits. -/
structure IsPath (root : GroupId) (path : List GroupId) : Prop where
  nonempty : path ≠ []
  chain : (root :: path).IsChain s.HasSubgroup

theorem mem_subgroupsOf {group member : GroupId} :
    member ∈ s.subgroupsOf group ↔ s.HasSubgroup group member := by
  rw [subgroupsOf, subgroupsIn, List.mem_map, HasSubgroup]
  constructor
  · rintro ⟨⟨id, kind⟩, hrow, rfl⟩
    obtain ⟨hmember, hkind⟩ := List.mem_filter.1 hrow
    cases kind with
    | user => cases hkind
    | subgroup => exact s.mem_membersOf.1 hmember
  · intro h
    exact ⟨(member, .subgroup), List.mem_filter.2 ⟨s.mem_membersOf.2 h, rfl⟩, rfl⟩

theorem subgroupsOf_sorted (group : GroupId) : (s.subgroupsOf group).Pairwise (· < ·) :=
  List.pairwise_map.2 ((s.membersOf_sorted group).filter _)

theorem subgroupsOf_nodup (group : GroupId) : (s.subgroupsOf group).Nodup := by
  refine (s.subgroupsOf_sorted group).imp ?_
  rintro a _ hlt rfl
  exact GroupId.lt_irrefl a hlt

theorem subgroupsIn_flatMap (batch : List GroupId) :
    subgroupsIn (batch.flatMap s.membersOf) = batch.flatMap s.subgroupsOf := by
  induction batch with
  | nil => rfl
  | cons group rest ih =>
    rw [List.flatMap_cons, List.flatMap_cons, ← ih, subgroupsOf, subgroupsIn, subgroupsIn,
      subgroupsIn, List.filter_append, List.map_append]

theorem hasSubgroup_link {group member : GroupId} {kind : MemberKind} {a b : GroupId}
    (h : (s.link group member kind).HasSubgroup a b) :
    a = group ∧ b = member ∧ kind = .subgroup ∨ s.HasSubgroup a b := by
  rw [HasSubgroup, edgesOf_link] at h
  split at h
  · rename_i hgroup
    rw [Std.ExtTreeMap.getElem?_insert] at h
    split at h
    · rename_i hmember
      exact .inl ⟨hgroup.symm, (Std.LawfulEqCmp.eq_of_compare hmember).symm, Option.some.inj h⟩
    · exact .inr (hgroup ▸ h)
  · exact .inr h

/-- Subgroups lie at lower levels. -/
def Descends : Prop := ∀ group member, s.HasSubgroup group member → member.level < group.level

theorem descends_empty : empty.Descends := by
  intro group member h
  simp [HasSubgroup] at h

variable {s} in
theorem Descends.link (hs : s.Descends) {group member : GroupId} {kind : MemberKind}
    (hlt : kind = .subgroup → member.level < group.level) :
    (s.link group member kind).Descends := by
  intro a b h
  rcases s.hasSubgroup_link h with ⟨rfl, rfl, hkind⟩ | h
  · exact hlt hkind
  · exact hs a b h

variable {s} in
theorem Descends.acyclicFrom (hs : s.Descends) (root : GroupId) : s.AcyclicFrom root := by
  intro group _ hcycle
  have hlt {a b : GroupId} (h : Relation.TransGen s.HasSubgroup a b) : b.level < a.level := by
    induction h with
    | single h => exact hs _ _ h
    | tail _ h ih => exact UInt16.lt_trans (hs _ _ h) ih
  exact UInt16.lt_irrefl _ (hlt hcycle)

/-- Two paths lead from the top group to the bottom one, which has a user. -/
def diamond : Store :=
  ((((empty.link (.ofPosition 3 0) (.ofPosition 2 0) .subgroup).link
    (.ofPosition 3 0) (.ofPosition 2 1) .subgroup).link
    (.ofPosition 2 0) (.ofPosition 1 0) .subgroup).link
    (.ofPosition 2 1) (.ofPosition 1 0) .subgroup).link
    (.ofPosition 1 0) (.ofPosition 0 0) .user

theorem diamond_descends : diamond.Descends := by
  refine ((((descends_empty.link ?_).link ?_).link ?_).link ?_).link ?_
  all_goals decide

/-- One layer further down, repeats kept. -/
def expand (layer : List GroupId) : List GroupId := layer.flatMap s.subgroupsOf

section Layers
variable {s} {n k : Nat} {root group : GroupId}

theorem expand_append (a b : List GroupId) : s.expand (a ++ b) = s.expand a ++ s.expand b :=
  List.flatMap_append

theorem expand_singleton (group : GroupId) : s.expand [group] = s.subgroupsOf group :=
  List.flatMap_singleton _ _

theorem layer_nil (n : Nat) : s.expand^[n] [] = [] := by
  induction n with
  | zero => rfl
  | succ n ih =>
    rw [Function.iterate_succ_apply]
    exact ih

theorem layer_append (n : Nat) (a b : List GroupId) :
    s.expand^[n] (a ++ b) = s.expand^[n] a ++ s.expand^[n] b := by
  induction n generalizing a b with
  | zero => rfl
  | succ n ih => rw [Function.iterate_succ_apply, expand_append, ih]; rfl

theorem layer_eq_nil_of_le {layer : List GroupId} (hnil : s.expand^[n] layer = []) (hle : n ≤ k) :
    s.expand^[k] layer = [] := by
  obtain ⟨j, rfl⟩ := Nat.exists_eq_add_of_le' hle
  rw [Function.iterate_add_apply, hnil, layer_nil]

theorem reachable_iff_mem_layer :
    Relation.ReflTransGen s.HasSubgroup root group ↔ ∃ n, group ∈ s.expand^[n] [root] := by
  constructor
  · intro h
    induction h with
    | refl => exact ⟨0, List.mem_singleton_self root⟩
    | tail _ hedge ih =>
      obtain ⟨n, hn⟩ := ih
      refine ⟨n + 1, ?_⟩
      rw [Function.iterate_succ_apply']
      exact List.mem_flatMap.2 ⟨_, hn, s.mem_subgroupsOf.2 hedge⟩
  · rintro ⟨n, hn⟩
    induction n generalizing group with
    | zero => rw [List.mem_singleton.1 hn]
    | succ n ih =>
      rw [Function.iterate_succ_apply'] at hn
      obtain ⟨via, hvia, hgroup⟩ := List.mem_flatMap.1 hn
      exact (ih hvia).tail (s.mem_subgroupsOf.1 hgroup)

/-- Layers below several groups run out when those below each of them do. -/
theorem exists_layer_eq_nil_of_forall (layer : List GroupId)
    (h : ∀ group ∈ layer, ∃ n, s.expand^[n] [group] = []) : ∃ n, s.expand^[n] layer = [] := by
  induction layer with
  | nil => exact ⟨0, rfl⟩
  | cons group rest ih =>
    obtain ⟨m, hm⟩ := h group List.mem_cons_self
    obtain ⟨n, hn⟩ := ih fun g hg => h g (List.mem_cons_of_mem _ hg)
    refine ⟨m + n, ?_⟩
    rw [← List.singleton_append, layer_append, layer_eq_nil_of_le hm (Nat.le_add_right m n),
      layer_eq_nil_of_le hn (Nat.le_add_left n m), List.append_nil]

/-- There are finitely many groups, so without a cycle there is no endless way down. -/
theorem AcyclicFrom.wellFounded (h : s.AcyclicFrom root) :
    WellFounded fun a b : s.Below root => s.HasSubgroup b.1 a.1 := by
  have : IsTrans (s.Below root) fun a b => Relation.TransGen s.HasSubgroup b.1 a.1 :=
    ⟨fun _ _ _ hab hbc => hbc.trans hab⟩
  have : Std.Irrefl fun a b : s.Below root => Relation.TransGen s.HasSubgroup b.1 a.1 :=
    ⟨fun a => h a.1 a.2⟩
  have hwf := Finite.wellFounded_of_trans_of_irrefl fun a b : s.Below root =>
    Relation.TransGen s.HasSubgroup b.1 a.1
  exact Subrelation.wf (fun hedge => Relation.TransGen.single hedge) hwf

theorem AcyclicFrom.exists_layer_eq_nil (h : s.AcyclicFrom root) :
    ∃ n, s.expand^[n] [root] = [] := by
  -- The induction goes up from the groups without subgroups, so it is on every group below the root.
  have hall (g : s.Below root) : ∃ n, s.expand^[n] [g.1] = [] := by
    induction g using h.wellFounded.induction with
    | h g ih =>
      obtain ⟨n, hn⟩ := exists_layer_eq_nil_of_forall (s.subgroupsOf g.1) fun member hmember =>
        ih ⟨member, g.2.tail (s.mem_subgroupsOf.1 hmember)⟩ (s.mem_subgroupsOf.1 hmember)
      refine ⟨n + 1, ?_⟩
      rw [Function.iterate_succ_apply, expand_singleton, hn]
  exact hall ⟨root, .refl⟩

end Layers

/-- The paths of `n` edges that start at a group. -/
def walks : Nat → GroupId → List (List GroupId)
  | 0, _ => [[]]
  | n + 1, group => (s.subgroupsOf group).flatMap fun next => (walks n next).map (next :: ·)

section Walks
variable {s} {n : Nat} {root : GroupId}

theorem mem_walks {n : Nat} {group : GroupId} {path : List GroupId} :
    path ∈ s.walks n group ↔ path.length = n ∧ (group :: path).IsChain s.HasSubgroup := by
  induction n generalizing group path with
  | zero =>
    rw [walks, List.mem_singleton, List.length_eq_zero_iff]
    constructor
    · rintro rfl
      exact ⟨rfl, List.isChain_singleton group⟩
    · exact And.left
  | succ n ih =>
    rw [walks, List.mem_flatMap]
    constructor
    · rintro ⟨next, hnext, hpath⟩
      obtain ⟨rest, hrest, rfl⟩ := List.mem_map.1 hpath
      obtain ⟨hlen, hchain⟩ := ih.1 hrest
      exact ⟨congrArg Nat.succ hlen,
        List.isChain_cons_cons.2 ⟨s.mem_subgroupsOf.1 hnext, hchain⟩⟩
    · rintro ⟨hlen, hchain⟩
      cases path with
      | nil => cases hlen
      | cons next rest =>
        obtain ⟨hedge, hchain⟩ := List.isChain_cons_cons.1 hchain
        exact ⟨next, s.mem_subgroupsOf.2 hedge,
          List.mem_map.2 ⟨rest, ih.2 ⟨Nat.succ.inj hlen, hchain⟩, rfl⟩⟩

theorem walks_nodup (n : Nat) (group : GroupId) : (s.walks n group).Nodup := by
  induction n generalizing group with
  | zero => exact List.nodup_singleton []
  | succ n ih =>
    refine List.nodup_flatMap.2 ⟨fun next _ => ?_, ?_⟩
    · exact (ih next).map fun _ _ h => List.tail_eq_of_cons_eq h
    · refine (s.subgroupsOf_nodup group).imp fun hne path hleft hright => ?_
      obtain ⟨_, -, rfl⟩ := List.mem_map.1 hleft
      obtain ⟨_, -, h⟩ := List.mem_map.1 hright
      exact hne (List.head_eq_of_cons_eq h).symm

theorem length_walks_succ (n : Nat) (group : GroupId) : (s.walks (n + 1) group).length =
    ((s.subgroupsOf group).map fun next => (s.walks n next).length).sum := by
  simp only [walks, List.length_flatMap, List.length_map]

theorem sum_expand (f : GroupId → Nat) (layer : List GroupId) :
    ((s.expand layer).map f).sum =
      (layer.map fun group => ((s.subgroupsOf group).map f).sum).sum := by
  induction layer with
  | nil => rfl
  | cons group rest ih =>
    rw [expand, List.flatMap_cons, List.map_append, List.sum_append, ← expand, ih, List.map_cons,
      List.sum_cons]

theorem length_layer (n : Nat) (layer : List GroupId) :
    (s.expand^[n] layer).length = (layer.map fun group => (s.walks n group).length).sum := by
  induction n generalizing layer with
  | zero => simp [walks]
  | succ n ih =>
    rw [Function.iterate_succ_apply, ih, sum_expand]
    simp only [length_walks_succ]

theorem length_layer_root (n : Nat) (root : GroupId) :
    (s.expand^[n] [root]).length = (s.walks n root).length := by
  rw [length_layer, List.map_singleton, List.sum_singleton]

/-- A layer is there just if a path leads down to it. -/
theorem layer_ne_nil_iff : s.expand^[n] [root] ≠ [] ↔
    ∃ path, path.length = n ∧ (root :: path).IsChain s.HasSubgroup := by
  rw [← List.length_pos_iff, length_layer_root, List.length_pos_iff_exists_mem]
  simp only [mem_walks]

/-- Every path is shorter than the depth of the layers, and the layers below the root have one entry
for each. -/
theorem encard_paths (hnil : s.expand^[n] [root] = []) :
    {path | s.IsPath root path}.encard =
      (((List.range n).map fun k => (s.expand^[k + 1] [root]).length).sum : Nat) := by
  have hpaths : {path | s.IsPath root path} =
      (((List.range n).flatMap fun k => s.walks (k + 1) root).toFinset : Set (List GroupId)) := by
    ext path
    rw [List.coe_toFinset, Set.mem_ofPred_eq, Set.mem_ofPred_eq, List.mem_flatMap]
    constructor
    · rintro ⟨hne, hchain⟩
      obtain ⟨k, hk⟩ := Nat.exists_eq_succ_of_ne_zero (mt List.length_eq_zero_iff.1 hne)
      have hmem : path ∈ s.walks (k + 1) root := mem_walks.2 ⟨hk, hchain⟩
      refine ⟨k, List.mem_range.2 (Nat.lt_of_not_le fun hle => ?_), hmem⟩
      exact layer_ne_nil_iff.2 ⟨path, hk, hchain⟩
        (layer_eq_nil_of_le hnil (Nat.le_succ_of_le hle))
    · rintro ⟨k, -, hmem⟩
      obtain ⟨hlen, hchain⟩ := mem_walks.1 hmem
      exact ⟨List.ne_nil_of_length_eq_add_one hlen, hchain⟩
  have hnodup : ((List.range n).flatMap fun k => s.walks (k + 1) root).Nodup := by
    refine List.nodup_flatMap.2 ⟨fun k _ => walks_nodup (k + 1) root, ?_⟩
    refine List.nodup_range.imp fun hne path hleft hright => ?_
    have hleft := (mem_walks.1 hleft).1
    have hright := (mem_walks.1 hright).1
    omega
  rw [hpaths, Set.encard_coe_eq_coe_finsetCard, List.toFinset_card_of_nodup hnodup,
    List.length_flatMap]
  simp only [length_layer_root]

end Walks

end Store

end GroupBench
