import Mathlib.Order.Bounds.Basic
import GroupBench.Proofs.Store.Graph

/-! How far down a root leads. Its layers come to an end just if there is no cycle below it, and the
first empty one tells how many groups are on the longest way down. -/
namespace GroupBench.Store
variable {s : Store} {root group member : GroupId} {n : Nat}

theorem layer_eq_nil_iff {layer : List GroupId} :
    s.expand^[n] layer = [] ↔ ∀ group ∈ layer, s.expand^[n] [group] = [] := by
  induction layer with
  | nil => simp [layer_nil]
  | cons group rest ih =>
    rw [← List.singleton_append, layer_append, List.append_eq_nil_iff, ih]
    simp

/-- Below a member the layers come to an end one earlier. -/
theorem layer_eq_nil_of_hasSubgroup (hnil : s.expand^[n + 1] [group] = [])
    (hedge : s.HasSubgroup group member) : s.expand^[n] [member] = [] := by
  rw [Function.iterate_succ_apply, expand_singleton, layer_eq_nil_iff] at hnil
  exact hnil member (s.mem_subgroupsOf.2 hedge)

theorem layer_ne_nil_of_cycle (hcycle : Relation.TransGen s.HasSubgroup group group) (n : Nat) :
    s.expand^[n] [group] ≠ [] := by
  -- The next group of the cycle is on a cycle too, so the induction is on every group of it.
  induction n generalizing group with
  | zero => simp
  | succ n ih =>
    intro hnil
    obtain ⟨next, hedge, hback⟩ := Relation.TransGen.head'_iff.1 hcycle
    exact ih (Relation.TransGen.tail' hback hedge) (layer_eq_nil_of_hasSubgroup hnil hedge)

theorem layer_eq_nil_of_reachable (hnil : s.expand^[n] [root] = [])
    (hreach : Relation.ReflTransGen s.HasSubgroup root group) : s.expand^[n] [group] = [] := by
  induction hreach with
  | refl => exact hnil
  | tail _ hedge ih =>
    exact layer_eq_nil_of_hasSubgroup (layer_eq_nil_of_le ih (Nat.le_succ n)) hedge

theorem acyclicFrom_iff : s.AcyclicFrom root ↔ ∃ n, s.expand^[n] [root] = [] := by
  refine ⟨fun hacyclic => hacyclic.exists_layer_eq_nil, ?_⟩
  rintro ⟨n, hnil⟩ group hreach hcycle
  exact layer_ne_nil_of_cycle hcycle n (layer_eq_nil_of_reachable hnil hreach)

/-- So many groups are on the longest way down from a root, the root among them. -/
def IsHeight (s : Store) (root : GroupId) (height : Nat) : Prop :=
  IsGreatest {n | ∃ path, (root :: path).IsChain s.HasSubgroup ∧ (root :: path).length = n} height

theorem exists_isHeight (hacyclic : s.AcyclicFrom root) :
    ∃ height, s.IsHeight root height ∧ s.expand^[height] [root] = [] := by
  classical
  have hends := hacyclic.exists_layer_eq_nil
  have hnil := Nat.find_spec hends
  have hpos : Nat.find hends ≠ 0 := by
    intro hzero
    rw [hzero] at hnil
    cases hnil
  obtain ⟨last, hlast⟩ := Nat.exists_eq_succ_of_ne_zero hpos
  refine ⟨_, ⟨?_, ?_⟩, hnil⟩
  · have hlayer := Nat.find_min hends (m := last) (by omega)
    obtain ⟨path, hlength, hchain⟩ := layer_ne_nil_iff.1 hlayer
    exact ⟨path, hchain, by rw [hlast, List.length_cons, hlength]⟩
  · rintro _ ⟨path, hchain, rfl⟩
    have hlayer := layer_ne_nil_iff.2 ⟨path, rfl, hchain⟩
    rw [List.length_cons]
    by_contra hlong
    exact hlayer (layer_eq_nil_of_le hnil (by omega))

end GroupBench.Store
