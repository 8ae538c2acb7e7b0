import Mathlib.Algebra.Order.BigOperators.Group.List
import Mathlib.Algebra.Order.Ring.Nat
import FlowFold.Proofs.Equations

/-! # How far an analysis has come

An entry of an environment is absent, unknown or constant, and counts 0, 1 or 2. The
potential of a family of environments adds this up over all live nodes and all keys that
live nodes record. It is at most twice the number of nodes times the number of keys, and
it grows with every environment that is replaced by one that says more.
-/

namespace FlowFold

/-- How far an entry has come. -/
def Fact.rank : Option Fact → Nat
  | none => 0
  | some (.unknown _) => 1
  | some (.known _) => 2

theorem Fact.rank_le (entry : Option Fact) : Fact.rank entry ≤ 2 := by
  unfold rank
  split <;> omega

namespace Env

def rank (keys : List Key) (env : Env) : Nat := (keys.map fun k => Fact.rank env[k]?).sum

theorem rank_le (keys : List Key) (env : Env) : env.rank keys ≤ 2 * keys.length := by
  have each : ∀ r ∈ keys.map fun k => Fact.rank env[k]?, r ≤ 2 := by
    intro r member
    obtain ⟨k, -, rfl⟩ := List.mem_map.mp member
    exact Fact.rank_le _
  simpa [rank, Nat.mul_comm] using List.sum_le_card_nsmul _ 2 each

variable {a b : Env}

theorem Below.rank_entry (below : a.Below b) (k : Key) : Fact.rank a[k]? ≤ Fact.rank b[k]? := by
  cases inA : a[k]? with
  | none => exact Nat.zero_le _
  | some fact =>
      cases fact with
      | known v => rw [below.known k v inA]
      | unknown unused =>
          obtain ⟨fact, inB⟩ := mem_iff_entry.mp (below.keys k (mem_iff_entry.mpr ⟨_, inA⟩))
          rw [inB]
          cases fact <;> simp [Fact.rank]

/-- If no entry has come further, the environment that says more says the same. -/
theorem Below.eq_of_rank (plainA : a.Plain) (plainB : b.Plain) (below : a.Below b)
    (level : ∀ k ∈ b, Fact.rank b[k]? ≤ Fact.rank a[k]?) : a = b := by
  refine Below.antisymm plainA plainB below ⟨fun k member => ?_, fun k v inB => ?_⟩
  · have least := level k member
    obtain ⟨fact, inB⟩ := mem_iff_entry.mp member
    by_contra absent
    rw [inB, Std.ExtTreeMap.getElem?_eq_none absent] at least
    cases fact <;> simp [Fact.rank] at least
  · have least := level k (mem_iff_entry.mpr ⟨_, inB⟩)
    rw [inB] at least
    cases inA : a[k]? with
    | none => simp [inA, Fact.rank] at least
    | some fact =>
        cases fact with
        | unknown => simp [inA, Fact.rank] at least
        | known w =>
            rw [below.known k w inA] at inB
            exact inB

theorem Below.rank_lt (plainA : a.Plain) (plainB : b.Plain) (below : a.Below b) (different : a ≠ b)
    {keys : List Key} (cover : ∀ k ∈ b, k ∈ keys) : a.rank keys < b.rank keys := by
  refine List.sum_lt_sum _ _ (fun k _ => below.rank_entry k) ?_
  by_contra level
  refine different (below.eq_of_rank plainA plainB fun k member => ?_)
  by_contra less
  exact level ⟨k, cover k member, Nat.lt_of_not_le less⟩

end Env

namespace Graph

/-- The keys that environments can have: the variables that live nodes assign, and the
    live nodes with an expression that assign none. -/
def keys (g : Graph) : List Key :=
  (g.walk.filterMap fun n =>
    match n.instr with
    | .assign name _ _ => some name
    | _ => none).eraseDups.map Key.var ++
  (g.walk.filter fun n =>
    match n.instr with
    | .ret _ | .branch .. | .loop .. => true
    | _ => false).map (Key.expr ·.id)

theorem length_keys (g : Graph) : g.keys.length = g.keyCount := by
  unfold keys
  rw [List.length_append, List.length_map, List.length_map, ← List.countP_eq_length_filter]
  rfl

theorem Arena.mem_keys {g : Graph} (arena : g.Arena) {k : Key} (records : g.Records k) : k ∈ g.keys := by
  obtain ⟨id, ⟨own, instr⟩, live, found, hasKey⟩ := records
  have walked : ⟨own, instr⟩ ∈ g.walk :=
    List.mem_filterMap.mpr ⟨id, arena.mem_reachable.mpr live, found⟩
  unfold keys
  rw [List.mem_append]
  cases instr with
  | quit => cases hasKey
  | assign name value next =>
      cases hasKey
      refine .inl (List.mem_map.mpr ⟨name, List.mem_eraseDups.mpr ?_, rfl⟩)
      exact List.mem_filterMap.mpr ⟨_, walked, rfl⟩
  | ret | branch | loop =>
      cases hasKey
      exact .inr (List.mem_map.mpr ⟨_, List.mem_filter.mpr ⟨walked, rfl⟩, rfl⟩)

/-- How far the environments of all live nodes have come. -/
def potential (g : Graph) (out : OutMap) : Nat :=
  (g.reachable.map fun id => (out.getD id ∅).rank g.keys).sum

theorem potential_le (g : Graph) (out : OutMap) :
    g.potential out ≤ 2 * (g.reachable.length * g.keyCount) := by
  have each : ∀ r ∈ g.reachable.map fun id => (out.getD id ∅).rank g.keys, r ≤ 2 * g.keyCount := by
    intro r member
    obtain ⟨id, -, rfl⟩ := List.mem_map.mp member
    rw [← length_keys]
    exact Env.rank_le _ _
  calc
    g.potential out ≤ g.reachable.length * (2 * g.keyCount) := by
      simpa [potential] using List.sum_le_card_nsmul _ _ each
    _ = 2 * (g.reachable.length * g.keyCount) := Nat.mul_left_comm _ _ _

theorem potential_insert_lt {g : Graph} {out : OutMap} {id : NodeId} {env : Env}
    (walked : id ∈ g.reachable) (higher : (out.getD id ∅).rank g.keys < env.rank g.keys) :
    g.potential out < g.potential (out.insert id env) := by
  refine List.sum_lt_sum _ _ (fun other _ => ?_) ⟨id, walked, ?_⟩
  · rw [Std.ExtTreeMap.getD_insert]
    split
    · rename_i same
      obtain rfl : id = other := by simpa using same
      exact Nat.le_of_lt higher
    · exact Nat.le_refl _
  · rwa [Std.ExtTreeMap.getD_insert_self]

end Graph

end FlowFold
