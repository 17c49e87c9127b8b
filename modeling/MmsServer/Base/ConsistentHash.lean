import Mathlib.Order.Fin.Basic
import MmsServer.Lib.KeyRing

namespace MmsServer.Base.ConsistentHash

open Lib.KeyRing

structure VNode (N : Type) where
  key : String
  rnode : N

abbrev HashValue := Fin (2 ^ 64)

structure ConsitentHashRing (N : Type) where
  vnCount : ℕ
  vnodesMap : List (HashValue × VNode N)
  realNodes : List N
  ascending : Ascending vnodesMap

variable {N : Type} (getKey : N → String) (hash : String → HashValue)

def vnode (n : N) (idx : ℕ) : VNode N := ⟨getKey n ++ "/" ++ toString idx, n⟩

/-- The virtual nodes overwrite what they collide with. -/
def placeVNodes (n : N) (vnCount : ℕ) (m : List (HashValue × VNode N)) :
    List (HashValue × VNode N) :=
  (List.range vnCount).foldl (fun m i ↦
    assign (hash (vnode getKey n i).key) (vnode getKey n i) m) m

theorem ascending_placeVNodes (n : N) (vnCount : ℕ) {m : List (HashValue × VNode N)}
    (hm : Ascending m) : Ascending (placeVNodes getKey hash n vnCount m) := by
  induction vnCount with
  | zero => exact hm
  | succ c ih =>
    rw [placeVNodes, List.range_succ, List.foldl_append]
    exact ascending_assign ih _ _

namespace ConsitentHashRing

theorem nil_ascending : Ascending ([] : List (HashValue × VNode N)) := List.Pairwise.nil

def new (vnCount : ℕ) : ConsitentHashRing N := ⟨vnCount, [], [], nil_ascending⟩

def addNodeCount (s : ConsitentHashRing N) (n : N) (vnCount : ℕ) : ConsitentHashRing N :=
  { s with
    vnodesMap := placeVNodes getKey hash n vnCount s.vnodesMap
    realNodes := s.realNodes ++ [n]
    ascending := ascending_placeVNodes getKey hash n vnCount s.ascending }

def addNode (s : ConsitentHashRing N) (n : N) : ConsitentHashRing N :=
  s.addNodeCount getKey hash n s.vnCount

def removeNode [DecidableEq N] (s : ConsitentHashRing N) (n : N) : ConsitentHashRing N :=
  { s with
    vnodesMap := s.vnodesMap.filter fun e ↦ e.2.rnode ≠ n
    realNodes := s.realNodes.erase n
    ascending := ascending_filter s.ascending _ }

def clear (s : ConsitentHashRing N) : ConsitentHashRing N :=
  { s with vnodesMap := [], realNodes := [], ascending := nil_ascending }

/-- The return code −1 is an error, and so is −2 below. -/
def getNode (s : ConsitentHashRing N) (v : String) : Except ℤ N :=
  match lowerBound s.vnodesMap (hash v) with
  | it :: _ => .ok it.2.rnode
  | [] =>
    match s.vnodesMap with
    | [] => .error (-1)
    | it :: _ => .ok it.2.rnode

def scan (excludeFun : N → Bool) : List (HashValue × VNode N) → Option N
  | [] => none
  | it :: rest => if excludeFun it.2.rnode then scan excludeFun rest else some it.2.rnode

def getNodeExcluding (s : ConsitentHashRing N) (v : String) (excludeFun : N → Bool) :
    Except ℤ N :=
  if s.vnodesMap.isEmpty then .error (-1)
  else
    match scan excludeFun (lowerBound s.vnodesMap (hash v)) with
    | some n => .ok n
    | none =>
      match scan excludeFun (below s.vnodesMap (hash v)) with
      | some n => .ok n
      | none => .error (-2)

def nodesOnRing (s : ConsitentHashRing N) : List N := s.vnodesMap.map fun e ↦ e.2.rnode

def removeNodes [DecidableEq N] (s : ConsitentHashRing N) (ns : List N) : ConsitentHashRing N :=
  ns.foldl removeNode s

end ConsitentHashRing

open ConsitentHashRing

inductive Op (N : Type)
  | addNode (n : N)
  | addNodeCount (n : N) (vnCount : ℕ)
  | removeNode (n : N)
  | clear

def Op.apply [DecidableEq N] (s : ConsitentHashRing N) : Op N → ConsitentHashRing N
  | .addNode n => s.addNode getKey hash n
  | .addNodeCount n vnCount => s.addNodeCount getKey hash n vnCount
  | .removeNode n => s.removeNode n
  | .clear => s.clear

section Walk

variable {getKey hash} (s : ConsitentHashRing N) (v : String)

/-- `get_node` answers with the front of the walk around the ring. -/
theorem getNode_eq : s.getNode hash v =
    match (around s.vnodesMap (hash v)).head? with
    | none => .error (-1)
    | some it => .ok it.2.rnode := by
  have hsplit := List.takeWhile_append_dropWhile (p := fun e : HashValue × VNode N ↦
    decide (e.1 < hash v)) (l := s.vnodesMap)
  rw [getNode, around]
  cases hlow : lowerBound s.vnodesMap (hash v) with
  | cons it rest => rfl
  | nil =>
    have hall : below s.vnodesMap (hash v) = s.vnodesMap := by
      rw [lowerBound] at hlow
      rw [hlow, List.append_nil] at hsplit
      exact hsplit
    rw [List.nil_append, hall]
    cases s.vnodesMap with
    | nil => rfl
    | cons it rest => rfl

theorem getNode_ok {m : N} : s.getNode hash v = .ok m ↔
    ∃ it, (around s.vnodesMap (hash v)).head? = some it ∧ it.2.rnode = m := by
  rw [getNode_eq]
  cases (around s.vnodesMap (hash v)).head? with
  | none => simp
  | some it => simp

theorem scan_eq (excludeFun : N → Bool) (es : List (HashValue × VNode N)) :
    scan excludeFun es =
      (es.filter fun e ↦ !excludeFun e.2.rnode).head?.map fun e ↦ e.2.rnode := by
  induction es with
  | nil => rfl
  | cons it rest ih =>
    rw [scan]
    by_cases h : excludeFun it.2.rnode
    · rw [if_pos h, ih, List.filter_cons_of_neg (by simpa using h)]
    · rw [if_neg h, List.filter_cons_of_pos (by simpa using h)]
      rfl

/-- The walk around the ring that is left without the excluded nodes. -/
theorem getNodeExcluding_ok (excludeFun : N → Bool) {m : N} :
    s.getNodeExcluding hash v excludeFun = .ok m ↔
      ∃ it, (around (s.vnodesMap.filter fun e ↦ !excludeFun e.2.rnode) (hash v)).head? = some it ∧
        it.2.rnode = m := by
  rw [← s.ascending.filter_around, around, List.filter_append, List.head?_append,
    getNodeExcluding]
  cases hm : s.vnodesMap with
  | nil => simp [lowerBound, below]
  | cons f rest =>
    rw [List.isEmpty_cons, if_neg Bool.false_ne_true, scan_eq, scan_eq]
    cases ((lowerBound (f :: rest) (hash v)).filter fun e ↦ !excludeFun e.2.rnode).head? with
    | some it => simp
    | none =>
      cases ((below (f :: rest) (hash v)).filter fun e ↦ !excludeFun e.2.rnode).head? with
      | some it => simp
      | none => simp

end Walk

section Moves

variable [DecidableEq N] (s : ConsitentHashRing N) (v : String)

theorem removeNode_keeps {n m : N} (hm : s.getNode hash v = .ok m) (hne : m ≠ n) :
    (s.removeNode n).getNode hash v = .ok m := by
  obtain ⟨it, hit, hnode⟩ := (getNode_ok s v).mp hm
  refine (getNode_ok (s.removeNode n) v).mpr ⟨it, ?_, hnode⟩
  rw [removeNode, ← s.ascending.filter_around]
  cases hw : around s.vnodesMap (hash v) with
  | nil =>
    rw [hw] at hit
    cases hit
  | cons e rest =>
    rw [hw] at hit
    cases hit
    rw [List.filter_cons_of_pos (by simpa [hnode] using hne)]
    rfl

omit [DecidableEq N] in
theorem placeVNodes_head (n : N) (vnCount : ℕ) {m : List (HashValue × VNode N)} (hm : Ascending m)
    (k : HashValue) :
    (∃ it, (around (placeVNodes getKey hash n vnCount m) k).head? = some it ∧ it.2.rnode = n) ∨
      (around (placeVNodes getKey hash n vnCount m) k).head? = (around m k).head? := by
  induction vnCount with
  | zero => exact .inr rfl
  | succ c ih =>
    have hc := ascending_placeVNodes getKey hash n c hm
    rw [placeVNodes, List.range_succ, List.foldl_append]
    obtain hnew | hold := hc.head_around_assign (hash (vnode getKey n c).key) (vnode getKey n c) k
    · exact .inl ⟨_, hnew, rfl⟩
    · change (∃ it, (around (assign _ _ (placeVNodes getKey hash n c m)) k).head? = some it ∧ _) ∨
        (around (assign _ _ (placeVNodes getKey hash n c m)) k).head? = _
      rw [hold]
      exact ih

omit [DecidableEq N] in
theorem addNodeCount_moves (n : N) (vnCount : ℕ) :
    (s.addNodeCount getKey hash n vnCount).getNode hash v = .ok n ∨
      (s.addNodeCount getKey hash n vnCount).getNode hash v = s.getNode hash v := by
  obtain hnew | hold := placeVNodes_head getKey hash n vnCount s.ascending (hash v)
  · exact .inl ((getNode_ok _ v).mpr hnew)
  · right
    rw [getNode_eq, getNode_eq, addNodeCount, hold]

theorem removeNodes_vnodesMap (ns : List N) :
    (s.removeNodes ns).vnodesMap = s.vnodesMap.filter fun e ↦ e.2.rnode ∉ ns := by
  induction ns generalizing s with
  | nil => exact (List.filter_eq_self.mpr fun e _ ↦ by simp).symm
  | cons n ns ih =>
    rw [removeNodes, List.foldl_cons]
    have hrest := ih (s.removeNode n)
    rw [removeNodes] at hrest
    rw [hrest, removeNode, List.filter_filter]
    congr 1
    funext e
    simp [Bool.and_comm]

/-- Without the excluded nodes of the ring no excluded node is left. -/
theorem removeExcluded_vnodesMap (excludeFun : N → Bool) :
    (s.removeNodes (s.nodesOnRing.filter excludeFun)).vnodesMap =
      s.vnodesMap.filter fun e ↦ !excludeFun e.2.rnode := by
  rw [removeNodes_vnodesMap]
  apply List.filter_congr
  intro e he
  have hmem : e.2.rnode ∈ s.nodesOnRing := List.mem_map.mpr ⟨e, he, rfl⟩
  simp [List.mem_filter, hmem]

theorem getNodeExcluding_ok_iff (excludeFun : N → Bool) {m : N} :
    s.getNodeExcluding hash v excludeFun = .ok m ↔
      (s.removeNodes (s.nodesOnRing.filter excludeFun)).getNode hash v = .ok m := by
  rw [getNode_ok, removeExcluded_vnodesMap, getNodeExcluding_ok]

omit [DecidableEq N] in
theorem getNodeExcluding_succeeds (excludeFun : N → Bool) :
    (∃ m, s.getNodeExcluding hash v excludeFun = .ok m) ↔
      ∃ m ∈ s.nodesOnRing, excludeFun m = false := by
  constructor
  · rintro ⟨m, hm⟩
    obtain ⟨it, hit, rfl⟩ := (getNodeExcluding_ok s v excludeFun).mp hm
    obtain ⟨he, hexcl⟩ := List.mem_filter.mp (mem_around.mp (List.mem_of_mem_head? hit))
    exact ⟨it.2.rnode, List.mem_map.mpr ⟨it, he, rfl⟩, by simpa using hexcl⟩
  · rintro ⟨m, hm, hexcl⟩
    obtain ⟨e, he, rfl⟩ := List.mem_map.mp hm
    have hin : e ∈ around (s.vnodesMap.filter fun e ↦ !excludeFun e.2.rnode) (hash v) :=
      mem_around.mpr (List.mem_filter.mpr ⟨he, by simpa using hexcl⟩)
    obtain ⟨it, rest, hw⟩ := List.exists_cons_of_ne_nil (List.ne_nil_of_mem hin)
    exact ⟨_, (getNodeExcluding_ok s v excludeFun).mpr ⟨it, by rw [hw]; rfl, rfl⟩⟩

/-- The keys that a change of the nodes may move. -/
structure MovesOnly : Prop where
  removeNode : ∀ (n : N) (key : String) (m : N), s.getNode hash key = .ok m → m ≠ n →
    (s.removeNode n).getNode hash key = .ok m
  addNode : ∀ (n : N) (key : String), (s.addNode getKey hash n).getNode hash key = .ok n ∨
    (s.addNode getKey hash n).getNode hash key = s.getNode hash key
  addNodeCount : ∀ (n : N) (vnCount : ℕ) (key : String),
    (s.addNodeCount getKey hash n vnCount).getNode hash key = .ok n ∨
      (s.addNodeCount getKey hash n vnCount).getNode hash key = s.getNode hash key
  excluding : ∀ (key : String) (excludeFun : N → Bool),
    ((∃ m, s.getNodeExcluding hash key excludeFun = .ok m) ↔
      ∃ m ∈ s.nodesOnRing, excludeFun m = false) ∧
    ∀ m, s.getNodeExcluding hash key excludeFun = .ok m →
      (s.removeNodes (s.nodesOnRing.filter excludeFun)).getNode hash key = .ok m

/-- Whatever the hash function is and whatever has been done to the ring. -/
theorem run_movesOnly (vnCount : ℕ) (ops : List (Op N)) :
    MovesOnly getKey hash (ops.foldl (Op.apply getKey hash) (ConsitentHashRing.new vnCount)) where
  removeNode _ key _ := removeNode_keeps hash _ key
  addNode n key := addNodeCount_moves getKey hash _ key n _
  addNodeCount n c key := addNodeCount_moves getKey hash _ key n c
  excluding key excludeFun :=
    ⟨getNodeExcluding_succeeds hash _ key excludeFun,
      fun _ hm ↦ (getNodeExcluding_ok_iff hash _ key excludeFun).mp hm⟩

end Moves

end MmsServer.Base.ConsistentHash
