import MmsServer.Http.RequestText
import MmsServer.Lib.KeyedList
import MmsServer.Lib.StatefulSearch

namespace MmsServer.Http.TrieTree

open Lib.ByteReader Lib.KeyedList Lib.StatefulSearch Lib.Text RequestText

variable {H : Type}

def slash : UInt8 := 47

def dot : UInt8 := 46

def colon : UInt8 := 58

def star : UInt8 := 42

/-- A name and the value of a parameter end in front of these. -/
def inName (c : UInt8) : Bool := c != slash && c != dot

/-- A node below `:` holds a parameter's name for each of its `pchildrens`. -/
structure TrieNode (H : Type) where
  handler : Option H
  childrens : List (UInt8 × TrieNode H)
  pchildrens : List (Bytes × TrieNode H)

def TrieNode.empty : TrieNode H := ⟨none, [], []⟩

section Node

variable (node : TrieNode H)

def TrieNode.getChild (c : UInt8) : Option (TrieNode H) := valueAt c node.childrens

def TrieNode.getParamChild (paramName : Bytes) : Option (TrieNode H) :=
  valueAt paramName node.pchildrens

def TrieNode.setHandler (handler : H) : TrieNode H := { node with handler := some handler }

def TrieNode.setChild (c : UInt8) (child : TrieNode H) : TrieNode H :=
  { node with childrens := assign c child node.childrens }

def TrieNode.setParamChild (paramName : Bytes) (child : TrieNode H) : TrieNode H :=
  { node with pchildrens := assign paramName child node.pchildrens }

def TrieNode.childOrNew (c : UInt8) : TrieNode H := (node.getChild c).getD .empty

def TrieNode.paramChildOrNew (paramName : Bytes) : TrieNode H :=
  (node.getParamChild paramName).getD .empty

/-- A child that is there is changed where it stands. A new one is put in only on success. -/
def TrieNode.putParamChild (paramName : Bytes) (ret : Bool) (child : TrieNode H) : TrieNode H :=
  if ret ∨ (node.getParamChild paramName).isSome then node.setParamChild paramName child else node

def TrieNode.putChild (c : UInt8) (ret : Bool) (child : TrieNode H) : TrieNode H :=
  if ret ∨ (node.getChild c).isSome then node.setChild c child else node

variable {node} {c d : UInt8} {paramName name : Bytes} {child : TrieNode H} {handler : H}

@[simp] theorem getChild_setChild : (node.setChild c child).getChild d =
    if d = c then some child else node.getChild d := valueAt_assign

@[simp] theorem getParamChild_setParamChild : (node.setParamChild paramName child).getParamChild name =
    if name = paramName then some child else node.getParamChild name := valueAt_assign

@[simp] theorem getChild_setHandler : (node.setHandler handler).getChild c = node.getChild c := rfl

@[simp] theorem getParamChild_setHandler :
    (node.setHandler handler).getParamChild name = node.getParamChild name := rfl

@[simp] theorem getChild_empty : (TrieNode.empty : TrieNode H).getChild c = none := rfl

@[simp] theorem getParamChild_empty : (TrieNode.empty : TrieNode H).getParamChild name = none := rfl

theorem childOrNew_eq (h : node.getChild c = some child) : node.childOrNew c = child := by
  rw [TrieNode.childOrNew, h, Option.getD_some]

theorem paramChildOrNew_eq (h : node.getParamChild paramName = some child) :
    node.paramChildOrNew paramName = child := by
  rw [TrieNode.paramChildOrNew, h, Option.getD_some]

theorem putParamChild_handler (ret : Bool) :
    (node.putParamChild paramName ret child).handler = node.handler := by
  rw [TrieNode.putParamChild]
  split <;> rfl

theorem putParamChild_childrens (ret : Bool) :
    (node.putParamChild paramName ret child).childrens = node.childrens := by
  rw [TrieNode.putParamChild]
  split <;> rfl

end Node

section AddRoute

/-- Adds a route that starts at a node. The node is changed also where this fails. -/
def TrieNode.addRoute (handler : H) (path : Bytes) (node : TrieNode H) : Bool × TrieNode H :=
  match path with
  | [] => if node.handler.isSome then (false, node) else (true, node.setHandler handler)
  | c :: path =>
    if c = colon then
      let paramName := path.takeWhile inName
      let childNode := node.childOrNew colon
      let paramChildNode := childNode.paramChildOrNew paramName
      match _ : path.dropWhile inName with
      | [] => (true, node.setChild colon
          (childNode.setParamChild paramName (paramChildNode.setHandler handler)))
      | sep :: path' =>
        let (ret, child) := paramChildNode.addRoute handler (sep :: path')
        (ret, node.setChild colon (childNode.putParamChild paramName ret child))
    else if c = star then
      if (node.getChild star).isSome then (false, node)
      else (true, node.setChild star (TrieNode.empty.setHandler handler))
    else
      let (ret, child) := (node.childOrNew c).addRoute handler path
      (ret, node.putChild c ret child)
termination_by path.length
decreasing_by
  · have hle := (List.dropWhile_sublist (l := path) inName).length_le
    rw [‹path.dropWhile inName = _›] at hle
    exact Nat.lt_succ_of_le hle
  · simp

section Equations

variable {handler : H} {node : TrieNode H} {c sep : UInt8} {path path' : Bytes}

theorem addRoute_nil : node.addRoute handler [] =
    if node.handler.isSome then (false, node) else (true, node.setHandler handler) := by
  rw [TrieNode.addRoute]

theorem addRoute_lastParam (h : path.dropWhile inName = []) : node.addRoute handler (colon :: path) =
    (true, node.setChild colon ((node.childOrNew colon).setParamChild (path.takeWhile inName)
      (((node.childOrNew colon).paramChildOrNew (path.takeWhile inName)).setHandler handler))) := by
  rw [TrieNode.addRoute, if_pos rfl]
  split
  · rfl
  · next h' =>
    rw [h] at h'
    cases h'

theorem addRoute_param (h : path.dropWhile inName = sep :: path') {ret : Bool} {child : TrieNode H}
    (hadd : ((node.childOrNew colon).paramChildOrNew (path.takeWhile inName)).addRoute handler
      (sep :: path') = (ret, child)) : node.addRoute handler (colon :: path) =
    (ret, node.setChild colon
      ((node.childOrNew colon).putParamChild (path.takeWhile inName) ret child)) := by
  rw [TrieNode.addRoute, if_pos rfl]
  split
  · next h' =>
    rw [h] at h'
    cases h'
  · next h' =>
    rw [h] at h'
    cases h'
    dsimp only
    rw [hadd]

theorem addRoute_star : node.addRoute handler (star :: path) =
    if (node.getChild star).isSome then (false, node)
    else (true, node.setChild star (TrieNode.empty.setHandler handler)) := by
  rw [TrieNode.addRoute, if_neg (by decide), if_pos rfl]

theorem addRoute_lit (hc : c ≠ colon) (hs : c ≠ star) {ret : Bool} {child : TrieNode H}
    (hadd : (node.childOrNew c).addRoute handler path = (ret, child)) :
    node.addRoute handler (c :: path) = (ret, node.putChild c ret child) := by
  rw [TrieNode.addRoute, if_neg hc, if_neg hs, hadd]

end Equations

end AddRoute

section GetRoute

/-- The order in which the names in a hash map are gone through. -/
structure HashOrder where
  names : List Bytes → List Bytes
  perm : ∀ ns, (names ns).Perm ns

theorem sizeOf_getChild {node child : TrieNode H} {c : UInt8} (h : node.getChild c = some child) :
    sizeOf child < sizeOf node := by
  have hlt := List.sizeOf_lt_of_mem (mem_of_valueAt h)
  cases node
  simp only [Prod.mk.sizeOf_spec, TrieNode.mk.sizeOf_spec] at hlt ⊢
  omega

theorem sizeOf_getParamChild {node child : TrieNode H} {paramName : Bytes}
    (h : node.getParamChild paramName = some child) : sizeOf child < sizeOf node := by
  have hlt := List.sizeOf_lt_of_mem (mem_of_valueAt h)
  cases node
  simp only [Prod.mk.sizeOf_spec, TrieNode.mk.sizeOf_spec] at hlt ⊢
  omega

variable (order : HashOrder)

/-- Looks for a route that starts at a node. The parameters are set on the way back. -/
def TrieNode.getRoute (path : Bytes) (node : TrieNode H) : Search Fields H :=
  match path with
  | [] => fun params ↦ (node.handler, params)
  | c :: rest =>
    orElse (match _ : node.getChild c with
      | some child => child.getRoute rest
      | none => fail) <|
    orElse (match _ : node.getChild colon with
      | some child =>
        firstOf (fun paramName ↦ match _ : child.getParamChild paramName with
          | some next => andThen (next.getRoute ((c :: rest).dropWhile inName)) fun params ↦
              params.set paramName ((c :: rest).takeWhile inName)
          | none => fail) (order.names (child.pchildrens.map Prod.fst))
      | none => fail)
    (match node.getChild star with
      | some child => fun params ↦ (child.handler, params.set [star] (c :: rest))
      | none => fail)
termination_by sizeOf node
decreasing_by
  · exact sizeOf_getChild ‹_›
  · exact (sizeOf_getParamChild ‹_›).trans (sizeOf_getChild ‹_›)

end GetRoute

section Tree

variable (order : HashOrder) (root : TrieNode H)

def addRoute (path : Bytes) (handler : H) : Bool × TrieNode H :=
  match path with
  | [] => (false, root)
  | c :: path => if c = slash then root.addRoute handler path else (false, root)

def getRoute (path : Bytes) : Search Fields H :=
  match path with
  | [] => fail
  | c :: path => if c = slash then root.getRoute order path else fail

end Tree

end MmsServer.Http.TrieTree
