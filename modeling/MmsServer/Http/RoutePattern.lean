import MmsServer.Http.TrieTree

namespace MmsServer.Http.RoutePattern

open Lib.ByteReader Lib.KeyedList Lib.StatefulSearch RequestText TrieTree

variable {H : Type}

abbrev PlainChar := { c : UInt8 // c ≠ colon ∧ c ≠ star }

inductive Token
  | lit (c : PlainChar)
  | param (name : Bytes)
  | rest
deriving DecidableEq

/-- A pattern in which a parameter's name is a run of these characters. What is behind a
`*` that is in no name is not read. -/
def tokensBy (isName : UInt8 → Bool) (path : Bytes) : List Token :=
  match path with
  | [] => []
  | c :: path =>
    if hc : c = colon then
      .param (path.takeWhile isName) :: tokensBy isName (path.dropWhile isName)
    else if hs : c = star then [.rest]
    else .lit ⟨c, hc, hs⟩ :: tokensBy isName path
termination_by path.length
decreasing_by
  · exact Nat.lt_succ_of_le (List.dropWhile_sublist _).length_le
  · simp

/-- A pattern as `add_route` reads it. -/
def tokens : Bytes → List Token := tokensBy inName

def tokensToStar : Bytes → List Token := tokensBy fun c ↦ inName c && c != star

def endsInParam : List Token → Bool
  | [] => false
  | [.param _] => true
  | _ :: ts => endsInParam ts

abbrev Bindings := List (Bytes × Bytes)

inductive Matches : List Token → Bytes → Bindings → Prop
  | nil : Matches [] [] []
  | lit {ts path bs} (c : PlainChar) : Matches ts path bs →
      Matches (.lit c :: ts) (c.val :: path) bs
  | param {ts path bs} (name : Bytes) : path ≠ [] → Matches ts (path.dropWhile inName) bs →
      Matches (.param name :: ts) path ((name, path.takeWhile inName) :: bs)
  | rest {path} : path ≠ [] → Matches [.rest] path [([star], path)]

def boundNames (ts : List Token) : List Bytes :=
  ts.filterMap fun
    | .lit _ => none
    | .param name => some name
    | .rest => some [star]

def bindAll (bs : Bindings) (params : Fields) : Fields :=
  bs.foldr (fun b params ↦ params.set b.1 b.2) params

def handlerAt : List Token → TrieNode H → Option H
  | [], node => node.handler
  | .lit c :: ts, node => (node.getChild c.val).bind (handlerAt ts)
  | .param name :: ts, node =>
    (node.getChild colon).bind fun child ↦ (child.getParamChild name).bind (handlerAt ts)
  | [.rest], node => (node.getChild star).bind TrieNode.handler
  | .rest :: _ :: _, _ => none

/-- A node below `:` has nothing but names, and one below `*` has a handler. -/
inductive Proper : TrieNode H → Prop
  | intro {node : TrieNode H}
      (lit : ∀ (c : PlainChar) child, node.getChild c.val = some child → Proper child)
      (handler : ∀ child, node.getChild colon = some child → child.handler = none)
      (childrens : ∀ child, node.getChild colon = some child → child.childrens = [])
      (param : ∀ child name next, node.getChild colon = some child →
        child.getParamChild name = some next → Proper next)
      (star : ∀ child, node.getChild star = some child → child.handler.isSome) : Proper node

section Search

variable {order : HashOrder} {node : TrieNode H}

theorem getRoute_nil : node.getRoute order [] = fun params ↦ (node.handler, params) := by
  rw [TrieNode.getRoute]

variable (order) in
def viaName (path : Bytes) (child : TrieNode H) (name : Bytes) : Search Fields H :=
  (child.getParamChild name).elim fail fun next ↦
    andThen (next.getRoute order (path.dropWhile inName)) fun params ↦
      params.set name (path.takeWhile inName)

variable (order) in
def viaNames (path : Bytes) (child : TrieNode H) : Search Fields H :=
  firstOf (viaName order path child) (order.names (child.pchildrens.map Prod.fst))

def viaStar (path : Bytes) (child : TrieNode H) : Search Fields H := fun params ↦
  (child.handler, params.set [star] path)

/-- The three ways to go on from a node. -/
theorem getRoute_cons (c : UInt8) (path : Bytes) : node.getRoute order (c :: path) =
    orElse ((node.getChild c).elim fail (TrieNode.getRoute order path))
      (orElse ((node.getChild colon).elim fail (viaNames order (c :: path)))
        ((node.getChild star).elim fail (viaStar (c :: path)))) := by
  rw [TrieNode.getRoute]
  congr 1
  · split
    · next h => rw [h, Option.elim_some]
    · next h => rw [h, Option.elim_none]
  · congr 1
    · split
      · next h =>
        rw [h, Option.elim_some, viaNames]
        congr 1
        funext name
        rw [viaName]
        split
        · next h' => rw [h', Option.elim_some]
        · next h' => rw [h', Option.elim_none]
      · next h => rw [h, Option.elim_none]
    · split
      · next h =>
        rw [h, Option.elim_some]
        rfl
      · next h => rw [h, Option.elim_none]

/-- The node below `:` is no way for the character itself. -/
theorem getRoute_colon (hh : node.handler = none) (hc : node.childrens = []) (path : Bytes) :
    node.getRoute order path = fail := by
  have hget (c : UInt8) : node.getChild c = none := by
    rw [TrieNode.getChild, hc]
    rfl
  cases path with
  | nil =>
    rw [getRoute_nil, hh]
    rfl
  | cons c path => simp only [getRoute_cons, hget, Option.elim_none, fail_orElse]

theorem viaChild_colon (hnode : Proper node) (path : Bytes) :
    (node.getChild colon).elim fail (TrieNode.getRoute order path) = fail := by
  cases hnode with | intro _ handler childrens _ _ =>
  cases hchild : node.getChild colon with
  | none => rfl
  | some child => exact getRoute_colon (handler child hchild) (childrens child hchild) path

theorem matches_nil_iff {ts : List Token} {bs : Bindings} : Matches ts [] bs ↔ ts = [] ∧ bs = [] := by
  constructor
  · intro h
    cases h with
    | nil => exact ⟨rfl, rfl⟩
    | param name hne _ => exact absurd rfl hne
    | rest hne => exact absurd rfl hne
  · rintro ⟨rfl, rfl⟩
    exact .nil

theorem explores_lit {c : UInt8} {path : Bytes} (hnode : Proper node) (hc : c ≠ star)
    (ih : ∀ (c : PlainChar) child, node.getChild c.val = some child →
      Explores (child.getRoute order path) fun params h params' ↦
        ∃ ts bs, handlerAt ts child = some h ∧ Matches ts path bs ∧ params' = bindAll bs params) :
    Explores ((node.getChild c).elim fail (TrieNode.getRoute order path)) fun params h params' ↦
      ∃ hc ts bs, handlerAt (.lit ⟨c, hc⟩ :: ts) node = some h ∧ Matches ts path bs ∧
        params' = bindAll bs params := by
  by_cases hcolon : c = colon
  · rw [hcolon, viaChild_colon hnode]
    exact explores_fail.congr fun _ _ _ ↦ iff_of_false id fun ⟨h, _⟩ ↦ h.1 rfl
  · cases hchild : node.getChild c with
    | none => exact explores_fail.congr fun _ _ _ ↦ by simp [handlerAt, hchild]
    | some child =>
      refine (ih ⟨c, hcolon, hc⟩ child hchild).congr fun _ _ _ ↦ ?_
      simp only [handlerAt, hchild, Option.bind_some]
      exact ⟨fun h ↦ ⟨⟨hcolon, hc⟩, h⟩, fun ⟨_, h⟩ ↦ h⟩

theorem explores_param {path : Bytes}
    (ih : ∀ child name next, node.getChild colon = some child →
      child.getParamChild name = some next →
      Explores (next.getRoute order (path.dropWhile inName)) fun params h params' ↦
        ∃ ts bs, handlerAt ts next = some h ∧ Matches ts (path.dropWhile inName) bs ∧
          params' = bindAll bs params) :
    Explores ((node.getChild colon).elim fail (viaNames order path)) fun params h params' ↦
      ∃ name ts bs, handlerAt (.param name :: ts) node = some h ∧
        Matches ts (path.dropWhile inName) bs ∧
        params' = bindAll ((name, path.takeWhile inName) :: bs) params := by
  cases hchild : node.getChild colon with
  | none => exact explores_fail.congr fun _ _ _ ↦ by simp [handlerAt, hchild]
  | some child =>
    have hbranch (name : Bytes) : Explores (viaName order path child name) fun params h params' ↦
        ∃ ts bs, handlerAt (.param name :: ts) node = some h ∧
          Matches ts (path.dropWhile inName) bs ∧
          params' = bindAll ((name, path.takeWhile inName) :: bs) params := by
      rw [viaName]
      cases hnext : child.getParamChild name with
      | none => exact explores_fail.congr fun _ _ _ ↦ by simp [handlerAt, hchild, hnext]
      | some next =>
        refine ((ih child name next hchild hnext).andThen _).congr fun params h params' ↦ ?_
        simp only [handlerAt, hchild, hnext, Option.bind_some, bindAll, List.foldr_cons]
        constructor
        · rintro ⟨_, ⟨ts, bs, hh, hm, rfl⟩, rfl⟩
          exact ⟨ts, bs, hh, hm, rfl⟩
        · rintro ⟨ts, bs, hh, hm, rfl⟩
          exact ⟨_, ⟨ts, bs, hh, hm, rfl⟩, rfl⟩
    refine (explores_firstOf fun name _ ↦ hbranch name).congr fun params h params' ↦ ?_
    constructor
    · rintro ⟨name, -, ts, bs, h⟩
      exact ⟨name, ts, bs, h⟩
    · rintro ⟨name, ts, bs, hh, h⟩
      have hname : (child.getParamChild name).isSome := by
        simp only [handlerAt, hchild, Option.bind_some, Option.bind_eq_some_iff] at hh
        obtain ⟨next, hnext, -⟩ := hh
        rw [hnext, Option.isSome_some]
      exact ⟨name, (order.perm _).mem_iff.mpr (valueAt_isSome.mp hname), ts, bs, hh, h⟩

theorem explores_rest {path : Bytes} (hnode : Proper node) :
    Explores ((node.getChild star).elim fail (viaStar path)) fun params h params' ↦
      handlerAt [.rest] node = some h ∧ params' = bindAll [([star], path)] params := by
  cases hnode with | intro _ _ _ _ hstar =>
  cases hchild : node.getChild star with
  | none => exact explores_fail.congr fun _ _ _ ↦ by simp [handlerAt, hchild]
  | some child =>
    obtain ⟨handler, hh⟩ := Option.isSome_iff_exists.mp (hstar child hchild)
    have hvia : viaStar path child = fun params ↦ (some handler, params.set [star] path) := by
      rw [← hh]
      rfl
    simp only [Option.elim_some, hvia, hh, handlerAt, hchild, Option.bind_some, Option.some.injEq]
    exact (explores_some handler _).congr fun _ _ _ ↦ and_congr_left' eq_comm

/-- A lookup goes through all ways through the tree that match. -/
theorem explores_getRoute (hnode : Proper node) {path : Bytes} (hpath : star ∉ path) :
    Explores (node.getRoute order path) fun params h params' ↦
      ∃ ts bs, handlerAt ts node = some h ∧ Matches ts path bs ∧ params' = bindAll bs params := by
  induction hnode generalizing path with
  | @intro node lit handler childrens param hstar ihlit ihparam =>
    have hnode : Proper node := .intro lit handler childrens param hstar
    cases path with
    | nil =>
      rw [getRoute_nil]
      refine (explores_const node.handler).congr fun params h params' ↦ ?_
      simp only [matches_nil_iff]
      constructor
      · rintro ⟨hh, rfl⟩
        exact ⟨[], [], hh, ⟨rfl, rfl⟩, rfl⟩
      · rintro ⟨_, _, hh, ⟨rfl, rfl⟩, rfl⟩
        exact ⟨hh, rfl⟩
    | cons c path =>
      rw [List.mem_cons, not_or] at hpath
      have hdrop : star ∉ (c :: path).dropWhile inName := fun h ↦ by
        have hmem := (List.dropWhile_sublist inName).subset h
        exact (List.mem_cons.mp hmem).elim hpath.1 hpath.2
      rw [getRoute_cons]
      refine ((explores_lit hnode (Ne.symm hpath.1) fun c child h ↦ ihlit c child h hpath.2).orElse
        ((explores_param fun child name next h h' ↦ ihparam child name next h h' hdrop).orElse
          (explores_rest hnode))).congr fun params h params' ↦ ?_
      constructor
      · rintro (⟨hc, ts, bs, hh, hm, hp⟩ | ⟨name, ts, bs, hh, hm, hp⟩ | ⟨hh, hp⟩)
        · exact ⟨_, bs, hh, .lit _ hm, hp⟩
        · exact ⟨_, _, hh, .param name (List.cons_ne_nil _ _) hm, hp⟩
        · exact ⟨_, _, hh, .rest (List.cons_ne_nil _ _), hp⟩
      · rintro ⟨ts, bs, hh, hm, hp⟩
        cases hm with
        | lit c hm => exact .inl ⟨c.property, _, bs, hh, hm, hp⟩
        | param name _ hm => exact .inr (.inl ⟨name, _, _, hh, hm, hp⟩)
        | rest _ => exact .inr (.inr ⟨hh, hp⟩)

end Search

end MmsServer.Http.RoutePattern
