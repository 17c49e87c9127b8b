import MmsServer.Http.RoutePattern

namespace MmsServer.Http.RouteTable

open Lib.ByteReader Lib.KeyedList Lib.StatefulSearch RequestText TrieTree RoutePattern

variable {H : Type}

section Handlers

variable {node child : TrieNode H} {handler : H} {ts : List Token}

section Tokens

variable (isName : UInt8 → Bool)

theorem tokensBy_nil : tokensBy isName [] = [] := by
  rw [tokensBy]

theorem tokensBy_colon (path : Bytes) : tokensBy isName (colon :: path) =
    .param (path.takeWhile isName) :: tokensBy isName (path.dropWhile isName) := by
  rw [tokensBy, dif_pos rfl]

theorem tokensBy_star (path : Bytes) : tokensBy isName (star :: path) = [.rest] := by
  rw [tokensBy, dif_neg (by decide), dif_pos rfl]

theorem tokensBy_lit {c : UInt8} (hc : c ≠ colon) (hs : c ≠ star) (path : Bytes) :
    tokensBy isName (c :: path) = .lit ⟨c, hc, hs⟩ :: tokensBy isName path := by
  rw [tokensBy, dif_neg hc, dif_neg hs]

end Tokens

theorem tokens_nil : tokens [] = [] := tokensBy_nil inName

theorem tokens_colon (path : Bytes) :
    tokens (colon :: path) = .param (path.takeWhile inName) :: tokens (path.dropWhile inName) :=
  tokensBy_colon inName path

theorem tokens_star (path : Bytes) : tokens (star :: path) = [.rest] := tokensBy_star inName path

theorem tokens_lit {c : UInt8} (hc : c ≠ colon) (hs : c ≠ star) (path : Bytes) :
    tokens (c :: path) = .lit ⟨c, hc, hs⟩ :: tokens path := tokensBy_lit inName hc hs path

theorem tokens_ne_nil (c : UInt8) (path : Bytes) : tokens (c :: path) ≠ [] := by
  by_cases hc : c = colon
  · rw [hc, tokens_colon]
    exact List.cons_ne_nil _ _
  · by_cases hs : c = star
    · rw [hs, tokens_star]
      exact List.cons_ne_nil _ _
    · rw [tokens_lit hc hs]
      exact List.cons_ne_nil _ _

theorem endsInParam_cons (t : Token) {ts : List Token} (h : ts ≠ []) :
    endsInParam (t :: ts) = endsInParam ts := by
  obtain ⟨u, us, rfl⟩ := List.exists_cons_of_ne_nil h
  rw [endsInParam]
  exact nofun

theorem handlerAt_empty (ts : List Token) : handlerAt ts (TrieNode.empty : TrieNode H) = none := by
  match ts with
  | [] => rfl
  | .lit _ :: _ => rfl
  | .param _ :: _ => rfl
  | [.rest] => rfl
  | .rest :: _ :: _ => rfl

theorem handlerAt_lit (c : PlainChar) :
    handlerAt (.lit c :: ts) node = handlerAt ts (node.childOrNew c.val) := by
  rw [handlerAt, TrieNode.childOrNew]
  cases node.getChild c.val with
  | none => exact (handlerAt_empty ts).symm
  | some child => rfl

theorem handlerAt_param (name : Bytes) : handlerAt (.param name :: ts) node =
    handlerAt ts ((node.childOrNew colon).paramChildOrNew name) := by
  rw [handlerAt, TrieNode.childOrNew]
  cases node.getChild colon with
  | none => exact (handlerAt_empty ts).symm
  | some child =>
    rw [Option.bind_some, Option.getD_some, TrieNode.paramChildOrNew]
    cases child.getParamChild name with
    | none => exact (handlerAt_empty ts).symm
    | some next => rfl

theorem childOrNew_setChild {c d : UInt8} : (node.setChild c child).childOrNew d =
    if d = c then child else node.childOrNew d := by
  rw [TrieNode.childOrNew, getChild_setChild]
  split <;> rfl

theorem paramChildOrNew_setParamChild {name name' : Bytes} :
    (node.setParamChild name child).paramChildOrNew name' =
      if name' = name then child else node.paramChildOrNew name' := by
  rw [TrieNode.paramChildOrNew, getParamChild_setParamChild]
  split <;> rfl

/-- A new child is left out only where it has no handlers. -/
theorem handlerAt_putChild {c d : UInt8} {ret : Bool}
    (h : ret = false → ∀ ts, handlerAt ts child = handlerAt ts (node.childOrNew c)) :
    handlerAt ts ((node.putChild c ret child).childOrNew d) =
      if d = c then handlerAt ts child else handlerAt ts (node.childOrNew d) := by
  rw [TrieNode.putChild]
  split
  · rw [childOrNew_setChild]
    split <;> rfl
  · next hput =>
    rw [not_or, Bool.not_eq_true] at hput
    split
    · next hd => rw [h hput.1, hd]
    · rfl

theorem handlerAt_putParamChild {name name' : Bytes} {ret : Bool}
    (h : ret = false → ∀ ts, handlerAt ts child = handlerAt ts (node.paramChildOrNew name)) :
    handlerAt ts ((node.putParamChild name ret child).paramChildOrNew name') =
      if name' = name then handlerAt ts child else handlerAt ts (node.paramChildOrNew name') := by
  rw [TrieNode.putParamChild]
  split
  · rw [paramChildOrNew_setParamChild]
    split <;> rfl
  · next hput =>
    rw [not_or, Bool.not_eq_true] at hput
    split
    · next hn => rw [h hput.1, hn]
    · rfl

/-- A handler that is set at a node is the one that its empty way leads to. -/
theorem handlerAt_setHandler : handlerAt ts (node.setHandler handler) =
    if ts = [] then some handler else handlerAt ts node := by
  match ts with
  | [] => rfl
  | .lit _ :: _ => rfl
  | .param _ :: _ => rfl
  | [.rest] => rfl
  | .rest :: _ :: _ => rfl

theorem putChild_handler (c : UInt8) (ret : Bool) :
    (node.putChild c ret child).handler = node.handler := by
  rw [TrieNode.putChild]
  split <;> rfl

theorem getChild_putChild_of_ne {c d : UInt8} (ret : Bool) (hd : d ≠ c) :
    (node.putChild c ret child).getChild d = node.getChild d := by
  rw [TrieNode.putChild]
  split
  · rw [getChild_setChild, if_neg hd]
  · rfl

/-- A change below `:` to what a name leads to. -/
theorem handlerAt_setColon {ret : Prop} [Decidable ret] {name : Bytes} {ts' : List Token}
    (h : ∀ n us, handlerAt us (child.paramChildOrNew n) =
      if ret ∧ n = name ∧ us = ts' then some handler
      else handlerAt us ((node.childOrNew colon).paramChildOrNew n)) :
    handlerAt ts (node.setChild colon child) =
      if ret ∧ ts = .param name :: ts' then some handler else handlerAt ts node := by
  match ts with
  | [] => rw [if_neg (by simp)]; rfl
  | .lit c :: us =>
    rw [handlerAt_lit, childOrNew_setChild, if_neg c.property.1, if_neg (by simp), handlerAt_lit]
  | .param n :: us =>
    rw [handlerAt_param, childOrNew_setChild, if_pos rfl, h, handlerAt_param]
    simp only [List.cons.injEq, Token.param.injEq]
  | [.rest] =>
    rw [handlerAt, getChild_setChild, if_neg (by decide), if_neg (by simp), handlerAt]
  | .rest :: _ :: _ => rw [if_neg (by simp)]; rfl

theorem handlerAt_setStar : handlerAt ts (node.setChild star (TrieNode.empty.setHandler handler)) =
    if ts = [.rest] then some handler else handlerAt ts node := by
  match ts with
  | [] => rfl
  | .lit c :: us =>
    rw [handlerAt_lit, childOrNew_setChild, if_neg c.property.2, if_neg (by simp), handlerAt_lit]
  | .param n :: us =>
    rw [handlerAt_param, childOrNew_setChild, if_neg (by decide), if_neg (by simp), handlerAt_param]
  | [.rest] =>
    rw [handlerAt, getChild_setChild, if_pos rfl, if_pos rfl]
    rfl
  | .rest :: _ :: _ => rfl

theorem handlerAt_putLit {c : PlainChar} {ret : Bool} {ts' : List Token}
    (h : ∀ us, handlerAt us child = if ret = true ∧ us = ts' then some handler
      else handlerAt us (node.childOrNew c.val)) :
    handlerAt ts (node.putChild c.val ret child) =
      if ret = true ∧ ts = .lit c :: ts' then some handler else handlerAt ts node := by
  have hfalse : ret = false → ∀ us, handlerAt us child = handlerAt us (node.childOrNew c.val) :=
    fun hret us ↦ by rw [h us, if_neg (by simp [hret])]
  match ts with
  | [] => rw [handlerAt, putChild_handler, if_neg (by simp), handlerAt]
  | .lit d :: us =>
    rw [handlerAt_lit, handlerAt_putChild hfalse, handlerAt_lit]
    by_cases hd : d = c
    · rw [if_pos (congrArg _ hd), h us, hd]
      simp
    · rw [if_neg fun hv ↦ hd (Subtype.ext hv), if_neg (by simp [hd])]
  | .param n :: us =>
    rw [if_neg (by simp), handlerAt, getChild_putChild_of_ne ret c.property.1.symm, handlerAt]
  | [.rest] =>
    rw [if_neg (by simp), handlerAt, getChild_putChild_of_ne ret c.property.2.symm, handlerAt]
  | .rest :: _ :: _ => rw [if_neg (by simp)]; rfl

/-- An addition that succeeds sets one handler, and one that fails sets none. -/
theorem handlerAt_addRoute (handler : H) (path : Bytes) (node : TrieNode H) (ts : List Token) :
    handlerAt ts (node.addRoute handler path).2 =
      if (node.addRoute handler path).1 = true ∧ ts = tokens path then some handler
      else handlerAt ts node := by
  induction path, node using TrieNode.addRoute.induct handler generalizing ts with
  | case1 node h =>
    rw [addRoute_nil, if_pos h, if_neg (by simp)]
  | case2 node h =>
    rw [addRoute_nil, if_neg h, handlerAt_setHandler, tokens_nil]
    simp
  | case3 node path h =>
    rw [addRoute_lastParam h, tokens_colon, h, tokens_nil]
    refine handlerAt_setColon fun n us ↦ ?_
    rw [paramChildOrNew_setParamChild]
    by_cases hn : n = path.takeWhile inName
    · rw [if_pos hn, handlerAt_setHandler, hn]
      simp
    · rw [if_neg hn, if_neg (by simp [hn])]
  | case4 node path _ _ _ sep path' h ret child hadd ih =>
    rw [hadd] at ih
    rw [addRoute_param h hadd, tokens_colon, h]
    refine handlerAt_setColon fun n us ↦ ?_
    rw [handlerAt_putParamChild fun hret us ↦ by rw [ih us, if_neg (by simp [hret])]]
    by_cases hn : n = path.takeWhile inName
    · rw [if_pos hn, ih us, hn]
      simp only [true_and]
      rfl
    · rw [if_neg hn, if_neg (by simp [hn])]
  | case5 node path h _ => rw [addRoute_star, if_pos h, if_neg (by simp)]
  | case6 node path h _ =>
    rw [addRoute_star, if_neg h, tokens_star, handlerAt_setStar]
    simp
  | case7 node c path hc hs ret child hadd ih =>
    rw [hadd] at ih
    rw [addRoute_lit hc hs hadd, tokens_lit hc hs]
    exact handlerAt_putLit (c := ⟨c, hc, hs⟩) ih

end Handlers

section Proper

variable {node child : TrieNode H} {handler : H}

theorem proper_empty : Proper (TrieNode.empty : TrieNode H) := by
  refine .intro ?_ ?_ ?_ ?_ ?_ <;> simp

theorem proper_childOrNew (h : Proper node) (c : PlainChar) : Proper (node.childOrNew c.val) := by
  cases h with | intro lit _ _ _ _ =>
  cases hc : node.getChild c.val with
  | none => simpa [TrieNode.childOrNew, hc] using proper_empty
  | some child => exact childOrNew_eq hc ▸ lit c child hc

/-- What stands below `:`, also when it is new there. -/
structure NamesOnly (child : TrieNode H) : Prop where
  handler : child.handler = none
  childrens : child.childrens = []
  param : ∀ name next, child.getParamChild name = some next → Proper next

theorem namesOnly_colon (h : Proper node) : NamesOnly (node.childOrNew colon) := by
  cases h with | intro _ handler childrens param _ =>
  cases hc : node.getChild colon with
  | none =>
    have hnew : node.childOrNew colon = .empty := by rw [TrieNode.childOrNew, hc, Option.getD_none]
    exact hnew ▸ ⟨rfl, rfl, by simp⟩
  | some child =>
    exact childOrNew_eq hc ▸ ⟨handler child hc, childrens child hc, fun name next hn ↦
      param child name next hc hn⟩

theorem NamesOnly.paramChildOrNew (h : NamesOnly child) (name : Bytes) :
    Proper (child.paramChildOrNew name) := by
  cases hn : child.getParamChild name with
  | none => simpa [TrieNode.paramChildOrNew, hn] using proper_empty
  | some next => exact paramChildOrNew_eq hn ▸ h.param name next hn

theorem NamesOnly.setParamChild (h : NamesOnly child) (name : Bytes) {next : TrieNode H}
    (hnext : Proper next) : NamesOnly (child.setParamChild name next) where
  handler := h.handler
  childrens := h.childrens
  param name' next' hn := by
    rw [getParamChild_setParamChild] at hn
    split at hn
    · cases hn
      exact hnext
    · exact h.param name' next' hn

theorem NamesOnly.putParamChild (h : NamesOnly child) (name : Bytes) (ret : Bool)
    {next : TrieNode H} (hnext : Proper next) : NamesOnly (child.putParamChild name ret next) := by
  rw [TrieNode.putParamChild]
  split
  · exact h.setParamChild name hnext
  · exact h

theorem proper_setHandler (h : Proper node) : Proper (node.setHandler handler) := by
  cases h with | intro lit hh hc param star => exact .intro lit hh hc param star

theorem proper_setColon (h : Proper node) (hchild : NamesOnly child) :
    Proper (node.setChild colon child) := by
  cases h with | intro lit hh hc param hstar =>
  refine .intro (fun c child' h ↦ ?_) (fun child' h ↦ ?_) (fun child' h ↦ ?_)
    (fun child' name next h hn ↦ ?_) fun child' h ↦ ?_
  · rw [getChild_setChild, if_neg c.property.1] at h
    exact lit c child' h
  · rw [getChild_setChild, if_pos rfl] at h
    cases h
    exact hchild.handler
  · rw [getChild_setChild, if_pos rfl] at h
    cases h
    exact hchild.childrens
  · rw [getChild_setChild, if_pos rfl] at h
    cases h
    exact hchild.param name next hn
  · rw [getChild_setChild, if_neg (by decide)] at h
    exact hstar child' h

theorem proper_setStar (h : Proper node) (hchild : child.handler.isSome) :
    Proper (node.setChild star child) := by
  cases h with | intro lit hh hc param hstar =>
  have hcolon : (node.setChild star child).getChild colon = node.getChild colon := by
    rw [getChild_setChild, if_neg (by decide)]
  refine .intro (fun c child' h ↦ ?_) (fun child' h ↦ hh child' (hcolon ▸ h))
    (fun child' h ↦ hc child' (hcolon ▸ h))
    (fun child' name next h hn ↦ param child' name next (hcolon ▸ h) hn) fun child' h ↦ ?_
  · rw [getChild_setChild, if_neg c.property.2] at h
    exact lit c child' h
  · rw [getChild_setChild, if_pos rfl] at h
    cases h
    exact hchild

theorem proper_setLit (h : Proper node) (c : PlainChar) (hchild : Proper child) :
    Proper (node.setChild c.val child) := by
  cases h with | intro lit hh hc param hstar =>
  have hcolon : (node.setChild c.val child).getChild colon = node.getChild colon := by
    rw [getChild_setChild, if_neg (Ne.symm c.property.1)]
  refine .intro (fun d child' h ↦ ?_) (fun child' h ↦ hh child' (hcolon ▸ h))
    (fun child' h ↦ hc child' (hcolon ▸ h))
    (fun child' name next h hn ↦ param child' name next (hcolon ▸ h) hn) fun child' h ↦ ?_
  · rw [getChild_setChild] at h
    split at h
    · cases h
      exact hchild
    · exact lit d child' h
  · rw [getChild_setChild, if_neg (Ne.symm c.property.2)] at h
    exact hstar child' h

theorem proper_addRoute (handler : H) (path : Bytes) (node : TrieNode H) (h : Proper node) :
    Proper (node.addRoute handler path).2 := by
  induction path, node using TrieNode.addRoute.induct handler with
  | case1 node hh => rwa [addRoute_nil, if_pos hh]
  | case2 node hh =>
    rw [addRoute_nil, if_neg hh]
    exact proper_setHandler h
  | case3 node path hd =>
    rw [addRoute_lastParam hd]
    have hcolon := namesOnly_colon h
    exact proper_setColon h
      (hcolon.setParamChild _ (proper_setHandler (hcolon.paramChildOrNew _)))
  | case4 node path _ _ _ sep path' hd ret child hadd ih =>
    rw [hadd] at ih
    rw [addRoute_param hd hadd]
    have hcolon := namesOnly_colon h
    exact proper_setColon h (hcolon.putParamChild _ ret (ih (hcolon.paramChildOrNew _)))
  | case5 node path hs _ => rwa [addRoute_star, if_pos hs]
  | case6 node path hs _ =>
    rw [addRoute_star, if_neg hs]
    exact proper_setStar h rfl
  | case7 node c path hc hs ret child hadd ih =>
    rw [hadd] at ih
    rw [addRoute_lit hc hs hadd, TrieNode.putChild]
    split
    · exact proper_setLit h ⟨c, hc, hs⟩ (ih (proper_childOrNew h ⟨c, hc, hs⟩))
    · exact h

/-- An addition is refused where there is a handler, unless its pattern ends in a parameter. -/
theorem addRoute_returns (handler : H) (path : Bytes) (node : TrieNode H) (h : Proper node) :
    (node.addRoute handler path).1 = true ↔
      endsInParam (tokens path) = true ∨ handlerAt (tokens path) node = none := by
  induction path, node using TrieNode.addRoute.induct handler with
  | case1 node hh =>
    rw [addRoute_nil, if_pos hh, tokens_nil, handlerAt, ← Option.isNone_iff_eq_none, ← Option.not_isSome, hh]
    simp [endsInParam]
  | case2 node hh =>
    rw [addRoute_nil, if_neg hh, tokens_nil, handlerAt, ← Option.isNone_iff_eq_none, ← Option.not_isSome,
      (Bool.not_eq_true _).mp hh]
    simp
  | case3 node path hd =>
    rw [addRoute_lastParam hd, tokens_colon, hd, tokens_nil]
    exact iff_of_true rfl (.inl rfl)
  | case4 node path _ _ _ sep path' hd ret child hadd ih =>
    have hnext := ih ((namesOnly_colon h).paramChildOrNew _)
    rw [hadd] at hnext
    rw [addRoute_param hd hadd, tokens_colon, hd, endsInParam_cons _ (tokens_ne_nil sep path'), handlerAt_param]
    exact hnext
  | case5 node path hs _ =>
    cases h with | intro _ _ _ _ hstar =>
    obtain ⟨child, hchild⟩ := Option.isSome_iff_exists.mp hs
    have hsome := hstar child hchild
    rw [addRoute_star, if_pos hs, tokens_star, handlerAt, hchild, Option.bind_some,
      ← Option.isNone_iff_eq_none, ← Option.not_isSome, hsome]
    simp [endsInParam]
  | case6 node path hs _ =>
    rw [addRoute_star, if_neg hs, tokens_star, handlerAt, Option.not_isSome_iff_eq_none.mp hs]
    exact iff_of_true rfl (.inr rfl)
  | case7 node c path hc hs ret child hadd ih =>
    have hnext := ih (proper_childOrNew h ⟨c, hc, hs⟩)
    rw [hadd] at hnext
    rw [addRoute_lit hc hs hadd, tokens_lit hc hs, handlerAt_lit]
    exact hnext

end Proper

section Failure

variable {order : HashOrder} {node node' child : TrieNode H}

theorem getRoute_congr (hh : node'.handler = node.handler)
    (hc : ∀ c path, (node'.getChild c).elim fail (TrieNode.getRoute order path) =
      (node.getChild c).elim fail (TrieNode.getRoute order path))
    (hp : ∀ path, (node'.getChild colon).elim fail (viaNames order path) =
      (node.getChild colon).elim fail (viaNames order path))
    (hs : node'.getChild star = node.getChild star) (path : Bytes) :
    node'.getRoute order path = node.getRoute order path := by
  cases path with
  | nil => rw [getRoute_nil, getRoute_nil, hh]
  | cons c path => rw [getRoute_cons, getRoute_cons, hc, hp, hs]

theorem viaNames_empty (path : Bytes) :
    viaNames order path (TrieNode.empty : TrieNode H) = fail := by
  have hnames : order.names [] = [] := (order.perm []).eq_nil
  change firstOf _ (order.names []) = fail
  rw [hnames]
  rfl

/-- The way through the names below `:`, also when it is new there. -/
theorem viaNames_childOrNew (path : Bytes) :
    (node.getChild colon).elim fail (viaNames order path) =
      viaNames order path (node.childOrNew colon) := by
  rw [TrieNode.childOrNew]
  cases node.getChild colon with
  | none => exact (viaNames_empty path).symm
  | some child => rfl

/-- A name that was there keeps its place. -/
theorem viaNames_putParamChild {name : Bytes} {next : TrieNode H}
    (h : ∀ path, next.getRoute order path = (node.paramChildOrNew name).getRoute order path)
    (path : Bytes) : viaNames order path (node.putParamChild name false next) =
      viaNames order path node := by
  rw [TrieNode.putParamChild]
  split
  · next hput =>
    simp only [Bool.false_eq_true, false_or] at hput
    have hkeys : (node.setParamChild name next).pchildrens.map Prod.fst =
        node.pchildrens.map Prod.fst := by
      rw [TrieNode.setParamChild, assign, keys_modify, if_pos (valueAt_isSome.mp hput)]
    rw [viaNames, viaNames, hkeys]
    refine firstOf_congr fun n _ ↦ ?_
    rw [viaName, viaName, getParamChild_setParamChild]
    split
    · next hn =>
      obtain ⟨old, hold⟩ := Option.isSome_iff_exists.mp hput
      rw [hn, hold, Option.elim_some, Option.elim_some, h, paramChildOrNew_eq hold]
    · rfl
  · rfl

theorem viaChild_putChild {c : UInt8}
    (h : ∀ path, child.getRoute order path = (node.childOrNew c).getRoute order path)
    (d : UInt8) (path : Bytes) :
    ((node.putChild c false child).getChild d).elim fail (TrieNode.getRoute order path) =
      (node.getChild d).elim fail (TrieNode.getRoute order path) := by
  rw [TrieNode.putChild]
  split
  · next hput =>
    simp only [Bool.false_eq_true, false_or] at hput
    obtain ⟨old, hold⟩ := Option.isSome_iff_exists.mp hput
    rw [getChild_setChild]
    split
    · next hd => rw [hd, hold, Option.elim_some, Option.elim_some, h, childOrNew_eq hold]
    · rfl
  · rfl

/-- An addition that fails leaves at most an empty node below `:`. -/
theorem getRoute_addRoute_of_failed (handler : H) (path : Bytes) (node : TrieNode H)
    (h : Proper node) (hfail : (node.addRoute handler path).1 = false) (path' : Bytes) :
    (node.addRoute handler path).2.getRoute order path' = node.getRoute order path' := by
  induction path, node using TrieNode.addRoute.induct handler generalizing path' with
  | case1 node hh => rw [addRoute_nil, if_pos hh]
  | case2 node hh =>
    rw [addRoute_nil, if_neg hh] at hfail
    cases hfail
  | case3 node path hd =>
    rw [addRoute_lastParam hd] at hfail
    cases hfail
  | case4 node path _ _ _ sep path'' hd ret child hadd ih =>
    rw [addRoute_param hd hadd] at hfail ⊢
    rw [hadd] at ih
    cases hfail
    have hcolon := namesOnly_colon h
    have hnext (path : Bytes) := ih (hcolon.paramChildOrNew _) rfl path
    refine getRoute_congr ?_ (fun c p ↦ ?_) (fun p ↦ ?_) ?_ path'
    · rfl
    · rw [getChild_setChild]
      split
      · next hc =>
        rw [hc, viaChild_colon h]
        exact getRoute_colon ((putParamChild_handler false).trans hcolon.handler)
          ((putParamChild_childrens false).trans hcolon.childrens) p
      · rfl
    · rw [getChild_setChild, if_pos rfl, Option.elim_some, viaNames_childOrNew]
      exact viaNames_putParamChild hnext p
    · rw [getChild_setChild, if_neg (by decide)]
  | case5 node path hs _ => rw [addRoute_star, if_pos hs]
  | case6 node path hs _ =>
    rw [addRoute_star, if_neg hs] at hfail
    cases hfail
  | case7 node c path hc hs ret child hadd ih =>
    rw [addRoute_lit hc hs hadd] at hfail ⊢
    rw [hadd] at ih
    cases hfail
    have hchild (path : Bytes) := ih (proper_childOrNew h ⟨c, hc, hs⟩) rfl path
    refine getRoute_congr (putChild_handler c false) (fun d p ↦ ?_) (fun p ↦ ?_) ?_ path'
    · exact viaChild_putChild hchild d p
    · rw [getChild_putChild_of_ne false (Ne.symm hc)]
    · rw [getChild_putChild_of_ne false (Ne.symm hs)]

end Failure

section Calls

/-- The tree behind a sequence of calls, and those of the calls that returned true. -/
def addRoutes (root : TrieNode H) : List (Bytes × H) → TrieNode H × List (Bytes × H)
  | [] => (root, [])
  | call :: calls =>
    let (ret, root) := addRoute root call.1 call.2
    let (root, added) := addRoutes root calls
    (root, if ret then call :: added else added)

variable {root last : TrieNode H} {added : List (Bytes × H)}

def slashToken : Token := .lit ⟨slash, by decide, by decide⟩

/-- What an addition to the tree does: nothing, or an addition below the root. -/
theorem addRoute_cases (root : TrieNode H) (path : Bytes) (handler : H) :
    addRoute root path handler = (false, root) ∨ ∃ rest, path = slash :: rest ∧
      addRoute root path handler = root.addRoute handler rest := by
  cases path with
  | nil => exact .inl rfl
  | cons c rest =>
    by_cases hc : c = slash
    · exact .inr ⟨rest, by rw [hc], if_pos hc⟩
    · exact .inl (if_neg hc)

/-- From one tree to a later one the handlers of these calls are registered. -/
structure Registers (root last : TrieNode H) (added : List (Bytes × H)) : Prop where
  proper : Proper last
  sound : ∀ ts h, handlerAt ts last = some h →
    handlerAt ts root = some h ∨ ∃ call ∈ added, call.2 = h ∧ tokens call.1 = slashToken :: ts
  keeps : ∀ ts, (handlerAt ts root).isSome → (handlerAt ts last).isSome
  complete : ∀ call ∈ added, ∃ ts, tokens call.1 = slashToken :: ts ∧ (handlerAt ts last).isSome

theorem registers_refl (h : Proper root) : Registers root root [] where
  proper := h
  sound _ _ h := .inl h
  keeps _ h := h
  complete call h := by cases h

theorem Registers.trans {mid : TrieNode H} {added' : List (Bytes × H)}
    (h : Registers root mid added) (h' : Registers mid last added') :
    Registers root last (added ++ added') where
  proper := h'.proper
  sound ts x hx := by
    obtain hmid | ⟨call, hcall, hlast⟩ := h'.sound ts x hx
    · obtain hroot | ⟨call, hcall, hmid⟩ := h.sound ts x hmid
      · exact .inl hroot
      · exact .inr ⟨call, List.mem_append_left _ hcall, hmid⟩
    · exact .inr ⟨call, List.mem_append_right _ hcall, hlast⟩
  keeps ts hx := h'.keeps ts (h.keeps ts hx)
  complete call hcall := by
    obtain hcall | hcall := List.mem_append.mp hcall
    · obtain ⟨ts, hts, hx⟩ := h.complete call hcall
      exact ⟨ts, hts, h'.keeps ts hx⟩
    · exact h'.complete call hcall

theorem registers_addRoute (h : Proper root) (path : Bytes) (handler : H) :
    Registers root (addRoute root path handler).2
      (if (addRoute root path handler).1 then [(path, handler)] else []) := by
  obtain hadd | ⟨rest, rfl, hadd⟩ := addRoute_cases root path handler
  · rw [hadd]
    exact registers_refl h
  · rw [hadd]
    have hat := handlerAt_addRoute handler rest root
    have htokens : tokens (slash :: rest) = slashToken :: tokens rest :=
      tokens_lit (by decide) (by decide) rest
    refine ⟨proper_addRoute handler rest root h, fun ts x hx ↦ ?_, fun ts hx ↦ ?_,
      fun call hcall ↦ ?_⟩
    · rw [hat] at hx
      split at hx
      · next hts =>
        cases hx
        rw [if_pos hts.1]
        exact .inr ⟨_, List.mem_singleton_self _, rfl, by rw [htokens, hts.2]⟩
      · exact .inl hx
    · rw [hat]
      split
      · rfl
      · exact hx
    · split at hcall
      · next hret =>
        rw [List.mem_singleton.mp hcall]
        exact ⟨_, htokens, by rw [hat, if_pos ⟨hret, rfl⟩, Option.isSome_some]⟩
      · cases hcall

theorem registers_addRoutes (h : Proper root) (calls : List (Bytes × H)) :
    Registers root (addRoutes root calls).1 (addRoutes root calls).2 := by
  induction calls generalizing root with
  | nil => exact registers_refl h
  | cons call calls ih =>
    have hstep := registers_addRoute h call.1 call.2
    have hrun := hstep.trans (ih hstep.proper)
    rw [addRoutes]
    split at hrun
    · next hret => simpa [hret] using hrun
    · next hret => simpa [hret] using hrun

theorem added_subset (root : TrieNode H) (calls : List (Bytes × H)) :
    (addRoutes root calls).2 ⊆ calls := by
  induction calls generalizing root with
  | nil => exact List.Subset.refl _
  | cons call calls ih =>
    rw [addRoutes]
    dsimp only
    split
    · exact List.cons_subset_cons call (ih _)
    · exact List.subset_cons_of_subset call (ih _)

end Calls

section Bindings

theorem map_fst_of_matches {ts : List Token} {path : Bytes} {bs : Bindings}
    (h : Matches ts path bs) : bs.map Prod.fst = boundNames ts := by
  induction h with
  | nil => rfl
  | lit c _ ih => exact ih
  | param name _ _ ih => exact congrArg (name :: ·) ih
  | rest _ => rfl

theorem bindAll_eq_some_iff {bs : Bindings} (h : (bs.map Prod.fst).Nodup) (name value : Bytes) :
    bindAll bs (fun _ ↦ none) name = some value ↔ (name, value) ∈ bs := by
  induction bs with
  | nil => simp [bindAll]
  | cons b bs ih =>
    rw [List.map_cons, List.nodup_cons] at h
    have hset : bindAll (b :: bs) (fun _ ↦ none) = (bindAll bs fun _ ↦ none).set b.1 b.2 := rfl
    rw [hset, Fields.set, Function.update_apply]
    split
    · next hn =>
      have hnot : (name, value) ∉ bs := fun hmem ↦ h.1 (hn ▸ List.mem_map_of_mem hmem)
      rw [List.mem_cons, or_iff_left hnot, Option.some.injEq, Prod.ext_iff]
      exact ⟨fun hv ↦ ⟨hn, hv.symm⟩, fun hv ↦ hv.2.symm⟩
    · next hn =>
      rw [ih h.2, List.mem_cons, or_iff_right fun hb ↦ hn (congrArg Prod.fst hb)]

end Bindings

section Routing

variable {order : HashOrder}

def noParams : Fields := fun _ ↦ none

/-- A path leads to a handler exactly where an added pattern matches it. The handler is that of
such a pattern, and what the match binds is set and nothing else. -/
structure RoutesTo (tokens : Bytes → List Token) (order : HashOrder) (root : TrieNode H)
    (added : List (Bytes × H)) (path : Bytes) : Prop where
  found : (getRoute order root path noParams).1.isSome ↔
    ∃ call ∈ added, ∃ bs, Matches (tokens call.1) path bs
  result : ∀ handler params, getRoute order root path noParams = (some handler, params) →
    ∃ call ∈ added, call.2 = handler ∧ ∃ bs, Matches (tokens call.1) path bs ∧
      ∀ name value, params name = some value ↔ (name, value) ∈ bs
  failed : ∀ params, getRoute order root path noParams = (none, params) → params = noParams

theorem matches_slash {ts : List Token} {c : UInt8} {path : Bytes} {bs : Bindings} :
    Matches (slashToken :: ts) (c :: path) bs ↔ c = slash ∧ Matches ts path bs := by
  constructor
  · intro h
    cases h with | lit _ h => exact ⟨rfl, h⟩
  · rintro ⟨rfl, h⟩
    exact .lit ⟨slash, _⟩ h

variable (order) in
theorem explores_tree {root : TrieNode H} (hroot : Proper root) {path : Bytes}
    (hpath : star ∉ path) : Explores (getRoute order root path) fun params h params' ↦
      ∃ ts bs, handlerAt ts root = some h ∧ Matches (slashToken :: ts) path bs ∧
        params' = bindAll bs params := by
  cases path with
  | nil =>
    refine explores_fail.congr fun params h params' ↦ iff_of_false id ?_
    rintro ⟨ts, bs, -, hm, -⟩
    cases hm
  | cons c path =>
    rw [List.mem_cons, not_or] at hpath
    by_cases hc : c = slash
    · have htree : getRoute order root (c :: path) = root.getRoute order path := if_pos hc
      rw [htree]
      exact (explores_getRoute hroot hpath.2).congr fun params h params' ↦ by
        simp only [matches_slash, hc, true_and]
    · have htree : getRoute order root (c :: path) = fail := if_neg hc
      rw [htree]
      exact explores_fail.congr fun params h params' ↦ by simp only [matches_slash, hc, false_and,
        and_false, exists_false]

theorem routesTo_addRoutes (order : HashOrder) {calls : List (Bytes × H)}
    (hdistinct : ∀ call ∈ calls, (boundNames (tokens call.1)).Nodup) {path : Bytes}
    (hpath : star ∉ path) :
    RoutesTo tokens order (addRoutes .empty calls).1 (addRoutes .empty calls).2 path := by
  have hreg := registers_addRoutes (proper_empty (H := H)) calls
  have hexp := explores_tree order hreg.proper hpath
  have hsound : ∀ handler params, getRoute order (addRoutes .empty calls).1 path noParams =
      (some handler, params) → ∃ call ∈ (addRoutes .empty calls).2, call.2 = handler ∧
        ∃ bs, Matches (tokens call.1) path bs ∧ params = bindAll bs noParams := by
    intro handler params h
    obtain ⟨ts, bs, hat, hm, hp⟩ := hexp.sound noParams handler params h
    obtain hempty | ⟨call, hcall, hh, hts⟩ := hreg.sound ts handler hat
    · rw [handlerAt_empty] at hempty
      cases hempty
    · exact ⟨call, hcall, hh, bs, by rwa [hts], hp⟩
  refine ⟨⟨fun h ↦ ?_, ?_⟩, fun handler params h ↦ ?_, fun params h ↦
    (hexp.complete noParams params h).1⟩
  · obtain ⟨handler, hh⟩ := Option.isSome_iff_exists.mp h
    obtain ⟨call, hcall, -, bs, hm, -⟩ := hsound handler _ (Prod.ext hh rfl)
    exact ⟨call, hcall, bs, hm⟩
  · rintro ⟨call, hcall, bs, hm⟩
    obtain ⟨ts, hts, hat⟩ := hreg.complete call hcall
    obtain ⟨handler, hh⟩ := Option.isSome_iff_exists.mp hat
    by_contra hnone
    rw [Bool.not_eq_true, Option.isSome_eq_false_iff, Option.isNone_iff_eq_none] at hnone
    exact (hexp.complete noParams _ (Prod.ext hnone rfl)).2 handler _
      ⟨ts, bs, hh, hts ▸ hm, rfl⟩
  · obtain ⟨call, hcall, hh, bs, hm, rfl⟩ := hsound handler params h
    have hnodup := hdistinct call (added_subset .empty calls hcall)
    rw [← map_fst_of_matches hm] at hnodup
    exact ⟨call, hcall, hh, bs, hm, bindAll_eq_some_iff hnodup⟩

/-- A call that returns false changes no lookup. -/
theorem getRoute_of_failed {root : TrieNode H} (hroot : Proper root) {pattern : Bytes} {handler : H}
    (h : (addRoute root pattern handler).1 = false) (path : Bytes) :
    getRoute order (addRoute root pattern handler).2 path = getRoute order root path := by
  obtain hadd | ⟨rest, rfl, hadd⟩ := addRoute_cases root pattern handler
  · rw [hadd]
  · rw [hadd] at h ⊢
    cases path with
    | nil => rfl
    | cons c path =>
      rw [getRoute, getRoute]
      split
      · exact getRoute_addRoute_of_failed handler rest root hroot h path
      · rfl

/-- A handler stands where an added pattern leads to. -/
theorem handlerAt_isSome_iff {root : TrieNode H} {added : List (Bytes × H)}
    (h : Registers .empty root added) (ts : List Token) :
    (handlerAt ts root).isSome ↔ ∃ call ∈ added, tokens call.1 = slashToken :: ts := by
  constructor
  · intro hsome
    obtain ⟨handler, hh⟩ := Option.isSome_iff_exists.mp hsome
    obtain hempty | ⟨call, hcall, -, hts⟩ := h.sound ts handler hh
    · rw [handlerAt_empty] at hempty
      cases hempty
    · exact ⟨call, hcall, hts⟩
  · rintro ⟨call, hcall, hts⟩
    obtain ⟨ts', hts', hsome⟩ := h.complete call hcall
    rw [hts, List.cons.injEq] at hts'
    exact hts'.2 ▸ hsome

/-- A pattern is added if it starts with `/`, and ends in a parameter or is new. -/
theorem addRoute_adds_iff (calls : List (Bytes × H)) (pattern : Bytes) (handler : H) :
    (addRoute (addRoutes .empty calls).1 pattern handler).1 = true ↔
      pattern.head? = some slash ∧ (endsInParam (tokens pattern) = true ∨
        ∀ call ∈ (addRoutes .empty calls).2, tokens call.1 ≠ tokens pattern) := by
  have hreg := registers_addRoutes (proper_empty (H := H)) calls
  cases pattern with
  | nil => exact iff_of_false (fun h ↦ by cases h) fun h ↦ by cases h.1
  | cons c rest =>
    by_cases hc : c = slash
    · subst hc
      have hadd : addRoute (addRoutes .empty calls).1 (slash :: rest) handler =
          (addRoutes .empty calls).1.addRoute handler rest := by
        rw [addRoute]
        exact if_pos rfl
      have hends : endsInParam (tokens (slash :: rest)) = endsInParam (tokens rest) := by
        rw [tokens_lit (by decide) (by decide)]
        rfl
      have hnone : handlerAt (tokens rest) (addRoutes .empty calls).1 = none ↔
          ∀ call ∈ (addRoutes .empty calls).2, tokens call.1 ≠ tokens (slash :: rest) := by
        rw [← Option.not_isSome_iff_eq_none, handlerAt_isSome_iff hreg,
          tokens_lit (by decide) (by decide)]
        constructor
        · intro h call hcall hts
          exact h ⟨call, hcall, hts⟩
        · intro h hmem
          obtain ⟨call, hcall, hts⟩ := hmem
          exact h call hcall hts
      rw [hadd, addRoute_returns handler rest _ hreg.proper, hends, hnone, List.head?_cons,
        and_iff_right rfl]
    · have hadd : addRoute (addRoutes .empty calls).1 (c :: rest) handler =
          (false, (addRoutes .empty calls).1) := if_neg hc
      rw [hadd, List.head?_cons]
      exact iff_of_false (fun h ↦ by cases h) fun h ↦ hc (Option.some.inj h.1)

/-- The router finds a route where one matches, with what the match binds, an addition that
fails changes nothing, and it fails only for a pattern that is no path or is there already. -/
theorem router_correct (order : HashOrder) (calls : List (Bytes × H))
    (hdistinct : ∀ call ∈ calls, (boundNames (tokens call.1)).Nodup) (path : Bytes)
    (hpath : star ∉ path) :
    RoutesTo tokens order (addRoutes .empty calls).1 (addRoutes .empty calls).2 path ∧
      ∀ pattern handler,
        ((addRoute (addRoutes .empty calls).1 pattern handler).1 = true ↔
          pattern.head? = some slash ∧ (endsInParam (tokens pattern) = true ∨
            ∀ call ∈ (addRoutes .empty calls).2, tokens call.1 ≠ tokens pattern)) ∧
        ((addRoute (addRoutes .empty calls).1 pattern handler).1 = false → ∀ path' params,
          getRoute order (addRoute (addRoutes .empty calls).1 pattern handler).2 path' params =
            getRoute order (addRoutes .empty calls).1 path' params) :=
  ⟨routesTo_addRoutes order hdistinct hpath, fun pattern handler ↦
    ⟨addRoute_adds_iff calls pattern handler, fun hfail path' params ↦
      congrFun (getRoute_of_failed (registers_addRoutes proper_empty calls).proper hfail path') params⟩⟩

/-- A first pattern that is a path is added. -/
theorem addRoutes_single (rest : Bytes) (handler : H) :
    (addRoutes .empty [(slash :: rest, handler)]).2 = [(slash :: rest, handler)] := by
  have hadds := (addRoute_adds_iff [] (slash :: rest) handler).mpr ⟨rfl, .inr (List.forall_mem_nil _)⟩
  rw [addRoutes]
  simp only [addRoutes] at hadds ⊢
  rw [if_pos hadds]

/-- The route `/:a` and the path `/b`. -/
theorem router_oneParam : ∃ params, getRoute ⟨id, List.Perm.refl⟩
    (addRoutes .empty [([slash, colon, 97], true)]).1 [slash, 98] noParams = (some true, params) ∧
      ∀ name value, params name = some value ↔ name = [97] ∧ value = [98] := by
  have htokens : tokens [slash, colon, 97] = [slashToken, .param [97]] := by
    rw [tokens_lit (by decide) (by decide), tokens_colon, show [97].dropWhile inName = [] by decide, tokens_nil]
    rfl
  have hadded := addRoutes_single [colon, 97] true
  obtain ⟨hfound, hresult, -⟩ := (router_correct ⟨id, List.Perm.refl⟩ [([slash, colon, 97], true)] (by
    intro call hcall
    rw [List.mem_singleton.mp hcall, htokens]
    exact List.nodup_singleton _) [slash, 98] (by decide)).1
  rw [hadded] at hfound hresult
  have hmatch : Matches [slashToken, .param [97]] [slash, 98] [([97], [98])] :=
    matches_slash.mpr ⟨rfl, .param [97] (List.cons_ne_nil _ _) .nil⟩
  obtain ⟨handler, hh⟩ := Option.isSome_iff_exists.mp
    (hfound.mpr ⟨_, List.mem_singleton_self _, _, htokens.symm ▸ hmatch⟩)
  obtain ⟨call, hcall, rfl, bs, hm, hbinds⟩ := hresult handler _ (Prod.ext hh rfl)
  rw [List.mem_singleton.mp hcall] at hh hm
  rw [htokens] at hm
  refine ⟨_, Prod.ext hh rfl, fun name value ↦ ?_⟩
  rw [hbinds]
  cases hm with | lit _ hm =>
  cases hm with | param _ _ hm =>
  have hrest : [98].dropWhile inName = [] := by decide
  rw [hrest] at hm
  cases hm
  have hrun : [98].takeWhile inName = [98] := by decide
  rw [hrun, List.mem_singleton, Prod.mk.injEq]

/-- The pattern `/:a*b/c` has the parameter `a*b`, and the path `/x/d` does not match it. -/
theorem starInName_notRest :
    (addRoutes .empty [([slash, colon, 97, star, 98, slash, 99], true)]).2 =
      [([slash, colon, 97, star, 98, slash, 99], true)] ∧
    (boundNames (tokensToStar [slash, colon, 97, star, 98, slash, 99])).Nodup ∧
    star ∉ [slash, 120, slash, 100] ∧
    ¬ RoutesTo tokensToStar ⟨id, List.Perm.refl⟩
      (addRoutes .empty [([slash, colon, 97, star, 98, slash, 99], true)]).1
      (addRoutes .empty [([slash, colon, 97, star, 98, slash, 99], true)]).2
      [slash, 120, slash, 100] := by
  have hadded := addRoutes_single [colon, 97, star, 98, slash, 99] true
  have htokens : tokens [slash, colon, 97, star, 98, slash, 99] =
      [slashToken, .param [97, star, 98], slashToken, .lit ⟨99, by decide, by decide⟩] := by
    rw [tokens_lit (by decide) (by decide), tokens_colon,
      show [97, star, 98, slash, 99].takeWhile inName = [97, star, 98] by decide,
      show [97, star, 98, slash, 99].dropWhile inName = [slash, 99] by decide,
      tokens_lit (by decide) (by decide), tokens_lit (by decide) (by decide), tokens_nil]
    rfl
  have htoStar : tokensToStar [slash, colon, 97, star, 98, slash, 99] =
      [slashToken, .param [97], .rest] := by
    rw [tokensToStar, tokensBy_lit _ (by decide) (by decide), tokensBy_colon,
      show [97, star, 98, slash, 99].takeWhile (fun c ↦ inName c && c != star) = [97] by decide,
      show [97, star, 98, slash, 99].dropWhile (fun c ↦ inName c && c != star) = [star, 98, slash, 99] by
        decide, tokensBy_star]
    rfl
  refine ⟨hadded, ?_, by decide, fun hclaim ↦ ?_⟩
  · rw [htoStar]
    decide
  have hdistinct : ∀ call ∈ [([slash, colon, 97, star, 98, slash, 99], true)],
      (boundNames (tokens call.1)).Nodup := by
    intro call hcall
    rw [List.mem_singleton.mp hcall, htokens]
    exact List.nodup_singleton _
  have hmatch : Matches [slashToken, .param [97], .rest] [slash, 120, slash, 100]
      [([97], [120]), ([star], [slash, 100])] :=
    matches_slash.mpr ⟨rfl, .param [97] (List.cons_ne_nil _ _) (.rest (List.cons_ne_nil _ _))⟩
  have hfound := hclaim.found.mpr ⟨_, hadded ▸ List.mem_singleton_self _, _, htoStar.symm ▸ hmatch⟩
  obtain ⟨call, hcall, bs, hm⟩ :=
    (routesTo_addRoutes ⟨id, List.Perm.refl⟩ hdistinct (by decide)).found.mp hfound
  rw [hadded] at hcall
  rw [List.mem_singleton.mp hcall, htokens] at hm
  cases hm with | lit _ hm =>
  cases hm with | param _ _ hm =>
  rw [show [120, slash, 100].dropWhile inName = [slash, 100] by decide] at hm
  have hm := (matches_slash.mp hm).2
  cases hm

end Routing

end MmsServer.Http.RouteTable
