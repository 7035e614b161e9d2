import ExprLang.Tree

/-!
# Trees with other tokens

`mapTokens f` replaces every token of a tree by its image and leaves the rest as it is.
-/

namespace ExprLang

mutual

/-- The expression with its tokens replaced. -/
def Expr.mapTokens (f : Token → Token) : Expr → Expr
  | .ident x => .ident ⟨f x.token, x.name⟩
  | .number t v => .number (f t) v
  | .boolean t v => .boolean (f t) v
  | .unary t op r => .unary (f t) op (r.mapTokens f)
  | .binary t l op r => .binary (f t) (l.mapTokens f) op (r.mapTokens f)
  | .conditional t c b none => .conditional (f t) (c.mapTokens f) (b.mapTokens f) none
  | .conditional t c b (some a) =>
    .conditional (f t) (c.mapTokens f) (b.mapTokens f) (some (a.mapTokens f))

def Stmt.mapTokens (f : Token → Token) : Stmt → Stmt
  | .binding t x v => .binding (f t) ⟨f x.token, x.name⟩ (v.mapTokens f)
  | .result t v => .result (f t) (v.mapTokens f)
  | .expression t v => .expression (f t) (v.mapTokens f)
  | .block b => .block (b.mapTokens f)

def Block.mapTokens (f : Token → Token) : Block → Block
  | .mk t ss => .mk (f t) (Stmt.mapTokensAll f ss)

def Stmt.mapTokensAll (f : Token → Token) : List Stmt → List Stmt
  | [] => []
  | s :: ss => s.mapTokens f :: Stmt.mapTokensAll f ss

end

theorem Stmt.mapTokensAll_eq (f : Token → Token) (ss : List Stmt) :
    Stmt.mapTokensAll f ss = ss.map (Stmt.mapTokens f) := by
  induction ss with
  | nil => rfl
  | cons s ss ih => rw [Stmt.mapTokensAll, ih, List.map_cons]

mutual

theorem Expr.mapTokens_id : (e : Expr) → e.mapTokens id = e
  | .ident _ | .number _ _ | .boolean _ _ => rfl
  | .unary _ _ r => by rw [Expr.mapTokens, r.mapTokens_id, id]
  | .binary _ l _ r => by rw [Expr.mapTokens, l.mapTokens_id, r.mapTokens_id, id]
  | .conditional _ c b none => by rw [Expr.mapTokens, c.mapTokens_id, b.mapTokens_id, id]
  | .conditional _ c b (some a) => by
    rw [Expr.mapTokens, c.mapTokens_id, b.mapTokens_id, a.mapTokens_id, id]

theorem Stmt.mapTokens_id : (st : Stmt) → st.mapTokens id = st
  | .binding _ _ v | .result _ v | .expression _ v => by
    simp only [Stmt.mapTokens, v.mapTokens_id, id]
  | .block b => by rw [Stmt.mapTokens, b.mapTokens_id]

theorem Block.mapTokens_id : (b : Block) → b.mapTokens id = b
  | .mk _ ss => by rw [Block.mapTokens, Stmt.mapTokensAll_id ss, id]

theorem Stmt.mapTokensAll_id : (ss : List Stmt) → Stmt.mapTokensAll id ss = ss
  | [] => rfl
  | s :: ss => by rw [Stmt.mapTokensAll, s.mapTokens_id, Stmt.mapTokensAll_id ss]

end

theorem Expr.eq_of_mapTokens_id {e e' : Expr} (h : e.mapTokens id = e'.mapTokens id) : e = e' := by
  rwa [e.mapTokens_id, e'.mapTokens_id] at h

theorem Stmt.eq_of_mapTokens_id {st st' : Stmt} (h : st.mapTokens id = st'.mapTokens id) :
    st = st' := by
  rwa [st.mapTokens_id, st'.mapTokens_id] at h

theorem Stmt.eq_of_map_mapTokens_id {ss ss' : List Stmt}
    (h : ss.map (Stmt.mapTokens id) = ss'.map (Stmt.mapTokens id)) : ss = ss' := by
  rwa [← Stmt.mapTokensAll_eq, ← Stmt.mapTokensAll_eq, Stmt.mapTokensAll_id,
    Stmt.mapTokensAll_id] at h

end ExprLang
