/-
  Lox.Proofs.Pipe.Flatten
  ────────────────────────────────
  **EXPANSION IS COMPOSITIONAL.**

  Expanding `left |> right` fills the right side with the expanded left side and
  then expands what comes out, which is no part of the pipe.  `flat` is the
  expansion that one would write down: it goes into the parts of a tree only,

      flat (left |> right)  =  flat right, filled with flat left,

  and knows nothing of faults.  The two agree on all programs in which every
  pipe uses its left side, and these are exactly the programs in which no fault
  is found (`expandPipes_compositional`).  What it takes:

    • `fill_fill`: filling twice is filling once with the filled filling,
    • `flat_fill`: flattening commutes with filling,
    • `everyPipe_flat`: no pipe is left,
    • `flat_of_pipeFree`: without pipes there is nothing to do, so an expanded
      left side that is flattened once more stays as it is.
-/
import Lox.Pipe.Expand

namespace Lox

/-! ## §1. The pipes of a tree. -/

mutual

/-- Whether the right side of every pipe in an expression is as wanted, the
pipes in function bodies included. -/
def Expr.everyPipe (wanted : Expr → Bool) : Expr → Bool
  | .literal _ | .name _ => true
  | .unary _ inner | .assign _ inner | .group inner => Expr.everyPipe wanted inner
  | .binary left _ right | .logical left _ right =>
    Expr.everyPipe wanted left && Expr.everyPipe wanted right
  | .pipe left _ right =>
    wanted right && Expr.everyPipe wanted left && Expr.everyPipe wanted right
  | .call callee _ arguments =>
    Expr.everyPipe wanted callee && Expr.everyPipeAll wanted arguments
  | .function _ _ body => Stmt.everyPipeAll wanted body

/-- Whether the right side of every pipe in some expressions is as wanted. -/
def Expr.everyPipeAll (wanted : Expr → Bool) : List Expr → Bool
  | [] => true
  | e :: es => Expr.everyPipe wanted e && Expr.everyPipeAll wanted es

/-- Whether the right side of every pipe in an optional expression is as wanted. -/
def Expr.everyPipeOption (wanted : Expr → Bool) : Option Expr → Bool
  | none => true
  | some e => Expr.everyPipe wanted e

/-- Whether the right side of every pipe in a statement is as wanted. -/
def Stmt.everyPipe (wanted : Expr → Bool) : Stmt → Bool
  | .expr value | .print value => Expr.everyPipe wanted value
  | .var _ value | .give _ value => Expr.everyPipeOption wanted value
  | .block body | .function _ _ body => Stmt.everyPipeAll wanted body
  | .branch condition yes no =>
    Expr.everyPipe wanted condition && Stmt.everyPipe wanted yes && Stmt.everyPipeOption wanted no
  | .loop condition body _ => Expr.everyPipe wanted condition && Stmt.everyPipe wanted body
  | .leave _ | .next _ => true

/-- Whether the right side of every pipe in some statements is as wanted. -/
def Stmt.everyPipeAll (wanted : Expr → Bool) : List Stmt → Bool
  | [] => true
  | s :: ss => Stmt.everyPipe wanted s && Stmt.everyPipeAll wanted ss

/-- Whether the right side of every pipe in an optional statement is as wanted. -/
def Stmt.everyPipeOption (wanted : Expr → Bool) : Option Stmt → Bool
  | none => true
  | some s => Stmt.everyPipe wanted s

end

/-- Whether every pipe has a placeholder for its left side. -/
def Stmt.pipesUsed (ss : List Stmt) : Bool := Stmt.everyPipeAll Expr.hasOwn ss

/-- Whether there is no pipe. -/
def Stmt.pipeFree (ss : List Stmt) : Bool := Stmt.everyPipeAll (fun _ => false) ss

/-! ## §2. The expansion by parts. -/

mutual

/-- An expression with its pipes expanded, from its parts. -/
def Expr.flat : Expr → Expr
  | .literal value => .literal value
  | .name token => .name token
  | .unary operator operand => .unary operator operand.flat
  | .binary left operator right => .binary left.flat operator right.flat
  | .logical left operator right => .logical left.flat operator right.flat
  | .pipe left _ right => Expr.fill left.flat right.flat
  | .call callee paren arguments => .call callee.flat paren (Expr.flatAll arguments)
  | .assign target value => .assign target value.flat
  | .group inner => .group inner.flat
  | .function own parameters body => .function own parameters (Stmt.flatAll body)

/-- Some expressions with their pipes expanded. -/
def Expr.flatAll : List Expr → List Expr
  | [] => []
  | e :: es => e.flat :: Expr.flatAll es

/-- An optional expression with its pipes expanded. -/
def Expr.flatOption : Option Expr → Option Expr
  | none => none
  | some e => some e.flat

/-- A statement with its pipes expanded. -/
def Stmt.flat : Stmt → Stmt
  | .expr value => .expr value.flat
  | .print value => .print value.flat
  | .var name initial => .var name (Expr.flatOption initial)
  | .block body => .block (Stmt.flatAll body)
  | .branch condition yes no => .branch condition.flat yes.flat (Stmt.flatOption no)
  | .loop condition body increment => .loop condition.flat body.flat increment
  | .function name parameters body => .function name parameters (Stmt.flatAll body)
  | .give keyword value => .give keyword (Expr.flatOption value)
  | .leave keyword => .leave keyword
  | .next keyword => .next keyword

/-- Some statements with their pipes expanded. -/
def Stmt.flatAll : List Stmt → List Stmt
  | [] => []
  | s :: ss => s.flat :: Stmt.flatAll ss

/-- An optional statement with its pipes expanded. -/
def Stmt.flatOption : Option Stmt → Option Stmt
  | none => none
  | some s => some s.flat

end

theorem Expr.flatAll_eq_map (es : List Expr) : Expr.flatAll es = es.map Expr.flat := by
  induction es with
  | nil => simp only [Expr.flatAll, List.map_nil]
  | cons e es ih => simp only [Expr.flatAll, List.map_cons, ih]

theorem Expr.flatOption_eq_map (o : Option Expr) : Expr.flatOption o = o.map Expr.flat := by
  cases o <;> simp only [Expr.flatOption, Option.map_none, Option.map_some]

theorem Stmt.flatAll_eq_map (ss : List Stmt) : Stmt.flatAll ss = ss.map Stmt.flat := by
  induction ss with
  | nil => simp only [Stmt.flatAll, List.map_nil]
  | cons s ss ih => simp only [Stmt.flatAll, List.map_cons, ih]

/-! ## §3. Filling. -/

theorem Expr.fillAll_eq_map (v : Expr) (es : List Expr) :
    Expr.fillAll v es = es.map (Expr.fill v) := by
  induction es with
  | nil => simp only [Expr.fillAll, List.map_nil]
  | cons e es ih => simp only [Expr.fillAll, List.map_cons, ih]

mutual

/-- **Filling twice is filling once,** with the filling filled. -/
theorem Expr.fill_fill (v w : Expr) :
    (e : Expr) → Expr.fill v (Expr.fill w e) = Expr.fill (Expr.fill v w) e
  | .literal _ => by simp only [Expr.fill]
  | .name token => by
    by_cases h : token.isSymbol .dollar = true
    · simp only [Expr.fill, h, if_true]
    · simp only [Expr.fill, h, if_false, Bool.false_eq_true]
  | .unary _ operand => by simp only [Expr.fill, Expr.fill_fill v w operand]
  | .binary left _ right | .logical left _ right => by
    simp only [Expr.fill, Expr.fill_fill v w left, Expr.fill_fill v w right]
  -- The right side of a nested pipe has its own placeholders.
  | .pipe left _ _ => by simp only [Expr.fill, Expr.fill_fill v w left]
  | .call callee _ arguments => by
    simp only [Expr.fill, Expr.fill_fill v w callee, Expr.fillAll_fillAll v w arguments]
  | .assign _ value => by simp only [Expr.fill, Expr.fill_fill v w value]
  | .group inner => by simp only [Expr.fill, Expr.fill_fill v w inner]
  | .function _ _ _ => by simp only [Expr.fill]

theorem Expr.fillAll_fillAll (v w : Expr) :
    (es : List Expr) → Expr.fillAll v (Expr.fillAll w es) = Expr.fillAll (Expr.fill v w) es
  | [] => by simp only [Expr.fillAll]
  | e :: es => by
    simp only [Expr.fillAll, Expr.fill_fill v w e, Expr.fillAll_fillAll v w es]

end

mutual

/-- **Flattening commutes with filling.** -/
theorem Expr.flat_fill (v : Expr) :
    (e : Expr) → (Expr.fill v e).flat = Expr.fill v.flat e.flat
  | .literal _ => by simp only [Expr.fill, Expr.flat]
  | .name token => by
    by_cases h : token.isSymbol .dollar = true
    · simp only [Expr.fill, Expr.flat, h, if_true]
    · simp only [Expr.fill, Expr.flat, h, if_false, Bool.false_eq_true]
  | .unary _ operand => by simp only [Expr.fill, Expr.flat, Expr.flat_fill v operand]
  | .binary left _ right | .logical left _ right => by
    simp only [Expr.fill, Expr.flat, Expr.flat_fill v left, Expr.flat_fill v right]
  -- Only the left side of a nested pipe is filled, so filling has to compose.
  | .pipe left operator right => by
    calc (Expr.fill v (.pipe left operator right)).flat
        = Expr.fill (Expr.fill v left).flat right.flat := by simp only [Expr.fill, Expr.flat]
      _ = Expr.fill (Expr.fill v.flat left.flat) right.flat := by rw [Expr.flat_fill v left]
      _ = Expr.fill v.flat (Expr.fill left.flat right.flat) := by rw [Expr.fill_fill]
      _ = Expr.fill v.flat (Expr.pipe left operator right).flat := by simp only [Expr.flat]
  | .call callee _ arguments => by
    simp only [Expr.fill, Expr.flat, Expr.flat_fill v callee, Expr.flatAll_fillAll v arguments]
  | .assign _ value => by simp only [Expr.fill, Expr.flat, Expr.flat_fill v value]
  | .group inner => by simp only [Expr.fill, Expr.flat, Expr.flat_fill v inner]
  | .function _ _ _ => by simp only [Expr.fill, Expr.flat]

theorem Expr.flatAll_fillAll (v : Expr) :
    (es : List Expr) → Expr.flatAll (Expr.fillAll v es) = Expr.fillAll v.flat (Expr.flatAll es)
  | [] => by simp only [Expr.fillAll, Expr.flatAll]
  | e :: es => by
    simp only [Expr.fillAll, Expr.flatAll, Expr.flat_fill v e, Expr.flatAll_fillAll v es]

end

mutual

/-- Filling keeps the right sides of pipes, and adds the pipes of the filling. -/
theorem Expr.everyPipe_fill {wanted : Expr → Bool} {v : Expr}
    (hv : Expr.everyPipe wanted v = true) :
    (e : Expr) → Expr.everyPipe wanted (Expr.fill v e) = Expr.everyPipe wanted e
  | .literal _ => by simp only [Expr.fill]
  | .name token => by
    by_cases h : token.isSymbol .dollar = true
    · simp only [Expr.fill, Expr.everyPipe, h, if_true, hv]
    · simp only [Expr.fill, h, if_false, Bool.false_eq_true]
  | .unary _ inner | .assign _ inner | .group inner => by
    simp only [Expr.fill, Expr.everyPipe, Expr.everyPipe_fill hv inner]
  | .binary left _ right | .logical left _ right => by
    simp only [Expr.fill, Expr.everyPipe, Expr.everyPipe_fill hv left,
      Expr.everyPipe_fill hv right]
  | .pipe left _ _ => by simp only [Expr.fill, Expr.everyPipe, Expr.everyPipe_fill hv left]
  | .call callee _ arguments => by
    simp only [Expr.fill, Expr.everyPipe, Expr.everyPipe_fill hv callee,
      Expr.everyPipeAll_fillAll hv arguments]
  | .function _ _ _ => by simp only [Expr.fill]

theorem Expr.everyPipeAll_fillAll {wanted : Expr → Bool} {v : Expr}
    (hv : Expr.everyPipe wanted v = true) :
    (es : List Expr) →
      Expr.everyPipeAll wanted (Expr.fillAll v es) = Expr.everyPipeAll wanted es
  | [] => by simp only [Expr.fillAll]
  | e :: es => by
    simp only [Expr.fillAll, Expr.everyPipeAll, Expr.everyPipe_fill hv e,
      Expr.everyPipeAll_fillAll hv es]

end

/-! ## §4. Nothing is left to expand. -/

mutual

/-- **No pipe is left in a flat expression.** -/
theorem Expr.everyPipe_flat (wanted : Expr → Bool) :
    (e : Expr) → Expr.everyPipe wanted e.flat = true
  | .literal _ | .name _ => by simp only [Expr.flat, Expr.everyPipe]
  | .unary _ inner | .assign _ inner | .group inner => by
    simp only [Expr.flat, Expr.everyPipe, Expr.everyPipe_flat wanted inner]
  | .binary left _ right | .logical left _ right => by
    simp only [Expr.flat, Expr.everyPipe, Expr.everyPipe_flat wanted left,
      Expr.everyPipe_flat wanted right, Bool.and_true]
  -- The pipe is gone, and what it is filled with has no pipe either.
  | .pipe left _ right => by
    simp only [Expr.flat]
    rw [Expr.everyPipe_fill (Expr.everyPipe_flat wanted left)]
    exact Expr.everyPipe_flat wanted right
  | .call callee _ arguments => by
    simp only [Expr.flat, Expr.everyPipe, Expr.everyPipe_flat wanted callee,
      Expr.everyPipeAll_flatAll wanted arguments, Bool.and_true]
  | .function _ _ body => by
    simp only [Expr.flat, Expr.everyPipe, Stmt.everyPipeAll_flatAll wanted body]

theorem Expr.everyPipeAll_flatAll (wanted : Expr → Bool) :
    (es : List Expr) → Expr.everyPipeAll wanted (Expr.flatAll es) = true
  | [] => by simp only [Expr.flatAll, Expr.everyPipeAll]
  | e :: es => by
    simp only [Expr.flatAll, Expr.everyPipeAll, Expr.everyPipe_flat wanted e,
      Expr.everyPipeAll_flatAll wanted es, Bool.and_true]

theorem Expr.everyPipeOption_flatOption (wanted : Expr → Bool) :
    (o : Option Expr) → Expr.everyPipeOption wanted (Expr.flatOption o) = true
  | none => by simp only [Expr.flatOption, Expr.everyPipeOption]
  | some e => by
    simp only [Expr.flatOption, Expr.everyPipeOption, Expr.everyPipe_flat wanted e]

theorem Stmt.everyPipe_flat (wanted : Expr → Bool) :
    (s : Stmt) → Stmt.everyPipe wanted s.flat = true
  | .expr value | .print value => by
    simp only [Stmt.flat, Stmt.everyPipe, Expr.everyPipe_flat wanted value]
  | .var _ value | .give _ value => by
    simp only [Stmt.flat, Stmt.everyPipe, Expr.everyPipeOption_flatOption wanted value]
  | .block body | .function _ _ body => by
    simp only [Stmt.flat, Stmt.everyPipe, Stmt.everyPipeAll_flatAll wanted body]
  | .branch condition yes no => by
    simp only [Stmt.flat, Stmt.everyPipe, Expr.everyPipe_flat wanted condition,
      Stmt.everyPipe_flat wanted yes, Stmt.everyPipeOption_flatOption wanted no, Bool.and_true]
  | .loop condition body _ => by
    simp only [Stmt.flat, Stmt.everyPipe, Expr.everyPipe_flat wanted condition,
      Stmt.everyPipe_flat wanted body, Bool.and_true]
  | .leave _ | .next _ => by simp only [Stmt.flat, Stmt.everyPipe]

theorem Stmt.everyPipeAll_flatAll (wanted : Expr → Bool) :
    (ss : List Stmt) → Stmt.everyPipeAll wanted (Stmt.flatAll ss) = true
  | [] => by simp only [Stmt.flatAll, Stmt.everyPipeAll]
  | s :: ss => by
    simp only [Stmt.flatAll, Stmt.everyPipeAll, Stmt.everyPipe_flat wanted s,
      Stmt.everyPipeAll_flatAll wanted ss, Bool.and_true]

theorem Stmt.everyPipeOption_flatOption (wanted : Expr → Bool) :
    (o : Option Stmt) → Stmt.everyPipeOption wanted (Stmt.flatOption o) = true
  | none => by simp only [Stmt.flatOption, Stmt.everyPipeOption]
  | some s => by
    simp only [Stmt.flatOption, Stmt.everyPipeOption, Stmt.everyPipe_flat wanted s]

end

mutual

/-- **Without pipes there is nothing to flatten.** -/
theorem Expr.flat_of_pipeFree :
    (e : Expr) → Expr.everyPipe (fun _ => false) e = true → e.flat = e
  | .literal _, _ | .name _, _ => by simp only [Expr.flat]
  | .unary _ inner, h | .assign _ inner, h | .group inner, h => by
    simp only [Expr.everyPipe] at h
    simp only [Expr.flat, Expr.flat_of_pipeFree inner h]
  | .binary left _ right, h | .logical left _ right, h => by
    simp only [Expr.everyPipe, Bool.and_eq_true] at h
    simp only [Expr.flat, Expr.flat_of_pipeFree left h.1, Expr.flat_of_pipeFree right h.2]
  | .pipe left _ right, h => by simp [Expr.everyPipe] at h
  | .call callee _ arguments, h => by
    simp only [Expr.everyPipe, Bool.and_eq_true] at h
    simp only [Expr.flat, Expr.flat_of_pipeFree callee h.1, Expr.flatAll_of_pipeFree arguments h.2]
  | .function _ _ body, h => by
    simp only [Expr.everyPipe] at h
    simp only [Expr.flat, Stmt.flatAll_of_pipeFree body h]

theorem Expr.flatAll_of_pipeFree :
    (es : List Expr) → Expr.everyPipeAll (fun _ => false) es = true → Expr.flatAll es = es
  | [], _ => by simp only [Expr.flatAll]
  | e :: es, h => by
    simp only [Expr.everyPipeAll, Bool.and_eq_true] at h
    simp only [Expr.flatAll, Expr.flat_of_pipeFree e h.1, Expr.flatAll_of_pipeFree es h.2]

theorem Expr.flatOption_of_pipeFree :
    (o : Option Expr) → Expr.everyPipeOption (fun _ => false) o = true → Expr.flatOption o = o
  | none, _ => by simp only [Expr.flatOption]
  | some e, h => by
    simp only [Expr.everyPipeOption] at h
    simp only [Expr.flatOption, Expr.flat_of_pipeFree e h]

theorem Stmt.flat_of_pipeFree :
    (s : Stmt) → Stmt.everyPipe (fun _ => false) s = true → s.flat = s
  | .expr value, h | .print value, h => by
    simp only [Stmt.everyPipe] at h
    simp only [Stmt.flat, Expr.flat_of_pipeFree value h]
  | .var _ value, h | .give _ value, h => by
    simp only [Stmt.everyPipe] at h
    simp only [Stmt.flat, Expr.flatOption_of_pipeFree value h]
  | .block body, h | .function _ _ body, h => by
    simp only [Stmt.everyPipe] at h
    simp only [Stmt.flat, Stmt.flatAll_of_pipeFree body h]
  | .branch condition yes no, h => by
    simp only [Stmt.everyPipe, Bool.and_eq_true] at h
    simp only [Stmt.flat, Expr.flat_of_pipeFree condition h.1.1, Stmt.flat_of_pipeFree yes h.1.2,
      Stmt.flatOption_of_pipeFree no h.2]
  | .loop condition body _, h => by
    simp only [Stmt.everyPipe, Bool.and_eq_true] at h
    simp only [Stmt.flat, Expr.flat_of_pipeFree condition h.1, Stmt.flat_of_pipeFree body h.2]
  | .leave _, _ | .next _, _ => by simp only [Stmt.flat]

theorem Stmt.flatAll_of_pipeFree :
    (ss : List Stmt) → Stmt.everyPipeAll (fun _ => false) ss = true → Stmt.flatAll ss = ss
  | [], _ => by simp only [Stmt.flatAll]
  | s :: ss, h => by
    simp only [Stmt.everyPipeAll, Bool.and_eq_true] at h
    simp only [Stmt.flatAll, Stmt.flat_of_pipeFree s h.1, Stmt.flatAll_of_pipeFree ss h.2]

theorem Stmt.flatOption_of_pipeFree :
    (o : Option Stmt) → Stmt.everyPipeOption (fun _ => false) o = true → Stmt.flatOption o = o
  | none, _ => by simp only [Stmt.flatOption]
  | some s, h => by
    simp only [Stmt.everyPipeOption] at h
    simp only [Stmt.flatOption, Stmt.flat_of_pipeFree s h]

end

/-- Flattening once is enough. -/
theorem Expr.flat_flat (e : Expr) : e.flat.flat = e.flat :=
  Expr.flat_of_pipeFree e.flat (Expr.everyPipe_flat _ e)

/-! ## §5. Expansion and flattening agree. -/

/-- What is found by an expansion agrees with what is said about it by parts:
there are no faults exactly if all pipes are used, and then the trees are the
same. -/
structure Agrees {α : Type} (used : Bool) (faults : List SyntaxFault) (tree flat : α) : Prop where
  clean : faults = [] ↔ used = true
  same : used = true → tree = flat

namespace Agrees

variable {α β γ : Type} {u w : Bool} {fs gs : List SyntaxFault} {a a' : α} {b b' : β}

theorem leaf (a : α) : Agrees true [] a a := ⟨by simp, fun _ => rfl⟩

theorem map (f : α → β) (h : Agrees u fs a a') : Agrees u fs (f a) (f a') :=
  ⟨h.clean, fun hu => congrArg f (h.same hu)⟩

/-- The faults of two parts come one after the other. -/
theorem both (f : α → β → γ) (h : Agrees u fs a a') (g : Agrees w gs b b') :
    Agrees (u && w) (fs ++ gs) (f a b) (f a' b') := by
  constructor
  · rw [List.append_eq_nil_iff, Bool.and_eq_true, h.clean, g.clean]
  · intro huw
    obtain ⟨hu, hw⟩ := Bool.and_eq_true_iff.1 huw
    rw [h.same hu, g.same hw]

end Agrees

/-- A pipe agrees if its left side and its filled right side do. -/
theorem Expr.agrees_pipe {left : Expr} {operator : Token} {right : Expr}
    (own : right.hasOwn = true)
    (hl : Agrees (Expr.everyPipe Expr.hasOwn left) left.expanded.faults left.expanded.tree
      left.flat)
    (hr : Agrees (Expr.everyPipe Expr.hasOwn (Expr.fill left.expanded.tree right))
      (Expr.fill left.expanded.tree right).expanded.faults
      (Expr.fill left.expanded.tree right).expanded.tree
      (Expr.fill left.expanded.tree right).flat) :
    Agrees (Expr.everyPipe Expr.hasOwn (.pipe left operator right))
      (left.expanded.faults ++ (Expr.fill left.expanded.tree right).expanded.faults)
      (Expr.fill left.expanded.tree right).expanded.tree (Expr.pipe left operator right).flat := by
  simp only [Expr.everyPipe, own, Bool.true_and]
  cases hused : Expr.everyPipe Expr.hasOwn left with
  | false =>
    -- The left side has a fault, whatever comes of the right side.
    have hfaults : left.expanded.faults ≠ [] := by
      rw [Ne, hl.clean, hused]
      exact Bool.false_ne_true
    constructor
    · rw [List.append_eq_nil_iff]
      exact ⟨fun h => absurd h.1 hfaults, fun h => Bool.noConfusion h⟩
    · intro h
      exact Bool.noConfusion h
  | true =>
    have htree : left.expanded.tree = left.flat := hl.same hused
    -- The expanded left side brings no pipes of its own.
    have hfilled : Expr.everyPipe Expr.hasOwn (Expr.fill left.flat right) =
        Expr.everyPipe Expr.hasOwn right := Expr.everyPipe_fill (Expr.everyPipe_flat _ left) right
    rw [htree] at hr ⊢
    rw [hl.clean.2 hused, ← hfilled]
    refine ⟨hr.clean, fun h => ?_⟩
    calc (Expr.fill left.flat right).expanded.tree
        = (Expr.fill left.flat right).flat := hr.same h
      _ = Expr.fill left.flat.flat right.flat := Expr.flat_fill left.flat right
      _ = Expr.fill left.flat right.flat := by rw [Expr.flat_flat]
      _ = (Expr.pipe left operator right).flat := by simp only [Expr.flat]

/-- A pipe that does not use its left side has a fault. -/
theorem Expr.agrees_pipe_of_not_hasOwn {left : Expr} {operator : Token} {right tree : Expr}
    (own : right.hasOwn = false) (fs : List SyntaxFault) (fault : SyntaxFault) :
    Agrees (Expr.everyPipe Expr.hasOwn (.pipe left operator right)) (fs ++ [fault]) tree
      (Expr.pipe left operator right).flat := by
  simp only [Expr.everyPipe, own, Bool.false_and]
  constructor
  · simp
  · intro h
    exact Bool.noConfusion h

mutual

-- The recursion is that of the expansion, so the induction is by weight too.
theorem Expr.expanded_agrees (e : Expr) :
    Agrees (Expr.everyPipe Expr.hasOwn e) e.expanded.faults e.expanded.tree e.flat := by
  match e with
  | .literal value =>
    rw [Expr.expanded]
    exact .leaf _
  | .name token =>
    rw [Expr.expanded]
    exact .leaf _
  | .unary operator operand =>
    rw [Expr.expanded, Expr.flat]
    exact (Expr.expanded_agrees operand).map (Expr.unary operator)
  | .binary left operator right =>
    rw [Expr.expanded, Expr.flat]
    exact .both (Expr.binary · operator ·) (Expr.expanded_agrees left) (Expr.expanded_agrees right)
  | .logical left operator right =>
    rw [Expr.expanded, Expr.flat]
    exact .both (Expr.logical · operator ·) (Expr.expanded_agrees left) (Expr.expanded_agrees right)
  | .pipe left operator right =>
    rw [Expr.expanded]
    by_cases own : right.hasOwn = true
    · rw [dif_pos own]
      -- The filled right side is no part of the pipe, but it is lighter.
      have := Expr.weight_fill_lt operator right 1 (left.expanded.light 1)
      exact Expr.agrees_pipe own (Expr.expanded_agrees left)
        (Expr.expanded_agrees (Expr.fill left.expanded.tree right))
    · rw [dif_neg own]
      exact Expr.agrees_pipe_of_not_hasOwn (by simpa using own) _ _
  | .call callee paren arguments =>
    rw [Expr.expanded, Expr.flat]
    exact .both (Expr.call · paren ·) (Expr.expanded_agrees callee)
      (Expr.expandedAll_agrees arguments)
  | .assign target value =>
    rw [Expr.expanded, Expr.flat]
    exact (Expr.expanded_agrees value).map (Expr.assign target)
  | .group inner =>
    rw [Expr.expanded, Expr.flat]
    exact (Expr.expanded_agrees inner).map Expr.group
  | .function own parameters body =>
    rw [Expr.expanded, Expr.flat]
    exact (Stmt.expandedAll_agrees body).map (Expr.function own parameters)
termination_by Expr.weight 1 e
decreasing_by all_goals simp only [Expr.weight] at *; omega

theorem Expr.expandedAll_agrees (es : List Expr) :
    Agrees (Expr.everyPipeAll Expr.hasOwn es) (Expr.expandedAll es).faults
      (Expr.expandedAll es).trees (Expr.flatAll es) := by
  match es with
  | [] =>
    rw [Expr.expandedAll]
    exact .leaf _
  | e :: es =>
    rw [Expr.expandedAll, Expr.flatAll]
    exact .both List.cons (Expr.expanded_agrees e) (Expr.expandedAll_agrees es)
termination_by Expr.weightAll 1 es
decreasing_by all_goals simp only [Expr.weightAll]; omega

theorem Stmt.expanded_agrees (s : Stmt) :
    Agrees (Stmt.everyPipe Expr.hasOwn s) s.expanded.faults s.expanded.tree s.flat := by
  match s with
  | .expr value =>
    rw [Stmt.expanded, Stmt.flat]
    exact (Expr.expanded_agrees value).map Stmt.expr
  | .print value =>
    rw [Stmt.expanded, Stmt.flat]
    exact (Expr.expanded_agrees value).map Stmt.print
  | .var name none =>
    rw [Stmt.expanded]
    exact .leaf _
  | .var name (some initial) =>
    rw [Stmt.expanded, Stmt.flat]
    exact (Expr.expanded_agrees initial).map (Stmt.var name ∘ some)
  | .block body =>
    rw [Stmt.expanded, Stmt.flat]
    exact (Stmt.expandedAll_agrees body).map Stmt.block
  | .branch condition yes none =>
    rw [Stmt.expanded, Stmt.flat, Stmt.everyPipe, Stmt.everyPipeOption, Bool.and_true]
    exact .both (Stmt.branch · · none) (Expr.expanded_agrees condition) (Stmt.expanded_agrees yes)
  | .branch condition yes (some no) =>
    rw [Stmt.expanded, Stmt.flat]
    exact .both (fun (p : Expr × Stmt) n => Stmt.branch p.1 p.2 (some n))
      (.both Prod.mk (Expr.expanded_agrees condition) (Stmt.expanded_agrees yes))
      (Stmt.expanded_agrees no)
  | .loop condition body increment =>
    rw [Stmt.expanded, Stmt.flat]
    exact .both (Stmt.loop · · increment) (Expr.expanded_agrees condition)
      (Stmt.expanded_agrees body)
  | .function name parameters body =>
    rw [Stmt.expanded, Stmt.flat]
    exact (Stmt.expandedAll_agrees body).map (Stmt.function name parameters)
  | .give keyword none =>
    rw [Stmt.expanded]
    exact .leaf _
  | .give keyword (some value) =>
    rw [Stmt.expanded, Stmt.flat]
    exact (Expr.expanded_agrees value).map (Stmt.give keyword ∘ some)
  | .leave keyword =>
    rw [Stmt.expanded]
    exact .leaf _
  | .next keyword =>
    rw [Stmt.expanded]
    exact .leaf _
termination_by Stmt.weight s
decreasing_by all_goals simp only [Stmt.weight, Expr.weightOption, Stmt.weightOption]; omega

theorem Stmt.expandedAll_agrees (ss : List Stmt) :
    Agrees (Stmt.everyPipeAll Expr.hasOwn ss) (Stmt.expandedAll ss).faults
      (Stmt.expandedAll ss).trees (Stmt.flatAll ss) := by
  match ss with
  | [] =>
    rw [Stmt.expandedAll]
    exact .leaf _
  | s :: ss =>
    rw [Stmt.expandedAll, Stmt.flatAll]
    exact .both List.cons (Stmt.expanded_agrees s) (Stmt.expandedAll_agrees ss)
termination_by Stmt.weightAll ss
decreasing_by all_goals simp only [Stmt.weightAll]; omega

end

/-! ## §6. Programs. -/

theorem expandPipes_faults_eq_nil (program : List Stmt) :
    (expandPipes program).faults = [] ↔ Stmt.pipesUsed program = true :=
  (Stmt.expandedAll_agrees program).clean

/-- A program that uses all its pipes becomes its flat form. -/
theorem expandPipes_of_pipesUsed {program : List Stmt} (h : Stmt.pipesUsed program = true) :
    expandPipes program = ⟨Stmt.flatAll program, []⟩ := by
  have hfaults : (Stmt.expandedAll program).faults = [] := (expandPipes_faults_eq_nil program).2 h
  have htrees : (Stmt.expandedAll program).trees = Stmt.flatAll program :=
    (Stmt.expandedAll_agrees program).same h
  unfold expandPipes
  rw [hfaults, htrees]

/-- A program without pipes is left alone. -/
theorem expandPipes_of_pipeFree {program : List Stmt} (h : Stmt.pipeFree program = true) :
    expandPipes program = ⟨program, []⟩ := by
  have hflat : Stmt.flatAll program = program := Stmt.flatAll_of_pipeFree program h
  have hused : Stmt.pipesUsed program = true := by
    rw [← hflat]
    exact Stmt.everyPipeAll_flatAll _ program
  rw [expandPipes_of_pipesUsed hused, hflat]

/-- **Expansion by filling is expansion by parts.** No fault is found exactly if
every pipe, in function bodies too, has a placeholder for its left side; then
the outcome is the flat program, which has no pipe, and expanding it again
changes nothing.  A program without pipes is left alone to begin with. -/
theorem expandPipes_compositional (program : List Stmt) :
    ((expandPipes program).faults = [] ↔ Stmt.pipesUsed program = true) ∧
    (Stmt.pipesUsed program = true →
      (expandPipes program).statements = Stmt.flatAll program ∧
      Stmt.pipeFree (expandPipes program).statements = true ∧
      expandPipes (expandPipes program).statements = ⟨(expandPipes program).statements, []⟩) ∧
    (Stmt.pipeFree program = true → expandPipes program = ⟨program, []⟩) := by
  have hfree : Stmt.pipeFree (Stmt.flatAll program) = true := Stmt.everyPipeAll_flatAll _ program
  refine ⟨expandPipes_faults_eq_nil program, ?_, expandPipes_of_pipeFree⟩
  intro h
  rw [expandPipes_of_pipesUsed h]
  exact ⟨rfl, hfree, expandPipes_of_pipeFree hfree⟩

/-- `nil |> f($ |> $, fun () { return true |> $; });` -/
def nestedPipes : List Stmt :=
  let pipe : Token := ⟨.symbol .pipe, "|>", 1⟩
  let placeholder : Expr := .name ⟨.symbol .dollar, "$", 1⟩
  [.expr (.pipe (.literal .nil) pipe (.call (.name ⟨.identifier, "f", 1⟩) ⟨.symbol .rightParen, ")", 1⟩
    [.pipe placeholder pipe placeholder,
      .function none [] [.give ⟨.keyword .returnWord, "return", 1⟩
        (some (.pipe (.literal (.bool true)) pipe placeholder))]]))]

theorem expandPipes_compositional_nestedPipes :
    Stmt.pipesUsed nestedPipes = true ∧
    (expandPipes nestedPipes).statements = Stmt.flatAll nestedPipes ∧
    Stmt.pipeFree (Stmt.flatAll nestedPipes) = true ∧
    expandPipes (Stmt.flatAll nestedPipes) = ⟨Stmt.flatAll nestedPipes, []⟩ :=
  ⟨rfl, ((expandPipes_compositional nestedPipes).2.1 rfl).1, rfl,
    (expandPipes_compositional (Stmt.flatAll nestedPipes)).2.2 rfl⟩

end Lox
